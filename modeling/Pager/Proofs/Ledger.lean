import Pager.Proofs.SlotStore
import Mathlib.Data.Fintype.EquivFin
import Mathlib.Data.Nat.Count

/-!
What the swap table owes its user. The user keeps a ledger: the slots it was given and has
not given back, and the page it last wrote to each slot, if that write went through. Nothing
but the requests and their answers is in the ledger. A table answers as its ledger says
(`Served.by_ledger`), whatever sectors fail and whenever they begin or cease to.
-/
namespace Pager

open Function

namespace Disk

variable {disk next other : Disk} {first sector : Nat} {pages : List Bytes}
  {result : Except StoreError Unit}

/-- The sectors that writing a run asks for, up to the one that fails. -/
def askedWriting (disk : Disk) (first : Nat) : List Bytes → List Nat
  | [] => []
  | bytes :: rest =>
    first :: match disk.write first bytes with
      | .error _ => []
      | .ok written => written.askedWriting (first + 1) rest

/-- The sectors that reading a run asks for, up to the one that fails. -/
def askedReading (disk : Disk) (first : Nat) : Nat → List Nat
  | 0 => []
  | count + 1 =>
    first :: match disk.read first with
      | .error _ => []
      | .ok _ => disk.askedReading (first + 1) count

def RefusesRead (disk : Disk) (sector : Nat) : Prop := disk.badRead sector = true

def RefusesWrite (disk : Disk) (sector : Nat) : Prop :=
  disk.badWrite sector = true ∨ disk.failWrites = true

/-- A sector that a run does not ask for is not written. -/
theorem writeRun_of_not_asked (h : disk.writeRun first pages = (next, result))
    (hs : sector ∉ disk.askedWriting first pages) :
    next.sectors[sector]? = disk.sectors[sector]? := by
  induction pages generalizing disk first with
  | nil =>
    cases h
    rfl
  | cons bytes rest ih =>
    rw [askedWriting, List.mem_cons, not_or] at hs
    unfold writeRun at h
    cases hw : disk.write first bytes with
    | error e =>
      rw [hw] at h
      cases h
      rfl
    | ok written =>
      rw [hw] at h hs
      rw [ih h hs.2, (write_eq_ok hw).2, List.getElem?_set_ne (Ne.symm hs.1)]

/-- A sector that a run does not ask for does not count for what is read. -/
theorem readRun_congr {count : Nat}
    (h : ∀ sector ∈ disk.askedReading first count, other.read sector = disk.read sector) :
    other.readRun first count = disk.readRun first count := by
  induction count generalizing first with
  | zero => rfl
  | succ count ih =>
    rw [askedReading, List.forall_mem_cons] at h
    obtain ⟨hfirst, hrest⟩ := h
    rw [readRun, readRun, hfirst]
    cases hr : disk.read first with
    | error e => rfl
    | ok bytes =>
      rw [hr] at hrest
      rw [ih hrest]

theorem lt_of_mem_askedWriting (h : sector ∈ disk.askedWriting first pages) :
    sector < first + pages.length := by
  induction pages generalizing disk first with
  | nil => cases h
  | cons bytes rest ih =>
    rw [List.length_cons]
    rcases List.mem_cons.1 h with rfl | h
    · omega
    · split at h
      · cases h
      · have := ih h
        omega

theorem lt_of_mem_askedReading {count : Nat} (h : sector ∈ disk.askedReading first count) :
    sector < first + count := by
  induction count generalizing first with
  | zero => cases h
  | succ count ih =>
    rcases List.mem_cons.1 h with rfl | h
    · omega
    · split at h
      · cases h
      · have := ih h
        omega

theorem write_eq_error_iff (bytes : Bytes) (hs : sector < disk.size) :
    (∃ e, disk.write sector bytes = .error e) ↔ disk.RefusesWrite sector := by
  unfold write
  split
  · rename_i hw
    rw [← or_assoc] at hw
    exact iff_of_true ⟨_, rfl⟩ (hw.resolve_right (Nat.not_le.2 hs))
  · rename_i hw
    exact iff_of_false nofun fun hr => hw (hr.imp_right .inl)

theorem read_eq_error_iff (hs : sector < disk.size) :
    (∃ e, disk.read sector = .error e) ↔ disk.RefusesRead sector := by
  have hlt : sector < disk.sectors.length := hs
  unfold read
  split
  · rename_i hr
    exact iff_of_true ⟨_, rfl⟩ hr
  · rename_i hr
    rw [List.getElem?_eq_getElem hlt]
    exact iff_of_false nofun hr

/-- What the disk refuses is not changed by a write. -/
theorem refusesWrite_write {bytes : Bytes} (h : disk.write first bytes = .ok next) :
    next.RefusesWrite sector ↔ disk.RefusesWrite sector := by
  unfold write at h
  split at h
  · cases h
  · cases h
    exact Iff.rfl

/-- Writing a run fails if the disk refuses a sector that it is asked for, and not otherwise. -/
theorem writeRun_eq_error_iff (h : disk.writeRun first pages = (next, result))
    (hs : first + pages.length ≤ disk.size) :
    (∃ e, result = .error e) ↔
      ∃ sector ∈ disk.askedWriting first pages, disk.RefusesWrite sector := by
  induction pages generalizing disk first with
  | nil =>
    cases h
    simp [askedWriting]
  | cons bytes rest ih =>
    rw [List.length_cons] at hs
    have hfirst := write_eq_error_iff bytes (show first < disk.size by omega)
    unfold writeRun at h
    rw [askedWriting, List.exists_mem_cons_iff]
    cases hw : disk.write first bytes with
    | error e =>
      rw [hw] at h hfirst
      cases h
      exact iff_of_true ⟨_, rfl⟩ (.inl (hfirst.1 ⟨_, rfl⟩))
    | ok written =>
      rw [hw] at h hfirst
      have hpassed : ¬ disk.RefusesWrite first := by
        intro hrefuses
        obtain ⟨e, he⟩ := hfirst.2 hrefuses
        cases he
      have hsize : first + 1 + rest.length ≤ written.size := by
        rw [size_write hw]
        omega
      rw [ih h hsize, or_iff_right hpassed]
      simp only [refusesWrite_write hw]

/-- Reading a run fails if the disk refuses a sector that it is asked for, and not otherwise. -/
theorem readRun_eq_error_iff {count : Nat} {bytes : Bytes}
    (h : disk.readRun first count = (bytes, result)) (hs : first + count ≤ disk.size) :
    (∃ e, result = .error e) ↔
      ∃ sector ∈ disk.askedReading first count, disk.RefusesRead sector := by
  induction count generalizing first bytes with
  | zero =>
    cases h
    simp [askedReading]
  | succ count ih =>
    have hfirst := read_eq_error_iff (show first < disk.size by omega)
    unfold readRun at h
    rw [askedReading, List.exists_mem_cons_iff]
    cases hr : disk.read first with
    | error e =>
      rw [hr] at h hfirst
      cases h
      exact iff_of_true ⟨_, rfl⟩ (.inl (hfirst.1 ⟨_, rfl⟩))
    | ok head =>
      rw [hr] at h hfirst
      have hpassed : ¬ disk.RefusesRead first := by
        intro hrefuses
        obtain ⟨e, he⟩ := hfirst.2 hrefuses
        cases he
      cases hrest : disk.readRun (first + 1) count with
      | mk rest q =>
        rw [hrest] at h
        cases h
        rw [ih hrest (by omega), or_iff_right hpassed]

end Disk

/-- What the user of a swap table can ask of it. -/
inductive SlotRequest where
  | allocate
  | release (slot : SwapSlot)
  | swapOut (page : Bytes)
  | swapIn (slot : SwapSlot) (frame : Bytes)
  | writePage (slot : SwapSlot) (page : Bytes)
  | readPage (slot : SwapSlot) (frame : Bytes)
  /-- Not asked of the table: sectors of its disk begin or cease to fail. -/
  | switch (switches : DiskSwitches)

inductive SlotAnswer where
  | slot (result : Except PagerError SwapSlot)
  | wrote (result : Except StoreError Unit)
  | read (frame : Bytes) (result : Except StoreError Unit)
  | back (frame : Bytes) (result : Except PagerError Unit)
  | done

/-- The disk has failed. -/
def SlotAnswer.Fails : SlotAnswer → Prop
  | .slot result => ∃ e, result = .error (.store e)
  | .wrote result => ∃ e, result = .error e
  | .read _ result => ∃ e, result = .error e
  | .back _ result => ∃ e, result = .error (.store e)
  | .done => False

def SlotAnswer.slot? : SlotAnswer → Option (Except PagerError SwapSlot)
  | .slot result => some result
  | _ => none

theorem SlotAnswer.slot?_eq_some {answer : SlotAnswer} {result : Except PagerError SwapSlot} :
    answer.slot? = some result ↔ answer = .slot result := by
  cases answer <;> simp [slot?]

def SlotAnswer.read? : SlotAnswer → Option (Bytes × Except StoreError Unit)
  | .read frame result => some (frame, result)
  | _ => none

theorem SlotAnswer.read?_eq_some {answer : SlotAnswer} {frame : Bytes}
    {result : Except StoreError Unit} :
    answer.read? = some (frame, result) ↔ answer = .read frame result := by
  cases answer <;> simp [read?]

namespace SlotRequest

def perform : SlotRequest → SwapTable → Except Bug (SlotAnswer × SwapTable)
  | allocate, swap => do
    let (result, next) ← SwapTable.allocate swap
    return (.slot result, next)
  | release slot, swap => return (.done, ← swap.release slot)
  | swapOut page, swap => do
    let (result, next) ← SwapTable.swapOut page swap
    return (.slot result, next)
  | swapIn slot frame, swap => do
    match ← (SwapTable.swapIn slot frame : Action SwapTable Empty _) swap with
    | (.ok (bytes, result), next) => return (.back bytes result, next)
  | writePage slot page, swap => do
    let (result, next) ← SwapTable.writePage slot page swap
    return (.wrote result, next)
  | readPage slot frame, swap => do
    let (bytes, result) ← swap.readPage slot frame
    return (.read bytes result, swap)
  | switch switches, swap => return (.done, { swap with disk := swap.disk.switch switches })

/-- The sectors that a request asks the disk for. -/
def asked (swap : SwapTable) : SlotRequest → List Nat
  | swapOut page =>
    match swap.bitmap.allocate with
    | none => []
    | some (slot, _) =>
      swap.disk.askedWriting (SwapTable.firstSector slot) (SwapTable.sectorsOf page)
  | writePage slot page =>
    swap.disk.askedWriting (SwapTable.firstSector slot) (SwapTable.sectorsOf page)
  | swapIn slot _ | readPage slot _ =>
    swap.disk.askedReading (SwapTable.firstSector slot) sectorsPerPage
  | allocate | release _ | switch _ => []

/-- The disk refuses a sector that the request asks it for. -/
def Refused (swap : SwapTable) (request : SlotRequest) : Prop :=
  ∃ sector ∈ request.asked swap, match request with
    | swapIn _ _ | readPage _ _ => swap.disk.RefusesRead sector
    | _ => swap.disk.RefusesWrite sector

/-- Of the disk a request changes only sectors that it asks for, and what it reads is in them. -/
structure Confined (request : SlotRequest) (swap next : SwapTable) : Prop where
  changes : ∀ sector ∉ request.asked swap, next.disk.sectors[sector]? = swap.disk.sectors[sector]?
  reads : ∀ slot frame, request = swapIn slot frame ∨ request = readPage slot frame →
    ∀ other : Disk, (∀ sector ∈ request.asked swap, other.read sector = swap.disk.read sector) →
      SwapTable.readPage ⟨other, swap.bitmap⟩ slot frame = swap.readPage slot frame

variable {request : SlotRequest} {swap next : SwapTable} {answer : SlotAnswer} {sector : Nat}

theorem sectors_of_not_asked (run : request.perform swap = .ok (answer, next))
    (hs : sector ∉ request.asked swap) :
    next.disk.sectors[sector]? = swap.disk.sectors[sector]? := by
  have hreleased : ∀ {swap next : SwapTable} {slot}, swap.release slot = .ok next →
      next.disk = swap.disk := by
    intro swap next slot hr
    obtain ⟨_, -, rfl⟩ := SwapTable.release_eq_ok.1 hr
    rfl
  cases request with
  | allocate =>
    obtain ⟨⟨r, u⟩, hrun, hlast⟩ := except_bind_eq_ok.1 run
    cases hlast
    obtain ⟨_, _, -, -, rfl⟩ | ⟨-, -, rfl⟩ := SwapTable.allocate_eq_ok hrun <;> rfl
  | release slot =>
    obtain ⟨u, hr, hlast⟩ := except_bind_eq_ok.1 run
    cases hlast
    rw [hreleased hr]
  | swapOut page =>
    obtain ⟨⟨r, u⟩, hrun, hlast⟩ := except_bind_eq_ok.1 run
    cases hlast
    obtain ⟨-, -, rfl⟩ | ⟨n, bitmap, disk, q, hb, -, hw, hcase⟩ := SwapTable.swapOut_eq_ok hrun
    · rfl
    · rw [asked, hb] at hs
      have hkept := Disk.writeRun_of_not_asked hw hs
      obtain ⟨-, -, rfl⟩ | ⟨e, -, -, hr⟩ := hcase
      · exact hkept
      · rw [hreleased hr]
        exact hkept
  | swapIn slot frame =>
    obtain ⟨⟨r, u⟩, hrun, hlast⟩ := except_bind_eq_ok.1 run
    obtain ⟨bytes, q, -, ⟨e, -, rfl, rfl⟩ | ⟨-, rfl, hr⟩⟩ := SwapTable.swapIn_eq_ok hrun
    · cases hlast
      rfl
    · cases hlast
      rw [hreleased hr]
  | writePage slot page =>
    obtain ⟨⟨r, u⟩, hrun, hlast⟩ := except_bind_eq_ok.1 run
    cases hlast
    obtain ⟨-, -, hw⟩ := SwapTable.writePage_eq_ok hrun
    exact Disk.writeRun_of_not_asked hw hs
  | readPage slot frame =>
    obtain ⟨out, -, hlast⟩ := except_bind_eq_ok.1 run
    cases hlast
    rfl
  | switch switches =>
    cases run
    rfl

theorem readPage_of_asked {other : Disk} {slot : SwapSlot} {frame : Bytes}
    (hrequest : request = swapIn slot frame ∨ request = readPage slot frame)
    (h : ∀ sector ∈ request.asked swap, other.read sector = swap.disk.read sector) :
    SwapTable.readPage ⟨other, swap.bitmap⟩ slot frame = swap.readPage slot frame := by
  have hread : ∀ sector ∈ swap.disk.askedReading (SwapTable.firstSector slot) sectorsPerPage,
      other.read sector = swap.disk.read sector := by
    rcases hrequest with rfl | rfl <;> exact h
  unfold SwapTable.readPage
  rw [Disk.readRun_congr hread]

end SlotRequest

namespace SwapTable.Sound

variable {swap : SwapTable} {slot : SwapSlot} {page frame : Bytes} {result : Except StoreError Unit}

theorem write_fails_iff (h : swap.Sound) (hs : slot < swap.capacity) {disk : Disk}
    (hw : swap.disk.writeRun (firstSector slot) (sectorsOf page) = (disk, result)) :
    (∃ e, result = .error e) ↔ (SlotRequest.writePage slot page).Refused swap := by
  refine Disk.writeRun_eq_error_iff hw ?_
  rw [length_sectorsOf]
  exact h.firstSector_le hs

theorem read_fails_iff (h : swap.Sound) (hs : slot < swap.capacity) {bytes : Bytes}
    (hr : swap.readPage slot frame = .ok (bytes, result)) :
    (∃ e, result = .error e) ↔ (SlotRequest.readPage slot frame).Refused swap := by
  obtain ⟨-, run, -, hrun⟩ := readPage_eq_ok hr
  exact Disk.readRun_eq_error_iff hrun (h.firstSector_le hs)

end SwapTable.Sound

structure SlotLedger where
  /-- The slots in use. -/
  used : Finset SwapSlot := ∅
  /-- The slots that were handed out at some time. -/
  known : Finset SwapSlot := ∅
  /-- The page last written to a slot, if that write went through. -/
  written : SwapSlot → Option Bytes := fun _ => none

namespace SlotLedger

/-- The lowest slot that is not in use. -/
def lowestFree (l : SlotLedger) : SwapSlot := Nat.find (Infinite.exists_notMem_finset l.used)

def grant (l : SlotLedger) (slot : SwapSlot) : SlotLedger :=
  { l with used := insert slot l.used, known := insert slot l.known }

def free (l : SlotLedger) (slot : SwapSlot) : SlotLedger := { l with used := l.used.erase slot }

def write (l : SlotLedger) (slot : SwapSlot) (page : Bytes) (result : Except StoreError Unit) :
    SlotLedger :=
  { l with written := update l.written slot (result.toOption.map fun _ => page) }

/-- The ledger after an answer. A page that could not be moved out was written, in part, to the
slot that it would have had. -/
def after (l : SlotLedger) : SlotRequest → SlotAnswer → SlotLedger
  | .allocate, .slot (.ok slot) => l.grant slot
  | .release slot, .done => l.free slot
  | .swapOut page, .slot (.ok slot) => (l.grant slot).write slot page (.ok ())
  | .swapOut page, .slot (.error (.store e)) => l.write l.lowestFree page (.error e)
  | .swapIn slot _, .back _ (.ok ()) => l.free slot
  | .writePage slot page, .wrote result => l.write slot page result
  | _, _ => l

/-- The ledger of all the requests and answers so far. -/
def of (history : List (SlotRequest × SlotAnswer)) : SlotLedger :=
  history.foldl (fun l entry => l.after entry.1 entry.2) {}

/-- The user keeps to the contract: whole pages, slots it was given, and none that is free is
given back. -/
def Allows (l : SlotLedger) : SlotRequest → Prop
  | .allocate | .switch _ => True
  | .release slot => slot ∈ l.used
  | .swapOut page => page.length = pageSize
  | .swapIn slot frame => slot ∈ l.used ∧ frame.length = pageSize
  | .writePage slot page => slot ∈ l.known ∧ page.length = pageSize
  | .readPage slot frame => slot ∈ l.known ∧ frame.length = pageSize

/-- The answers that a table of `capacity` slots may give. Where the disk can fail there are two,
and which of them it is depends on the sectors (`SlotRequest.Refused`). -/
inductive Answers (l : SlotLedger) (capacity : Nat) : SlotRequest → SlotAnswer → Prop
  | claimed (room : l.lowestFree < capacity) :
    Answers l capacity .allocate (.slot (.ok l.lowestFree))
  | exhausted (full : ∀ slot < capacity, slot ∈ l.used) :
    Answers l capacity .allocate (.slot (.error .swapExhausted))
  | released {slot : SwapSlot} : Answers l capacity (.release slot) .done
  | out {page : Bytes} (room : l.lowestFree < capacity) :
    Answers l capacity (.swapOut page) (.slot (.ok l.lowestFree))
  | lost {page : Bytes} (room : l.lowestFree < capacity) (e : StoreError) :
    Answers l capacity (.swapOut page) (.slot (.error (.store e)))
  | crowded {page : Bytes} (full : ∀ slot < capacity, slot ∈ l.used) :
    Answers l capacity (.swapOut page) (.slot (.error .swapExhausted))
  | back {slot : SwapSlot} {frame bytes : Bytes}
    (whole : ∀ page, l.written slot = some page → bytes = page) :
    Answers l capacity (.swapIn slot frame) (.back bytes (.ok ()))
  | kept {slot : SwapSlot} {frame bytes : Bytes} (e : StoreError) :
    Answers l capacity (.swapIn slot frame) (.back bytes (.error (.store e)))
  | wrote {slot : SwapSlot} {page : Bytes} (result : Except StoreError Unit) :
    Answers l capacity (.writePage slot page) (.wrote result)
  | read {slot : SwapSlot} {frame bytes : Bytes} {result : Except StoreError Unit}
    (whole : result = .ok () → ∀ page, l.written slot = some page → bytes = page) :
    Answers l capacity (.readPage slot frame) (.read bytes result)
  | switched {switches : DiskSwitches} : Answers l capacity (.switch switches) .done

/-- The ledger is right about the table. -/
structure Tracks (l : SlotLedger) (swap : SwapTable) : Prop where
  sound : swap.Sound
  isUsed_iff : ∀ slot, swap.isUsed slot = true ↔ slot ∈ l.used
  known_lt : ∀ slot ∈ l.known, slot < swap.capacity
  stored_eq : ∀ {slot page}, l.written slot = some page → swap.stored slot = page

/-- The answer is one that the ledger expects, and the ledger that notes it is right again. -/
structure Follows (l : SlotLedger) (swap : SwapTable) (request : SlotRequest) (answer : SlotAnswer)
    (next : SwapTable) : Prop where
  answers : l.Answers swap.capacity request answer
  fails_iff : answer.Fails ↔ request.Refused swap
  tracks : (l.after request answer).Tracks next
  size : next.disk.size = swap.disk.size

namespace Tracks

variable {l : SlotLedger} {swap next : SwapTable} {slot : SwapSlot} {page frame : Bytes}
  {bitmap : SlotBitmap} {disk : Disk} {result : Except StoreError Unit}

theorem start (hdisk : ∀ bytes ∈ disk.sectors, bytes.length = sectorSize) :
    Tracks {} (.ofDisk disk) where
  sound := SwapTable.sound_ofDisk hdisk
  isUsed_iff slot := by simp [SwapTable.isUsed_ofDisk]
  known_lt _ h := absurd h (Finset.notMem_empty _)
  stored_eq h := nomatch h

/-- The counter of the table is the number of slots in use. -/
theorem used_eq (h : l.Tracks swap) : swap.used = l.used.card := by
  have hset : l.used = (Finset.range swap.capacity).filter (swap.isUsed · = true) := by
    ext slot
    rw [Finset.mem_filter, Finset.mem_range, ← h.isUsed_iff]
    exact (and_iff_right_of_imp SwapTable.lt_of_isUsed).symm
  rw [hset, ← Nat.count_eq_card_filter_range, SwapTable.used, SlotBitmap.used_eq_countP_test]
  exact List.countP_congr fun slot _ => (decide_eq_true_iff (p := swap.isUsed slot = true)).symm

/-- The search of the bitmap finds the slot that the ledger expects. -/
theorem lowestFree_eq (h : l.Tracks swap) (hb : swap.bitmap.allocate = some (slot, bitmap)) :
    l.lowestFree = slot := by
  obtain ⟨hfree, hbelow, -⟩ := SlotBitmap.allocate_eq_some hb
  refine (Nat.find_eq_iff _).2 ⟨fun hmem => ?_, fun other hother => not_not.2 ?_⟩
  · rw [← h.isUsed_iff, SwapTable.isUsed, hfree] at hmem
    cases hmem
  · exact (h.isUsed_iff other).1 (hbelow other hother)

theorem full (h : l.Tracks swap) (hb : swap.bitmap.allocate = none) :
    ∀ slot < swap.capacity, slot ∈ l.used := fun slot hslot =>
  (h.isUsed_iff slot).1 (SlotBitmap.allocate_eq_none hb hslot)

theorem grant (h : l.Tracks swap) (hb : swap.bitmap.allocate = some (slot, bitmap)) :
    (l.grant slot).Tracks ⟨swap.disk, bitmap⟩ := by
  obtain ⟨-, hlt, hused⟩ := SwapTable.isUsed_claimed hb
  obtain ⟨-, -, hslots, -⟩ := SlotBitmap.allocate_eq_some hb
  exact {
    sound := ⟨hslots.trans h.sound.capacity_eq, h.sound.length_sector⟩
    isUsed_iff := fun other => by
      rw [hused, SlotLedger.grant, Finset.mem_insert, ← h.isUsed_iff, update_apply]
      by_cases he : other = slot <;> simp [he]
    known_lt := fun other hmem => by
      rcases Finset.mem_insert.1 hmem with rfl | hmem
      · exact Nat.lt_of_lt_of_eq hlt hslots.symm
      · exact Nat.lt_of_lt_of_eq (h.known_lt other hmem) hslots.symm
    stored_eq := h.stored_eq }

theorem free (h : l.Tracks swap) (hr : swap.release slot = .ok next) :
    (l.free slot).Tracks next := by
  obtain ⟨hsound, -, hused, hdisk⟩ := SwapTable.release_spec h.sound hr
  have hcapacity : next.capacity = swap.capacity := by
    rw [hsound.capacity_eq, h.sound.capacity_eq, hdisk]
  exact {
    sound := hsound
    isUsed_iff := fun other => by
      rw [hused, SlotLedger.free, Finset.mem_erase, ← h.isUsed_iff, update_apply]
      by_cases he : other = slot <;> simp [he]
    known_lt := fun other hmem => Nat.lt_of_lt_of_eq (h.known_lt other hmem) hcapacity.symm
    stored_eq := fun hw => by
      rw [SwapTable.stored_of_disk_eq hdisk]
      exact h.stored_eq hw }

theorem write (h : l.Tracks swap) (hp : page.length = pageSize) (hslot : slot < swap.capacity)
    (hw : swap.disk.writeRun (SwapTable.firstSector slot) (SwapTable.sectorsOf page) =
      (disk, result)) : (l.write slot page result).Tracks ⟨disk, swap.bitmap⟩ := by
  obtain ⟨hsound, hother, hsame⟩ := SwapTable.writeRun_slot h.sound hp hslot hw swap.bitmap rfl
  refine ⟨hsound, h.isUsed_iff, h.known_lt, fun {other bytes} hbytes => ?_⟩
  change update l.written slot _ other = some bytes at hbytes
  rw [update_apply] at hbytes
  split at hbytes
  · rename_i he
    cases result with
    | error e => cases hbytes
    | ok _ =>
      cases hbytes
      rw [he, hsame rfl]
  · rename_i hne
    rw [hother other hne, h.stored_eq hbytes]

theorem allocate {r : Except PagerError SwapSlot} (h : l.Tracks swap)
    (run : SwapTable.allocate swap = .ok (r, next)) :
    Follows l swap .allocate (.slot r) next := by
  obtain ⟨slot, bitmap, rfl, hb, rfl⟩ | ⟨rfl, hb, rfl⟩ := SwapTable.allocate_eq_ok run
  · obtain ⟨-, hlt, -⟩ := SwapTable.isUsed_claimed hb
    obtain rfl := h.lowestFree_eq hb
    exact ⟨.claimed hlt, iff_of_false nofun nofun, h.grant hb, rfl⟩
  · exact ⟨.exhausted (h.full hb), iff_of_false nofun nofun, h, rfl⟩

theorem release (h : l.Tracks swap) (run : swap.release slot = .ok next) :
    Follows l swap (.release slot) .done next := by
  obtain ⟨-, -, -, hdisk⟩ := SwapTable.release_spec h.sound run
  exact ⟨.released, iff_of_false nofun nofun, h.free run, by rw [hdisk]⟩

theorem writePage (h : l.Tracks swap) (hslot : slot ∈ l.known)
    (run : SwapTable.writePage slot page swap = .ok (result, next)) :
    Follows l swap (.writePage slot page) (.wrote result) next := by
  obtain ⟨hp, hbitmap, hw⟩ := SwapTable.writePage_eq_ok run
  have hnext : next = ⟨next.disk, swap.bitmap⟩ := congrArg (SwapTable.mk next.disk) hbitmap
  have hsize := (Disk.writeRun_spec hw).1
  have hlt := h.known_lt slot hslot
  refine ⟨.wrote _, h.sound.write_fails_iff hlt hw, ?_, hsize⟩
  rw [hnext]
  exact h.write hp hlt hw

theorem swapOut {r : Except PagerError SwapSlot} (h : l.Tracks swap)
    (run : SwapTable.swapOut page swap = .ok (r, next)) :
    Follows l swap (.swapOut page) (.slot r) next := by
  obtain ⟨rfl, hb, rfl⟩ | ⟨slot, bitmap, disk, q, hb, hp, hw, hcase⟩ := SwapTable.swapOut_eq_ok run
  · have hnone : ¬ (SlotRequest.swapOut page).Refused next := by
      rw [SlotRequest.Refused, SlotRequest.asked, hb]
      exact nofun
    exact ⟨.crowded (h.full hb), iff_of_false nofun hnone, h, rfl⟩
  · obtain ⟨hfree, hlt, -⟩ := SwapTable.isUsed_claimed hb
    have hfails : (∃ e, q = .error e) ↔ (SlotRequest.swapOut page).Refused swap := by
      rw [SlotRequest.Refused, SlotRequest.asked, hb]
      exact h.sound.write_fails_iff hlt hw
    obtain rfl := h.lowestFree_eq hb
    have hsize : disk.size = swap.disk.size := (Disk.writeRun_spec hw).1
    have hgranted := h.grant hb
    have hwritten := hgranted.write hp (hgranted.known_lt _ (Finset.mem_insert_self ..)) hw
    obtain ⟨rfl, rfl, rfl⟩ | ⟨e, rfl, rfl, hr⟩ := hcase
    · exact ⟨.out hlt, iff_of_false nofun (mt hfails.2 nofun), hwritten, hsize⟩
    · -- the slot is given back, and stays unknown to the user
      have hfreed := hwritten.free hr
      obtain ⟨_, -, rfl⟩ := SwapTable.release_eq_ok.1 hr
      have hused : (insert l.lowestFree l.used).erase l.lowestFree = l.used :=
        Finset.erase_insert fun hmem => by
          rw [← h.isUsed_iff, hfree] at hmem
          cases hmem
      refine ⟨.lost hlt e, iff_of_true ⟨e, rfl⟩ (hfails.1 ⟨e, rfl⟩),
        ⟨hfreed.sound, fun other => ?_, fun other hmem => ?_, hfreed.stored_eq⟩, hsize⟩
      · rw [hfreed.isUsed_iff]
        exact Eq.to_iff (congrArg (other ∈ ·) hused)
      · exact hfreed.known_lt other (Finset.mem_insert_of_mem hmem)

theorem readPage (h : l.Tracks swap) (hslot : slot ∈ l.known) {bytes : Bytes}
    (run : swap.readPage slot frame = .ok (bytes, result)) :
    Follows l swap (.readPage slot frame) (.read bytes result) swap := by
  have hlt := h.known_lt slot hslot
  obtain ⟨-, hbytes⟩ := SwapTable.readPage_spec h.sound run
  refine ⟨.read fun hok page hw => ?_, h.sound.read_fails_iff hlt run, h, rfl⟩
  rw [hbytes hok hlt, h.stored_eq hw]

theorem swapIn {r : Except Empty (Bytes × Except PagerError Unit)} (h : l.Tracks swap)
    (hslot : slot ∈ l.used)
    (run : (SwapTable.swapIn slot frame : Action SwapTable Empty _) swap = .ok (r, next)) :
    ∃ bytes q, r = .ok (bytes, q) ∧ Follows l swap (.swapIn slot frame) (.back bytes q) next := by
  have hlt := SwapTable.lt_of_isUsed ((h.isUsed_iff slot).2 hslot)
  obtain ⟨bytes, q, hread, hcase⟩ := SwapTable.swapIn_eq_ok run
  obtain ⟨-, hbytes⟩ := SwapTable.readPage_spec h.sound hread
  have hfails := h.sound.read_fails_iff hlt hread
  obtain ⟨e, rfl, rfl, rfl⟩ | ⟨rfl, rfl, hr⟩ := hcase
  · exact ⟨bytes, _, rfl, .kept e, iff_of_true ⟨e, rfl⟩ (hfails.1 ⟨e, rfl⟩), h, rfl⟩
  · obtain ⟨-, -, -, hdisk⟩ := SwapTable.release_spec h.sound hr
    refine ⟨bytes, _, rfl, .back fun page hw => ?_, iff_of_false nofun (mt hfails.2 nofun),
      h.free hr, by rw [hdisk]⟩
    rw [hbytes rfl hlt, h.stored_eq hw]

theorem switch (h : l.Tracks swap) (switches : DiskSwitches) :
    Follows l swap (.switch switches) .done { swap with disk := swap.disk.switch switches } where
  answers := .switched
  fails_iff := iff_of_false nofun nofun
  tracks := ⟨⟨h.sound.capacity_eq, h.sound.length_sector⟩, h.isUsed_iff, h.known_lt, h.stored_eq⟩
  size := rfl

/-- A request that keeps to the contract is answered, and as the ledger expects. -/
theorem perform (h : l.Tracks swap) {request : SlotRequest} (ha : l.Allows request) :
    ∃ answer next, request.perform swap = .ok (answer, next) ∧
      Follows l swap request answer next := by
  cases request with
  | allocate =>
    cases run : SwapTable.allocate swap with
    | error b => exact absurd run SwapTable.allocate_ne_bug
    | ok out => exact ⟨_, _, by rw [SlotRequest.perform, run]; rfl, h.allocate run⟩
  | release slot =>
    cases run : swap.release slot with
    | error b => exact absurd run (SwapTable.release_ne_bug ((h.isUsed_iff slot).2 ha))
    | ok out => exact ⟨_, _, by rw [SlotRequest.perform, run]; rfl, h.release run⟩
  | swapOut page =>
    cases run : SwapTable.swapOut page swap with
    | error b => exact absurd run (SwapTable.swapOut_ne_bug ha)
    | ok out => exact ⟨_, _, by rw [SlotRequest.perform, run]; rfl, h.swapOut run⟩
  | swapIn slot frame =>
    cases run : (SwapTable.swapIn slot frame : Action SwapTable Empty _) swap with
    | error b => exact absurd run (SwapTable.swapIn_ne_bug ((h.isUsed_iff slot).2 ha.1) ha.2)
    | ok out =>
      obtain ⟨r, next⟩ := out
      obtain ⟨bytes, q, rfl, hfollows⟩ := h.swapIn ha.1 run
      exact ⟨_, _, by rw [SlotRequest.perform, run]; rfl, hfollows⟩
  | writePage slot page =>
    cases run : SwapTable.writePage slot page swap with
    | error b => exact absurd run (SwapTable.writePage_ne_bug ha.2)
    | ok out => exact ⟨_, _, by rw [SlotRequest.perform, run]; rfl, h.writePage ha.1 run⟩
  | readPage slot frame =>
    cases run : swap.readPage slot frame with
    | error b => exact absurd run (SwapTable.readPage_ne_bug ha.2)
    | ok out => exact ⟨_, _, by rw [SlotRequest.perform, run]; rfl, h.readPage ha.1 run⟩
  | switch switches => exact ⟨_, _, rfl, h.switch switches⟩

/-- Every sector asked for is on the disk, since the slot is. -/
theorem asked_lt (h : l.Tracks swap) {request : SlotRequest} (ha : l.Allows request) {sector : Nat}
    (hs : sector ∈ request.asked swap) : sector < swap.disk.size := by
  have hwrite : ∀ {slot page}, slot < swap.capacity →
      sector ∈ swap.disk.askedWriting (SwapTable.firstSector slot) (SwapTable.sectorsOf page) →
        sector < swap.disk.size := by
    intro slot page hslot hs
    have hlt := Disk.lt_of_mem_askedWriting hs
    rw [SwapTable.length_sectorsOf] at hlt
    exact Nat.lt_of_lt_of_le hlt (h.sound.firstSector_le hslot)
  have hread : ∀ {slot}, slot < swap.capacity →
      sector ∈ swap.disk.askedReading (SwapTable.firstSector slot) sectorsPerPage →
        sector < swap.disk.size := fun hslot hs =>
    Nat.lt_of_lt_of_le (Disk.lt_of_mem_askedReading hs) (h.sound.firstSector_le hslot)
  cases request with
  | swapOut page =>
    rw [SlotRequest.asked] at hs
    cases hb : swap.bitmap.allocate with
    | none =>
      rw [hb] at hs
      cases hs
    | some claimed =>
      rw [hb] at hs
      exact hwrite (SwapTable.isUsed_claimed hb).2.1 hs
  | writePage slot page => exact hwrite (h.known_lt slot ha.1) hs
  | swapIn slot frame => exact hread (SwapTable.lt_of_isUsed ((h.isUsed_iff slot).2 ha.1)) hs
  | readPage slot frame => exact hread (h.known_lt slot ha.1) hs
  | allocate | release | switch => cases hs

end Tracks

end SlotLedger

namespace SwapTable

/-- A table over `disk` that has answered the requests of `history`, all of which kept to the
contract. -/
inductive Served (disk : Disk) : List (SlotRequest × SlotAnswer) → SwapTable → Prop
  | start : Served disk [] (ofDisk disk)
  | step {history : List (SlotRequest × SlotAnswer)} {swap next : SwapTable} {request : SlotRequest}
    {answer : SlotAnswer} (past : Served disk history swap)
    (allowed : (SlotLedger.of history).Allows request)
    (run : request.perform swap = .ok (answer, next)) :
    Served disk (history ++ [(request, answer)]) next

variable {disk : Disk} {history : List (SlotRequest × SlotAnswer)} {swap : SwapTable}

theorem Served.tracks (hdisk : ∀ bytes ∈ disk.sectors, bytes.length = sectorSize)
    (h : Served disk history swap) :
    (SlotLedger.of history).Tracks swap ∧ swap.disk.size = disk.size := by
  induction h with
  | start => exact ⟨.start hdisk, rfl⟩
  | @step history swap next request answer past allowed run ih =>
    obtain ⟨answer', next', hrun, hfollows⟩ := ih.1.perform allowed
    cases run.symm.trans hrun
    refine ⟨?_, hfollows.size.trans ih.2⟩
    rw [SlotLedger.of, List.foldl_append]
    exact hfollows.tracks

/-- A swap table over a disk of any size is a store of as many pages as the disk has room for,
whichever sectors fail and whenever they do. After any requests that keep to the contract, the
slots in use are those of the ledger, and the next request ends without a bug, is answered as
the ledger expects, fails only if the disk refuses a sector that it asks for, and keeps to these
sectors, all of which the disk has. -/
theorem Served.by_ledger (hdisk : ∀ bytes ∈ disk.sectors, bytes.length = sectorSize)
    (h : Served disk history swap) :
    swap.capacity = disk.size / sectorsPerPage ∧
      (∀ slot, swap.isUsed slot = true ↔ slot ∈ (SlotLedger.of history).used) ∧
      (∀ slot ∈ (SlotLedger.of history).used, slot < disk.size / sectorsPerPage) ∧
      swap.used = (SlotLedger.of history).used.card ∧
      ∀ request, (SlotLedger.of history).Allows request →
        ∃ answer next, request.perform swap = .ok (answer, next) ∧
          (SlotLedger.of history).Answers (disk.size / sectorsPerPage) request answer ∧
          (answer.Fails ↔ request.Refused swap) ∧
          (∀ sector ∈ request.asked swap, sector < disk.size) ∧ request.Confined swap next := by
  obtain ⟨htracks, hsize⟩ := h.tracks hdisk
  have hcapacity : swap.capacity = disk.size / sectorsPerPage := by
    rw [htracks.sound.capacity_eq, hsize]
  refine ⟨hcapacity, htracks.isUsed_iff, fun slot hslot => ?_, htracks.used_eq,
    fun request ha => ?_⟩
  · rw [← hcapacity]
    exact lt_of_isUsed ((htracks.isUsed_iff slot).2 hslot)
  · obtain ⟨answer, next, run, hfollows⟩ := htracks.perform ha
    have hanswers := hfollows.answers
    rw [hcapacity] at hanswers
    have hconfined : request.Confined swap next :=
      ⟨fun _ => SlotRequest.sectors_of_not_asked run,
        fun _ _ hrequest _ => SlotRequest.readPage_of_asked hrequest⟩
    refine ⟨answer, next, run, hanswers, hfollows.fails_iff, fun sector hs => ?_, hconfined⟩
    rw [← hsize]
    exact htracks.asked_lt ha hs

/-- A disk of two slots and a sector more. -/
def twoSlots : Disk := { sectors := List.replicate 17 (.zeros sectorSize) }

def sevens : Bytes := List.replicate pageSize 7

/-- A page is moved out, and then another one to a slot that cannot be written in full. The disk
cannot read a sector of the first page for a while either. -/
def troubled : List SlotRequest :=
  [.swapOut sevens, .switch { badWrite := some fun sector => sector == 9 },
    .swapOut (.zeros pageSize), .switch { badRead := some fun sector => sector == 3 },
    .readPage 0 (.zeros pageSize), .switch { badRead := some fun _ => false }]

/-- The page comes back whole in the end, and has the only slot in use. -/
theorem twoSlots_by_ledger : ∃ lost unread history swap next bytes,
    history.map Prod.fst = troubled ∧ Served twoSlots history swap ∧
      (.swapOut (.zeros pageSize), lost) ∈ history ∧ lost.Fails ∧
      (.readPage 0 (.zeros pageSize), unread) ∈ history ∧ unread.Fails ∧ swap.used = 1 ∧
      (SlotRequest.readPage 0 (.zeros pageSize)).perform swap = .ok (.read bytes (.ok ()), next) ∧
      bytes = sevens := by
  have hdisk : ∀ bytes ∈ twoSlots.sectors, bytes.length = sectorSize := fun bytes hb => by
    rw [List.eq_of_mem_replicate hb, Bytes.length_zeros]
  have hend : ((SlotRequest.swapOut sevens).perform (ofDisk twoSlots) >>= fun out =>
      (SlotRequest.switch { badWrite := some fun sector => sector == 9 }).perform out.2 >>= fun a =>
      (SlotRequest.swapOut (.zeros pageSize)).perform a.2 >>= fun lost =>
      (SlotRequest.switch { badRead := some fun sector => sector == 3 }).perform lost.2 >>= fun b =>
      (SlotRequest.readPage 0 (.zeros pageSize)).perform b.2 >>= fun unread =>
      .ok (out.1.slot?, lost.1.slot?, unread.1.read?.map Prod.snd)) =
      .ok (some (.ok 0), some (.error (.store .device)), some (.error .device)) := by
    decide +kernel
  obtain ⟨⟨out, first⟩, hout, hend⟩ := except_bind_eq_ok.1 hend
  obtain ⟨⟨a, second⟩, hfailing, hend⟩ := except_bind_eq_ok.1 hend
  obtain ⟨⟨lost, third⟩, hlost, hend⟩ := except_bind_eq_ok.1 hend
  obtain ⟨⟨b, fourth⟩, hblind, hend⟩ := except_bind_eq_ok.1 hend
  obtain ⟨⟨unread, fifth⟩, hunread, hend⟩ := except_bind_eq_ok.1 hend
  obtain ⟨hslot, hrest⟩ := Prod.mk.inj (Except.ok.inj hend)
  obtain ⟨hfull, hread⟩ := Prod.mk.inj hrest
  obtain rfl := SlotAnswer.slot?_eq_some.1 hslot
  obtain rfl := SlotAnswer.slot?_eq_some.1 hfull
  obtain ⟨⟨frame, failed⟩, hread, hfailed⟩ := Option.map_eq_some_iff.1 hread
  obtain rfl := SlotAnswer.read?_eq_some.1 hread
  obtain rfl : failed = .error .device := hfailed
  cases hfailing
  cases hblind
  have hsevens : sevens.length = pageSize := List.length_replicate
  have hzeros : (Bytes.zeros pageSize).length = pageSize := Bytes.length_zeros _
  have h1 := @Served.step twoSlots _ _ _ (.swapOut sevens) _ .start hsevens hout
  have h2 := @Served.step _ _ _ _ (.switch { badWrite := some fun sector => sector == 9 }) _ h1
    trivial rfl
  have h3 := @Served.step _ _ _ _ (.swapOut (.zeros pageSize)) _ h2 hzeros hlost
  have h4 := @Served.step _ _ _ _ (.switch { badRead := some fun sector => sector == 3 }) _ h3
    trivial rfl
  have h5 := @Served.step _ _ _ _ (.readPage 0 (.zeros pageSize)) _ h4
    ⟨Finset.mem_insert_self 0 _, hzeros⟩ hunread
  have h6 := @Served.step _ _ _ _ (.switch { badRead := some fun _ => false }) _ h5 trivial rfl
  obtain ⟨-, -, -, hused, hserves⟩ := Served.by_ledger hdisk h6
  obtain ⟨answer, next, run, hanswers, hfails, -⟩ :=
    hserves (.readPage 0 (.zeros pageSize)) ⟨Finset.mem_insert_self 0 _, hzeros⟩
  -- no sector is refused any more, and so the read goes through
  have hnone : ¬ answer.Fails := by
    rw [hfails]
    rintro ⟨sector, -, hrefuses⟩
    cases hrefuses
  have hlowest : (SlotLedger.of [(.swapOut sevens, .slot (.ok 0))]).lowestFree = 1 :=
    (Nat.find_eq_iff _).2 ⟨by decide, by decide⟩
  cases hanswers with
  | @read _ _ bytes result whole =>
    cases result with
    | error e => exact absurd ⟨e, rfl⟩ hnone
    | ok _ =>
      -- the page that was lost was to go to the other slot
      have hwritten : update (update (fun _ => none) 0 (some sevens))
          (SlotLedger.of [(.swapOut sevens, .slot (.ok 0))]).lowestFree none 0 = some sevens := by
        rw [hlowest]
        rfl
      exact ⟨.slot (.error (.store .device)), .read frame (.error .device), _, _, next, bytes, rfl,
        h6, by simp, ⟨_, rfl⟩, by simp, ⟨_, rfl⟩, hused, run, whole rfl _ hwritten⟩

end SwapTable
end Pager
