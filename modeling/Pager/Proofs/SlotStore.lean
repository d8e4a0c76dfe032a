import Pager.Storage.Swap
import Pager.Proofs.Execution
import Mathlib.Logic.Function.Basic

/-!
The swap disk as a store of whole pages. A slot is a run of sectors, and writing
one slot leaves the sectors of every other as they were, even if the write fails
half-way. `Parked` ties the slots in use to the pages: they are exactly those
that some page records, and no two pages record the same one.
-/
namespace Pager

open Function

namespace Disk

variable {disk next : Disk} {first : Nat} {pages : List Bytes} {result : Except StoreError Unit}

theorem write_eq_ok {sector : Nat} {bytes : Bytes} (h : disk.write sector bytes = .ok next) :
    sector < disk.sectors.length ∧ next.sectors = disk.sectors.set sector bytes := by
  unfold write at h
  split at h
  · cases h
  · rename_i hw
    cases h
    exact ⟨Nat.lt_of_not_le fun hle => hw (.inr (.inr hle)), rfl⟩

/-- Sectors outside the run stay, and a run that went through holds what was written. -/
theorem writeRun_spec (h : disk.writeRun first pages = (next, result)) :
    next.sectors.length = disk.sectors.length ∧
      (∀ bytes ∈ next.sectors, bytes ∈ disk.sectors ∨ bytes ∈ pages) ∧
      (∀ i, i < first ∨ first + pages.length ≤ i → next.sectors[i]? = disk.sectors[i]?) ∧
      (result = .ok () → ∀ i, i < pages.length → next.sectors[first + i]? = pages[i]?) := by
  induction pages generalizing disk first with
  | nil =>
    cases h
    exact ⟨rfl, fun _ hb => .inl hb, fun _ _ => rfl, fun _ i hi => absurd hi (Nat.not_lt_zero i)⟩
  | cons bytes rest ih =>
    unfold writeRun at h
    split at h
    · rename_i e he
      cases h
      refine ⟨rfl, fun _ hb => .inl hb, fun _ _ => rfl, ?_⟩
      intro hr
      cases hr
    · rename_i written hw
      obtain ⟨hlt, hs⟩ := write_eq_ok hw
      obtain ⟨hlen, hmem, hout, hin⟩ := ih h
      refine ⟨by rw [hlen, hs, List.length_set], ?_, ?_, ?_⟩
      · intro other hother
        rcases hmem other hother with hm | hm
        · rw [hs] at hm
          rcases List.mem_or_eq_of_mem_set hm with hm | rfl
          · exact .inl hm
          · exact .inr (List.mem_cons_self ..)
        · exact .inr (List.mem_cons_of_mem _ hm)
      · intro i hi
        rw [List.length_cons] at hi
        rw [hout i (by omega), hs, List.getElem?_set_ne (by omega)]
      · intro hr i hi
        cases i with
        | zero => rw [hout _ (by omega), hs, Nat.add_zero, List.getElem?_set_self hlt]; rfl
        | succ i =>
          have := hin hr i (by simpa using hi)
          rw [List.getElem?_cons_succ, ← this]
          congr 1
          omega

/-- Every sector of a run that was read through has come out. -/
theorem readRun_ok {count : Nat} {bytes : Bytes}
    (h : disk.readRun first count = (bytes, .ok ())) :
    bytes = ((disk.sectors.drop first).take count).flatten := by
  induction count generalizing first bytes with
  | zero =>
    cases h
    rfl
  | succ count ih =>
    unfold readRun at h
    split at h
    · cases h
    · rename_i head hr
      have hget : disk.sectors[first]? = some head := by
        unfold read at hr
        split at hr
        · cases hr
        · split at hr
          · cases hr
          · rename_i hs
            cases hr
            exact hs
      obtain ⟨hlt, hhead⟩ := List.getElem?_eq_some_iff.1 hget
      cases hrest : disk.readRun (first + 1) count with
      | mk rest result =>
        rw [hrest] at h
        cases h
        rw [List.drop_eq_getElem_cons hlt, List.take_succ_cons, List.flatten_cons, hhead, ih hrest]

end Disk

namespace Bytes

theorem flatten_slices (page : Bytes) (width count : Nat) :
    ((List.range count).map fun i => page.slice (i * width) width).flatten =
      page.take (count * width) := by
  induction count with
  | zero => simp
  | succ count ih =>
    rw [List.range_succ, List.map_append, List.flatten_append, ih, Nat.succ_mul, List.take_add]
    simp [slice]

end Bytes

namespace SwapTable

structure Sound (swap : SwapTable) : Prop where
  capacity_eq : swap.capacity = swap.disk.size / sectorsPerPage
  length_sector : ∀ bytes ∈ swap.disk.sectors, bytes.length = sectorSize

/-- The page whose sectors make up a slot. -/
def stored (swap : SwapTable) (slot : SwapSlot) : Bytes :=
  ((swap.disk.sectors.drop (firstSector slot)).take sectorsPerPage).flatten

variable {swap next : SwapTable} {slot : SwapSlot} {page frame : Bytes}

@[simp] theorem length_sectorsOf (page : Bytes) : (sectorsOf page).length = sectorsPerPage := by
  simp [sectorsOf]

theorem flatten_sectorsOf (h : page.length = pageSize) : (sectorsOf page).flatten = page := by
  rw [sectorsOf, Bytes.flatten_slices, sectorsPerPage_mul_sectorSize, ← h, List.take_length]

theorem length_mem_sectorsOf (h : page.length = pageSize) {bytes : Bytes}
    (hb : bytes ∈ sectorsOf page) : bytes.length = sectorSize := by
  obtain ⟨i, hi, rfl⟩ := List.mem_map.1 hb
  refine Bytes.length_slice_of_le ?_
  have hlt : i < sectorsPerPage := List.mem_range.1 hi
  have hle : (i + 1) * sectorSize ≤ sectorsPerPage * sectorSize := Nat.mul_le_mul_right _ hlt
  rw [sectorsPerPage_mul_sectorSize, Nat.succ_mul] at hle
  omega

theorem sound_ofDisk {disk : Disk} (h : ∀ bytes ∈ disk.sectors, bytes.length = sectorSize) :
    (ofDisk disk).Sound := ⟨rfl, h⟩

theorem isUsed_ofDisk (disk : Disk) (slot : SwapSlot) : (ofDisk disk).isUsed slot = false :=
  SlotBitmap.test_ofSlots _

theorem lt_of_isUsed (h : swap.isUsed slot = true) : slot < swap.capacity :=
  SlotBitmap.lt_of_test h

/-- A slot lies on the disk with all its sectors. -/
theorem Sound.firstSector_le (h : swap.Sound) (hs : slot < swap.capacity) :
    firstSector slot + sectorsPerPage ≤ swap.disk.sectors.length := by
  rw [h.capacity_eq] at hs
  have hle : (slot + 1) * sectorsPerPage ≤ swap.disk.size :=
    Nat.le_trans (Nat.mul_le_mul_right _ hs) (Nat.div_mul_le_self ..)
  rw [Nat.succ_mul] at hle
  exact hle

theorem Sound.length_stored (h : swap.Sound) (hs : slot < swap.capacity) :
    (swap.stored slot).length = pageSize := by
  have hle := h.firstSector_le hs
  have hall : ∀ bytes ∈ (swap.disk.sectors.drop (firstSector slot)).take sectorsPerPage,
      bytes.length = sectorSize := fun bytes hb =>
    h.length_sector bytes (List.mem_of_mem_drop (List.mem_of_mem_take hb))
  rw [stored, List.length_flatten, List.map_congr_left hall, List.map_const', List.sum_replicate_nat,
    List.length_take, List.length_drop, Nat.min_eq_left (by omega), sectorsPerPage_mul_sectorSize]

theorem stored_congr (hd : ∀ i, firstSector slot ≤ i → i < firstSector slot + sectorsPerPage →
    next.disk.sectors[i]? = swap.disk.sectors[i]?) : next.stored slot = swap.stored slot := by
  unfold stored
  congr 1
  refine List.ext_getElem? fun i => ?_
  rw [List.getElem?_take, List.getElem?_take, List.getElem?_drop, List.getElem?_drop]
  split
  · exact hd _ (by omega) (by omega)
  · rfl

theorem stored_of_disk_eq (hd : next.disk = swap.disk) : next.stored = swap.stored := by
  unfold stored
  rw [hd]

/-- The run of sectors written for one slot. -/
theorem writeRun_slot (h : swap.Sound) (hp : page.length = pageSize)
    (hs : slot < swap.capacity) {disk : Disk} {result : Except StoreError Unit}
    (hw : swap.disk.writeRun (firstSector slot) (sectorsOf page) = (disk, result))
    (bitmap : SlotBitmap) (hm : bitmap.slots = swap.capacity) :
    Sound ⟨disk, bitmap⟩ ∧
      (∀ other, other ≠ slot → stored ⟨disk, bitmap⟩ other = swap.stored other) ∧
      (result = .ok () → stored ⟨disk, bitmap⟩ slot = page) := by
  obtain ⟨hlen, hmem, hout, hin⟩ := Disk.writeRun_spec hw
  rw [length_sectorsOf] at hout hin
  have hle := h.firstSector_le hs
  refine ⟨⟨by rw [capacity, hm, h.capacity_eq, Disk.size, Disk.size, hlen], ?_⟩, ?_, ?_⟩
  · intro bytes hb
    rcases hmem bytes hb with hb | hb
    · exact h.length_sector bytes hb
    · exact length_mem_sectorsOf hp hb
  · intro other hne
    refine stored_congr fun i hlo hhi => hout i ?_
    have hlo' : other * sectorsPerPage ≤ i := hlo
    have hhi' : i < other * sectorsPerPage + sectorsPerPage := hhi
    have hdiv : i / sectorsPerPage = other :=
      Nat.div_eq_of_lt_le hlo' (by rw [Nat.succ_mul]; exact hhi')
    by_contra hcon
    have hslot : i / sectorsPerPage = slot := by
      refine Nat.div_eq_of_lt_le ?_ ?_
      · simp only [firstSector] at hcon
        omega
      · rw [Nat.succ_mul]
        simp only [firstSector] at hcon
        omega
    exact hne (hdiv.symm.trans hslot)
  · intro hr
    have hin := hin hr
    have hrun : (disk.sectors.drop (firstSector slot)).take sectorsPerPage = sectorsOf page := by
      refine List.ext_getElem? fun i => ?_
      rw [List.getElem?_take, List.getElem?_drop]
      split
      · rename_i hi
        exact hin i hi
      · rename_i hi
        rw [List.getElem?_eq_none (by rw [length_sectorsOf]; omega)]
    rw [stored, hrun, flatten_sectorsOf hp]

/-- Only the bitmap changes when a slot is claimed. -/
theorem allocate_eq_ok {r : Except PagerError SwapSlot} (h : allocate swap = .ok (r, next)) :
    (∃ n bitmap, r = .ok n ∧ swap.bitmap.allocate = some (n, bitmap) ∧
      next = ⟨swap.disk, bitmap⟩) ∨
      (r = .error .swapExhausted ∧ swap.bitmap.allocate = none ∧ next = swap) := by
  unfold allocate at h
  rw [Action.get_bind] at h
  cases hb : swap.bitmap.allocate with
  | none =>
    rw [hb] at h
    cases h
    exact .inr ⟨rfl, rfl, rfl⟩
  | some claimed =>
    rw [hb] at h
    cases h
    exact .inl ⟨_, _, rfl, rfl, rfl⟩

/-- The slot claimed was free, and it is all that changes in the set of slots in use. -/
theorem isUsed_claimed {n : SwapSlot} {bitmap : SlotBitmap}
    (h : swap.bitmap.allocate = some (n, bitmap)) :
    swap.isUsed n = false ∧ n < swap.capacity ∧
      ∀ disk, isUsed ⟨disk, bitmap⟩ = update swap.isUsed n true := by
  obtain ⟨hfree, -, hslots, -, htest⟩ := SlotBitmap.allocate_eq_some h
  have hclaimed : bitmap.test n = true := by rw [htest, if_pos rfl]
  have hlt := Nat.lt_of_lt_of_eq (SlotBitmap.lt_of_test hclaimed) hslots
  refine ⟨hfree, hlt, fun disk => funext fun other => ?_⟩
  rw [update_apply]
  exact htest other

/-- A slot is found if and only if there is one. -/
theorem isSome_allocate_iff : swap.bitmap.allocate.isSome = true ↔ swap.used < swap.capacity := by
  cases hb : swap.bitmap.allocate with
  | none =>
    have hfull : swap.used = swap.capacity :=
      SlotBitmap.used_eq_slots_iff.2 fun slot hslot => SlotBitmap.allocate_eq_none hb hslot
    simp [hfull]
  | some claimed =>
    obtain ⟨n, bitmap⟩ := claimed
    obtain ⟨-, -, hslots, hused, -⟩ := SlotBitmap.allocate_eq_some hb
    have hle := bitmap.used_le_slots
    rw [hslots, hused] at hle
    exact iff_of_true rfl hle

theorem writePage_eq_ok {r : Except StoreError Unit} (h : writePage slot page swap = .ok (r, next)) :
    page.length = pageSize ∧ next.bitmap = swap.bitmap ∧
      swap.disk.writeRun (firstSector slot) (sectorsOf page) = (next.disk, r) := by
  unfold writePage at h
  by_cases hp : page.length = pageSize
  · rw [if_neg (not_not.2 hp)] at h
    cases h
    exact ⟨hp, rfl, rfl⟩
  · rw [if_pos hp, Action.bug_bind] at h
    cases h

/-- How a page is moved out: the lowest free slot is claimed, the page is written to it, and the
slot is given back if that fails. -/
theorem swapOut_eq_ok {r : Except PagerError SwapSlot} (ho : swapOut page swap = .ok (r, next)) :
    (r = .error .swapExhausted ∧ swap.bitmap.allocate = none ∧ next = swap) ∨
      ∃ n bitmap disk q, swap.bitmap.allocate = some (n, bitmap) ∧ page.length = pageSize ∧
        swap.disk.writeRun (firstSector n) (sectorsOf page) = (disk, q) ∧
        (q = .ok () ∧ r = .ok n ∧ next = ⟨disk, bitmap⟩ ∨
          ∃ e, q = .error e ∧ r = .error (.store e) ∧ release ⟨disk, bitmap⟩ n = .ok next) := by
  unfold swapOut at ho
  rcases Action.bind_eq_ok.1 ho with ⟨n, claimed, ha, ho⟩ | ⟨e, ha, rfl⟩
  · obtain ⟨_, bitmap, hn, hb, rfl⟩ | ⟨hn, -⟩ := allocate_eq_ok ha
    · cases hn
      obtain ⟨q, written, hw, ho⟩ := Action.attempt_bind_eq_ok.1 ho
      obtain ⟨hp, hbitmap, hrun⟩ := writePage_eq_ok hw
      have hwritten : written = ⟨written.disk, bitmap⟩ := congrArg (SwapTable.mk written.disk) hbitmap
      refine .inr ⟨n, bitmap, written.disk, q, hb, hp, hrun, ?_⟩
      cases q with
      | ok _ =>
        cases ho
        exact .inl ⟨rfl, rfl, hwritten⟩
      | error e =>
        dsimp only at ho
        rw [Action.get_bind] at ho
        obtain ⟨released, hr, ho⟩ := Action.liftM_bind_eq_ok.1 ho
        cases ho
        exact .inr ⟨e, rfl, rfl, hwritten ▸ hr⟩
    · cases hn
  · obtain ⟨m, -, hm, -⟩ | ⟨hm, hb, rfl⟩ := allocate_eq_ok ha
    · cases hm
    · cases hm
      exact .inl ⟨rfl, hb, rfl⟩

/-- What goes wrong with moving a page out is that there is no slot, or it is the disk. -/
theorem swapOut_cases {r : Except PagerError SwapSlot} (h : swapOut page swap = .ok (r, next)) :
    (r = .error .swapExhausted ∧ next = swap ∧ ¬ swap.used < swap.capacity) ∨
      swap.used < swap.capacity ∧ ∀ e, r = .error e → ∃ e', e = .store e' := by
  obtain ⟨rfl, hb, rfl⟩ | ⟨n, bitmap, disk, q, hb, -, -, hcase⟩ := swapOut_eq_ok h
  · exact .inl ⟨rfl, rfl, by rw [← isSome_allocate_iff, hb]; exact Bool.false_ne_true⟩
  · refine .inr ⟨isSome_allocate_iff.1 (by rw [hb, Option.isSome_some]), fun e hr => ?_⟩
    obtain ⟨-, rfl, -⟩ | ⟨e', -, rfl, -⟩ := hcase
    · cases hr
    · cases hr
      exact ⟨e', rfl⟩

theorem release_spec (h : swap.Sound) (hr : swap.release slot = .ok next) :
    next.Sound ∧ swap.isUsed slot = true ∧ next.isUsed = update swap.isUsed slot false ∧
      next.disk = swap.disk := by
  obtain ⟨bitmap, hclear, rfl⟩ := release_eq_ok.1 hr
  obtain ⟨hslots, -, htest⟩ := SlotBitmap.clear_eq_some hclear
  refine ⟨⟨hslots.trans h.capacity_eq, h.length_sector⟩, ?_, funext fun other => ?_, rfl⟩
  · rw [isUsed, ← SlotBitmap.isSome_clear, hclear, Option.isSome_some]
  · rw [update_apply]
    exact htest other

/-- What happened to a page that was to be moved out. -/
theorem swapOut_spec (h : swap.Sound) {r : Except PagerError SwapSlot}
    (ho : swapOut page swap = .ok (r, next)) :
    next.Sound ∧ (∀ n, swap.isUsed n = true → next.stored n = swap.stored n) ∧
      ((∃ n, r = .ok n ∧ swap.isUsed n = false ∧ next.isUsed = update swap.isUsed n true ∧
        next.stored n = page) ∨ ∃ e, r = .error e ∧ next.isUsed = swap.isUsed) := by
  obtain ⟨rfl, -, rfl⟩ | ⟨n, bitmap, disk, q, hb, hp, hrun, hcase⟩ := swapOut_eq_ok ho
  · exact ⟨h, fun _ _ => rfl, .inr ⟨_, rfl, rfl⟩⟩
  · obtain ⟨hfree, hlt, hclaimed⟩ := isUsed_claimed hb
    obtain ⟨-, -, hslots, -⟩ := SlotBitmap.allocate_eq_some hb
    obtain ⟨hsound, hother, hsame⟩ := writeRun_slot h hp hlt hrun bitmap hslots
    have hstored : ∀ m, swap.isUsed m = true → stored ⟨disk, bitmap⟩ m = swap.stored m := by
      intro m hm
      refine hother m ?_
      rintro rfl
      rw [hfree] at hm
      cases hm
    obtain ⟨rfl, rfl, rfl⟩ | ⟨e, -, rfl, hr⟩ := hcase
    · exact ⟨hsound, hstored, .inl ⟨n, rfl, hfree, hclaimed disk, hsame rfl⟩⟩
    · obtain ⟨hsound, -, hreleased, hdisk⟩ := release_spec hsound hr
      refine ⟨hsound, fun m hm => ?_, .inr ⟨_, rfl, ?_⟩⟩
      · rw [stored_of_disk_eq hdisk, hstored m hm]
      · rw [hreleased, hclaimed disk, update_idem, update_eq_self_iff.2 hfree.symm]

/-- A page is read by one run over the sectors of its slot. -/
theorem readPage_eq_ok {bytes : Bytes} {result : Except StoreError Unit}
    (h : swap.readPage slot frame = .ok (bytes, result)) :
    frame.length = pageSize ∧ ∃ run, bytes = frame.overlay 0 run ∧
      swap.disk.readRun (firstSector slot) sectorsPerPage = (run, result) := by
  unfold readPage at h
  split at h
  · cases h
  · rename_i hlen
    cases hrun : swap.disk.readRun (firstSector slot) sectorsPerPage with
    | mk run q =>
      rw [hrun] at h
      cases h
      exact ⟨not_not.1 hlen, run, rfl, rfl⟩

/-- A page that was read in full is the one in the slot. -/
theorem readPage_spec (h : swap.Sound) {bytes : Bytes} {result : Except StoreError Unit}
    (hr : swap.readPage slot frame = .ok (bytes, result)) :
    bytes.length = pageSize ∧
      (result = .ok () → slot < swap.capacity → bytes = swap.stored slot) := by
  obtain ⟨hlen, run, rfl, hrun⟩ := readPage_eq_ok hr
  refine ⟨by rw [Bytes.length_overlay, hlen], fun hq hs => ?_⟩
  subst hq
  have hstored : run = swap.stored slot := Disk.readRun_ok hrun
  rw [hstored, Bytes.overlay_zero (by rw [h.length_stored hs, hlen])]

/-- How a page is read back: it is read, and the slot is given up if that went through. -/
theorem swapIn_eq_ok {ε : Type} {r : Except ε (Bytes × Except PagerError Unit)}
    (hi : swapIn slot frame swap = .ok (r, next)) :
    ∃ bytes q, swap.readPage slot frame = .ok (bytes, q) ∧
      ((∃ e, q = .error e ∧ r = .ok (bytes, .error (.store e)) ∧ next = swap) ∨
        q = .ok () ∧ r = .ok (bytes, .ok ()) ∧ swap.release slot = .ok next) := by
  unfold swapIn at hi
  rw [Action.get_bind] at hi
  obtain ⟨⟨bytes, q⟩, hread, hi⟩ := Action.liftM_bind_eq_ok.1 hi
  refine ⟨bytes, q, hread, ?_⟩
  cases q with
  | error e =>
    cases hi
    exact .inl ⟨e, rfl, rfl, rfl⟩
  | ok _ =>
    obtain ⟨released, hr, hi⟩ := Action.liftM_bind_eq_ok.1 hi
    cases hi
    exact .inr ⟨rfl, rfl, hr⟩

/-- What happened to a page that was to be read back. -/
theorem swapIn_spec {ε : Type} (h : swap.Sound) {r : Except ε (Bytes × Except PagerError Unit)}
    (hi : swapIn slot frame swap = .ok (r, next)) :
    ∃ bytes result, r = .ok (bytes, result) ∧ bytes.length = pageSize ∧
      ((∃ e, result = .error (.store e) ∧ next = swap) ∨
        (result = .ok () ∧ swap.release slot = .ok next ∧ bytes = swap.stored slot)) := by
  obtain ⟨bytes, q, hread, hcase⟩ := swapIn_eq_ok hi
  obtain ⟨hlen, hbytes⟩ := readPage_spec h hread
  obtain ⟨e, -, rfl, rfl⟩ | ⟨rfl, rfl, hr⟩ := hcase
  · exact ⟨_, _, rfl, hlen, .inl ⟨_, rfl, rfl⟩⟩
  · have hlt := lt_of_isUsed (release_spec h hr).2.1
    exact ⟨_, _, rfl, hlen, .inr ⟨rfl, hr, hbytes rfl hlt⟩⟩

variable {b : Bug}

theorem allocate_ne_bug : allocate swap ≠ .error b := by
  intro h
  unfold allocate at h
  rw [Action.get_bind] at h
  cases hb : swap.bitmap.allocate with
  | none =>
    rw [hb] at h
    cases h
  | some claimed =>
    rw [hb] at h
    cases h

theorem release_ne_bug (hu : swap.isUsed slot = true) : swap.release slot ≠ .error b := by
  intro h
  rw [isUsed, ← SlotBitmap.isSome_clear] at hu
  obtain ⟨bitmap, hb⟩ := Option.isSome_iff_exists.1 hu
  rw [release, hb] at h
  cases h

theorem writePage_ne_bug (hp : page.length = pageSize) : writePage slot page swap ≠ .error b := by
  unfold writePage
  rw [if_neg (not_not.2 hp)]
  intro h
  cases h

/-- A slot that was taken for a page is still claimed when the write has failed. -/
theorem swapOut_ne_bug (hp : page.length = pageSize) : swapOut page swap ≠ .error b := by
  intro h
  unfold swapOut at h
  rcases Action.bind_eq_bug.1 h with ha | ⟨n, claimed, ha, h⟩
  · exact allocate_ne_bug ha
  · obtain ⟨_, bitmap, hn, hb, rfl⟩ | ⟨hn, -⟩ := allocate_eq_ok ha
    · cases hn
      obtain ⟨-, -, hclaimed⟩ := isUsed_claimed hb
      rcases Action.attempt_bind_eq_bug.1 h with hw | ⟨q, written, hw, h⟩
      · exact writePage_ne_bug hp hw
      · obtain ⟨-, hbitmap, -⟩ := writePage_eq_ok hw
        cases q with
        | ok _ => cases h
        | error e =>
          dsimp only at h
          rw [Action.get_bind] at h
          have hused : written.isUsed n = true := by
            rw [isUsed, hbitmap]
            exact (congrFun (hclaimed swap.disk) n).trans (update_self ..)
          rcases Action.liftM_bind_eq_bug.1 h with hr | ⟨released, -, h⟩
          · exact release_ne_bug hused hr
          · cases h
    · cases hn

theorem readPage_ne_bug (hf : frame.length = pageSize) : swap.readPage slot frame ≠ .error b := by
  unfold readPage
  rw [if_neg (not_not.2 hf)]
  intro h
  cases h

theorem swapIn_ne_bug {ε : Type} (hu : swap.isUsed slot = true) (hf : frame.length = pageSize) :
    (swapIn slot frame : Action SwapTable ε _) swap ≠ .error b := by
  intro h
  unfold swapIn at h
  rw [Action.get_bind] at h
  rcases Action.liftM_bind_eq_bug.1 h with hread | ⟨⟨bytes, q⟩, -, h⟩
  · exact readPage_ne_bug hf hread
  · cases q with
    | error e => cases h
    | ok _ =>
      rcases Action.liftM_bind_eq_bug.1 h with hr | ⟨released, -, h⟩
      · exact release_ne_bug hu hr
      · cases h

end SwapTable

/-- The slots in use are exactly the recorded ones, and each is recorded at one place. -/
structure Parked {α : Type} (slots : α → Option SwapSlot) (used : SwapSlot → Bool) : Prop where
  used_iff : ∀ n, used n = true ↔ ∃ a, slots a = some n
  unique : ∀ {a b n}, slots a = some n → slots b = some n → a = b

namespace Parked

variable {α : Type} [DecidableEq α] {slots : α → Option SwapSlot} {used : SwapSlot → Bool}
  {a : α} {n : SwapSlot}

/-- A slot that no page records gets a page. -/
theorem park (h : Parked slots used) (ha : slots a = none) (hn : used n = false) :
    Parked (update slots a (some n)) (update used n true) where
  used_iff := by
    intro m
    by_cases he : m = n
    · subst he
      simp only [update_self, true_iff]
      exact ⟨a, update_self ..⟩
    · rw [update_of_ne he, h.used_iff]
      constructor
      · rintro ⟨b, hb⟩
        refine ⟨b, ?_⟩
        rw [update_of_ne, hb]
        rintro rfl
        rw [ha] at hb
        cases hb
      · rintro ⟨b, hb⟩
        rw [update_apply] at hb
        split at hb
        · cases hb
          exact absurd rfl he
        · exact ⟨b, hb⟩
  unique := by
    have free : ∀ b, slots b ≠ some n := by
      intro b hb
      rw [(h.used_iff n).2 ⟨b, hb⟩] at hn
      cases hn
    intro b c m hb hc
    rw [update_apply] at hb hc
    split at hb <;> split at hc
    · rename_i eb ec
      rw [eb, ec]
    · cases hb
      exact absurd hc (free c)
    · cases hc
      exact absurd hb (free b)
    · exact h.unique hb hc

/-- The page of a slot gives the slot up. -/
theorem unpark (h : Parked slots used) (ha : slots a = some n) :
    Parked (update slots a none) (update used n false) where
  used_iff := by
    intro m
    by_cases he : m = n
    · subst he
      simp only [update_self, Bool.false_eq_true, false_iff]
      rintro ⟨b, hb⟩
      rw [update_apply] at hb
      split at hb
      · cases hb
      · rename_i ne
        exact ne (h.unique hb ha)
    · rw [update_of_ne he, h.used_iff]
      constructor
      · rintro ⟨b, hb⟩
        refine ⟨b, ?_⟩
        rw [update_of_ne, hb]
        rintro rfl
        rw [ha] at hb
        cases hb
        exact he rfl
      · rintro ⟨b, hb⟩
        rw [update_apply] at hb
        split at hb
        · cases hb
        · exact ⟨b, hb⟩
  unique := by
    intro b c m hb hc
    rw [update_apply] at hb hc
    split at hb <;> split at hc
    · cases hb
    · cases hb
    · cases hc
    · exact h.unique hb hc

end Parked
end Pager
