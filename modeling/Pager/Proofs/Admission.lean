import Pager.Proofs.Endings
import Pager.Proofs.Reachability

/-!
Requests for a run of pages, decided exactly. A mapping and a segment are granted where
their arguments are well formed, the range is vacant and, for a mapping, the file can be
opened once more; the pages are then entered one by one, which no longer can fail. In all
other cases the request is turned down before anything was touched.
-/
namespace Pager

/-- A user range ends at or below the kernel's half. -/
theorem requireUserRange_eq_ok_iff {start : VirtualAddress} {length : Nat} :
    requireUserRange start length = .ok () ↔
      pageSize ≤ start.value ∧ start.value < kernelBase ∧ start.value + length ≤ kernelBase := by
  rw [← and_assoc, ← requireUser_eq_ok_iff]
  constructor
  · intro h
    have hend := requireUserRange_eq_ok h
    obtain ⟨_, huser, -⟩ := except_bind_eq_ok.1 h
    exact ⟨huser, hend⟩
  · rintro ⟨huser, hend⟩
    rw [requireUserRange, huser]
    exact if_pos hend

/-- The parts of a run that stays in the words and below the kernel's half, one for each page. -/
theorem pageRun_ok {start : VirtualAddress} {file : Handle} {offset readBytes count : Nat}
    {make : VirtualAddress → LoadSlice → Page}
    (hstart : start.value + count * pageSize ≤ kernelBase)
    (hoffset : offset + count * pageSize < 2 ^ 64) :
    pageRun start file offset readBytes count make = .ok ((List.range count).map fun k =>
      make ⟨start.value + k * pageSize⟩ (.part file offset readBytes k)) := by
  cases hrun : pageRun start file offset readBytes count make with
  | error b => exact absurd hrun (pageRun_ne_bug hstart hoffset)
  | ok pages =>
    congr 1
    refine eq_map_of_mapM hrun ?_
    intro k page hpage
    obtain ⟨slice, hslice, hpage⟩ := except_bind_eq_ok.1 hpage
    obtain ⟨first, hfirst, hslice⟩ := except_bind_eq_ok.1 hslice
    obtain ⟨a, ha, hpage⟩ := except_bind_eq_ok.1 hpage
    obtain ⟨-, rfl⟩ := wordAdd_eq_ok.1 hfirst
    obtain rfl := Address.eq_of_add ha
    cases hslice
    cases hpage
    rfl

namespace PageTable

variable {t table : PageTable} {start count : Nat} {page : Nat → Page}

/-- No page is registered among `count` pages from `start` on. -/
def Vacant (t : PageTable) (start count : Nat) : Prop :=
  ∀ key, start ≤ key → key < start + count * pageSize → t.pages.get? key = none

/-- The table has got `page k` as page `k` of a run from `start` on, and kept all others. -/
structure Extends (t : PageTable) (start count : Nat) (page : Nat → Page) (table : PageTable) :
    Prop where
  inside : ∀ k < count, table.pages.get? (start + k * pageSize) = some (page k)
  outside : ∀ key, (∀ k < count, key ≠ start + k * pageSize) →
    table.pages.get? key = t.pages.get? key

theorem vacant_iff : t.Vacant start count ↔
    ¬ ∃ key ∈ t.pages.keys, start ≤ key ∧ key < start + count * pageSize := by
  constructor
  · rintro h ⟨key, hkey, hlow, hhigh⟩
    exact (t.pages.get?_eq_none_iff.1 (h key hlow hhigh)) hkey
  · intro h key hlow hhigh
    apply t.pages.get?_eq_none_iff.2
    exact fun hkey => h ⟨key, hkey, hlow, hhigh⟩

theorem overlaps_ok {a : VirtualAddress} (haligned : a.isPageAligned = true)
    (hend : a.value + count * pageSize ≤ kernelBase) :
    ∃ taken, t.overlaps a count = .ok taken ∧ (taken = false ↔ t.Vacant a.value count) := by
  have hword : kernelBase < 2 ^ 64 := by decide
  have hbase := Address.pageBase_of_isPageAligned haligned
  have hfits : a.pageBase.value + count * pageSize < 2 ^ 64 := by
    rw [hbase]
    omega
  obtain ⟨taken, hrun, htaken⟩ := overlaps_eq_ok (t := t) hfits
  rw [hbase] at htaken
  refine ⟨taken, hrun, ?_⟩
  rw [vacant_iff, ← htaken, Bool.not_eq_true]

/-- Where the places of some pages are vacant and apart, the pages can be added. -/
theorem insertAll_ok {pages : List Page}
    (hvacant : ∀ p ∈ pages, t.pages.get? p.address.value = none)
    (hapart : pages.Pairwise fun p q => p.address.value ≠ q.address.value) :
    ∃ table, t.insertAll pages = .ok table := by
  induction pages generalizing t with
  | nil => exact ⟨t, rfl⟩
  | cons p rest ih =>
    obtain ⟨hfirst, hrest⟩ := List.pairwise_cons.1 hapart
    have hp := hvacant p (List.mem_cons_self ..)
    have hinsert : t.insert p = .ok ⟨t.pages.insert p.address.value p⟩ := by
      rw [insert, Table.contains, hp]
      rfl
    unfold insertAll
    rw [List.foldlM_cons, hinsert]
    refine ih (fun q hq => ?_) hrest
    rw [Table.get?_insert, if_neg (hfirst q hq).symm]
    exact hvacant q (List.mem_cons_of_mem _ hq)

/-- A vacant run takes a page for each of its places. -/
theorem insertAll_run (hvacant : t.Vacant start count)
    (hplaced : ∀ k, (page k).address.value = start + k * pageSize) :
    ∃ table, t.insertAll ((List.range count).map page) = .ok table ∧
      t.Extends start count page table := by
  have hspread : ∀ {j k : Nat}, start + j * pageSize = start + k * pageSize → j = k := by
    intro j k h
    unfold pageSize at h
    omega
  have hfree : ∀ p ∈ (List.range count).map page, t.pages.get? p.address.value = none := by
    intro p hp
    obtain ⟨k, hk, rfl⟩ := List.mem_map.1 hp
    have hlt := Nat.mul_lt_mul_of_pos_right (List.mem_range.1 hk) pageSize_pos
    rw [hplaced]
    exact hvacant _ (by omega) (by omega)
  have hapart : ((List.range count).map page).Pairwise fun p q =>
      p.address.value ≠ q.address.value := by
    rw [List.pairwise_map]
    refine List.nodup_range.imp fun hne => ?_
    rw [hplaced, hplaced]
    exact fun h => hne (hspread h)
  obtain ⟨table, htable⟩ := insertAll_ok hfree hapart
  have hget : ∀ {key p}, table.pages.get? key = some p ↔ t.pages.get? key = some p ∨
      p ∈ (List.range count).map page ∧ p.address.value = key := get?_insertAll htable
  refine ⟨table, htable, ⟨?_, ?_⟩⟩
  · intro k hk
    exact hget.2 (.inr ⟨List.mem_map.2 ⟨k, List.mem_range.2 hk, rfl⟩, hplaced k⟩)
  · intro key hkey
    apply Option.ext
    intro p
    rw [hget]
    refine or_iff_left ?_
    rintro ⟨hp, rfl⟩
    obtain ⟨k, hk, rfl⟩ := List.mem_map.1 hp
    exact hkey k (List.mem_range.1 hk) (hplaced k)

end PageTable

namespace Machine

variable {s t : Machine} {id : SpaceId} {sp : Space} {start : VirtualAddress} {file : Handle}
  {length offset readBytes zeroBytes : Nat} {writable : Bool}

/-- What a mapping asks of its arguments, of the space and of the file. -/
structure Mappable (s : Machine) (sp : Space) (start : VirtualAddress) (length : Nat)
    (file : Handle) (offset : Nat) : Prop where
  nonnull : start.value ≠ 0
  aligned : start.value % pageSize = 0
  user : start.value < kernelBase
  cut : offset % pageSize = 0
  nonempty : 0 < length
  filled : 0 < s.files.size file
  ends : start.value + length ≤ kernelBase
  fits : offset + pagesFor length * pageSize < 2 ^ 64
  vacant : sp.pages.Vacant start.value (pagesFor length)
  opens : ∃ content, s.files.file? file = some content ∧ content.failReopen = false

/-- What a segment asks of its arguments and of the space. -/
structure Loadable (sp : Space) (start : VirtualAddress) (offset readBytes zeroBytes : Nat) :
    Prop where
  aligned : start.value % pageSize = 0
  cut : offset % pageSize = 0
  total : readBytes + zeroBytes < 2 ^ 64
  nonempty : 0 < readBytes + zeroBytes
  whole : (readBytes + zeroBytes) % pageSize = 0
  user : pageSize ≤ start.value
  ends : start.value + (readBytes + zeroBytes) ≤ kernelBase
  fits : offset + (readBytes + zeroBytes) < 2 ^ 64
  vacant : sp.pages.Vacant start.value ((readBytes + zeroBytes) / pageSize)

/-- What is left when a mapping was made: a page for each page of the range, which nothing was
read into yet, the mapping's record, its number and its handle. -/
def Mapped (s : Machine) (id : SpaceId) (sp : Space) (start : VirtualAddress) (length : Nat)
    (writable : Bool) (file : Handle) (offset : Nat) (t : Machine) : Prop :=
  ∃ table, sp.pages.Extends start.value (pagesFor length) (fun k =>
      .mapped ⟨start.value + k * pageSize⟩ writable
        (.part (s.files.opening file) offset (min length (s.files.size file - offset)) k)
        sp.nextMapping) table ∧
    t = { s with
      files := { s.files with nextSerial := s.files.nextSerial + 1 }
      spaces := s.spaces.insert id { sp with
        pages := table
        nextMapping := sp.nextMapping + 1
        mappings := sp.mappings.insert start.value
          ⟨sp.nextMapping, pagesFor length, s.files.opening file⟩ }
      events := .mapped id length (pagesFor length) start sp.nextMapping :: s.events }

/-- What is left when a segment was registered: a page for each page of the range, which nothing
was read into yet. -/
def Loaded (s : Machine) (id : SpaceId) (sp : Space) (start : VirtualAddress) (file : Handle)
    (offset readBytes zeroBytes : Nat) (writable : Bool) (t : Machine) : Prop :=
  ∃ table, sp.pages.Extends start.value ((readBytes + zeroBytes) / pageSize) (fun k =>
      .fresh ⟨start.value + k * pageSize⟩ writable .anonymous (some .fileSlice)
        (.part file offset readBytes k)) table ∧
    t = { s with spaces := s.spaces.insert id { sp with pages := table } }

theorem pagesFor_le_kernelBase (haligned : start.value % pageSize = 0)
    (hend : start.value + length ≤ kernelBase) :
    start.value + pagesFor length * pageSize ≤ kernelBase :=
  pages_le_kernelBase (Address.isPageAligned_iff.2 haligned) hend

/-- A page of a run from a page boundary on starts at a boundary. -/
theorem pageBase_run (haligned : start.value % pageSize = 0) (k : Nat) :
    (⟨start.value + k * pageSize⟩ : VirtualAddress).pageBase = ⟨start.value + k * pageSize⟩ := by
  apply Address.pageBase_of_isPageAligned
  apply Address.isPageAligned_iff.2
  rw [Nat.add_mul_mod_self_right]
  exact haligned

/-- The pages of a vacant run can be entered. -/
theorem insertPages_run (start : VirtualAddress) (page : Nat → Page) {count : Nat}
    (hs : s.spaces.get? id = some sp)
    (hvacant : sp.pages.Vacant start.value count)
    (hplaced : ∀ k, (page k).address.value = start.value + k * pageSize) :
    ∃ table, sp.pages.Extends start.value count page table ∧
      insertPages id ((List.range count).map page) s =
        .ok (.ok (), { s with spaces := s.spaces.insert id { sp with pages := table } }) := by
  obtain ⟨table, htable, hextends⟩ := PageTable.insertAll_run hvacant hplaced
  refine ⟨table, hextends, ?_⟩
  unfold insertPages
  rw [space_bind hs, htable]
  show modifySpace id _ s = _
  rw [modifySpace_apply, Table.modify_eq_insert hs]

/-- A segment that asks too much is turned down before anything is touched. -/
theorem registerSegment_refuses (file : Handle) (writable : Bool) (hs : s.spaces.get? id = some sp)
    (h : ¬ Loadable sp start offset readBytes zeroBytes) :
    ∃ e, registerSegment id file offset start readBytes zeroBytes writable s =
      .ok (.error e, s) := by
  unfold registerSegment
  by_cases haligned : (!start.isPageAligned) = true ∨ offset % pageSize ≠ 0
  · rw [if_pos haligned]
    exact ⟨_, rfl⟩
  rw [if_neg haligned]
  dsimp only
  by_cases htotal : 1 <<< 64 ≤ readBytes + zeroBytes ∨ readBytes + zeroBytes = 0 ∨
      (readBytes + zeroBytes) % pageSize ≠ 0
  · rw [if_pos htotal]
    exact ⟨_, rfl⟩
  rw [if_neg htotal]
  cases hrange : requireUserRange start (readBytes + zeroBytes) with
  | error e => exact ⟨e, rfl⟩
  | ok _ =>
    obtain ⟨huser, -, hend⟩ := requireUserRange_eq_ok_iff.1 hrange
    rw [Action.bind_of_ok (Action.ofResult_apply _)]
    by_cases hoffset : 1 <<< 64 ≤ offset + (readBytes + zeroBytes)
    · rw [if_pos hoffset]
      exact ⟨_, rfl⟩
    rw [if_neg hoffset]
    rw [not_or] at haligned
    rw [not_or, not_or] at htotal
    have hstart : start.isPageAligned = true := by simpa using haligned.1
    have hwhole : (readBytes + zeroBytes) / pageSize * pageSize = readBytes + zeroBytes :=
      Nat.div_mul_cancel (Nat.dvd_of_mod_eq_zero (not_not.1 htotal.2.2))
    obtain ⟨taken, hoverlaps, hvacant⟩ := PageTable.overlaps_ok (t := sp.pages) hstart
      (hwhole.symm ▸ hend)
    rw [space_bind hs, hoverlaps]
    cases taken with
    | true => exact ⟨_, rfl⟩
    | false =>
      exact absurd ⟨Address.isPageAligned_iff.1 hstart, not_not.1 haligned.2, by omega, by omega,
        not_not.1 htotal.2.2, huser, hend, by omega, hvacant.1 rfl⟩ h

/-- A segment that asks for what there is gets it. -/
theorem registerSegment_grants (file : Handle) (writable : Bool) (hs : s.spaces.get? id = some sp)
    (h : Loadable sp start offset readBytes zeroBytes) :
    ∃ t, registerSegment id file offset start readBytes zeroBytes writable s = .ok (.ok (), t) ∧
      Loaded s id sp start file offset readBytes zeroBytes writable t := by
  have hstart := Address.isPageAligned_iff.2 h.aligned
  have hwhole : (readBytes + zeroBytes) / pageSize * pageSize = readBytes + zeroBytes :=
    Nat.div_mul_cancel (Nat.dvd_of_mod_eq_zero h.whole)
  have hend : start.value + (readBytes + zeroBytes) / pageSize * pageSize ≤ kernelBase := by
    rw [hwhole]
    exact h.ends
  have hrange : requireUserRange start (readBytes + zeroBytes) = .ok () := by
    apply requireUserRange_eq_ok_iff.2
    have := h.nonempty
    have := h.ends
    exact ⟨h.user, by omega, h.ends⟩
  have htotal := h.total
  have hnonempty := h.nonempty
  have hfits := h.fits
  obtain ⟨taken, hoverlaps, hvacant⟩ := PageTable.overlaps_ok (t := sp.pages) hstart hend
  obtain rfl := hvacant.2 h.vacant
  obtain ⟨table, hextends, hinsert⟩ := insertPages_run start (fun k =>
    .fresh ⟨start.value + k * pageSize⟩ writable .anonymous (some .fileSlice)
      (.part file offset readBytes k)) hs h.vacant fun k =>
    congrArg Address.value (pageBase_run h.aligned k)
  refine ⟨_, ?_, table, hextends, rfl⟩
  unfold registerSegment
  rw [if_neg (by simp [hstart, h.cut])]
  dsimp only
  rw [if_neg (by simp only [h.whole]; omega), hrange,
    Action.bind_of_ok (Action.ofResult_apply _), if_neg (by omega), space_bind hs]
  apply Action.liftM_bind_eq_ok.2
  refine ⟨false, hoverlaps, ?_⟩
  apply Action.liftM_bind_eq_ok.2
  exact ⟨_, pageRun_ok hend (by rw [hwhole]; exact h.fits), hinsert⟩

/-- Arguments that are sensible are all that a mapping needs, on a vacant range of a space and
with a file that opens. -/
theorem mappable_iff : Mappable s sp start length file offset ↔
    s.Sensible start length file offset ∧ sp.pages.Vacant start.value (pagesFor length) ∧
      ∃ content, s.files.file? file = some content ∧ content.failReopen = false := by
  constructor
  · intro h
    have hrange : requireUserRange start length = .ok () := by
      apply requireUserRange_eq_ok_iff.2
      have := h.nonnull
      have := h.aligned
      refine ⟨?_, h.user, h.ends⟩
      unfold pageSize at *
      omega
    exact ⟨⟨by simpa [Address.isNull] using h.nonnull, Address.isPageAligned_iff.2 h.aligned, h.cut,
      Nat.pos_iff_ne_zero.1 h.nonempty,
      by simpa [FileStore.isEmpty] using Nat.pos_iff_ne_zero.1 h.filled, hrange, h.fits⟩,
      h.vacant, h.opens⟩
  · rintro ⟨h, hvacant, hopens⟩
    obtain ⟨-, huser, hend⟩ := requireUserRange_eq_ok_iff.1 h.range
    have hfilled : s.files.size file ≠ 0 := by simpa [FileStore.isEmpty] using h.filled
    exact ⟨by simpa [Address.isNull] using h.nonnull, Address.isPageAligned_iff.1 h.aligned, huser,
      h.cut, Nat.pos_of_ne_zero h.nonempty, Nat.pos_of_ne_zero hfilled, hend, h.fits, hvacant, hopens⟩

/-- A mapping that asks too much is turned down before anything is touched. -/
theorem mmap_refuses (writable : Bool) (hs : s.spaces.get? id = some sp)
    (h : ¬ Mappable s sp start length file offset) :
    ∃ e, mmap id start length writable file offset s = .ok (.error e, s) := by
  rcases mmap_checks s id start length writable file offset with ⟨-, hrun⟩ | ⟨hsensible, hrun⟩
  · exact hrun
  obtain ⟨taken, hoverlaps, hvacant⟩ := PageTable.overlaps_ok (t := sp.pages) hsensible.aligned
    (pages_le_kernelBase hsensible.aligned hsensible.ends)
  rw [hrun]
  unfold openMapping
  rw [space_bind hs]
  cases taken with
  | true =>
    refine ⟨.overlap, ?_⟩
    apply Action.liftM_bind_eq_ok.2
    exact ⟨true, hoverlaps, rfl⟩
  | false =>
    -- everything else holds, so it is the file that cannot be opened
    have hreopen : FileStore.reopen file s.files = .ok (.error .device, s.files) := by
      rw [FileStore.reopen_eq]
      cases hcontent : s.files.file? file with
      | none => rfl
      | some content =>
        dsimp only
        rw [if_pos]
        by_contra hopens
        exact h (mappable_iff.2 ⟨hsensible, hvacant.1 rfl, content, hcontent, by simpa using hopens⟩)
    refine ⟨.store .device, ?_⟩
    apply Action.liftM_bind_eq_ok.2
    refine ⟨false, hoverlaps, ?_⟩
    rw [if_neg (by decide)]
    apply Action.bind_eq_ok.2
    refine .inr ⟨_, ?_, rfl⟩
    apply Action.within_eq_ok.2
    exact ⟨s.files, Action.mapError_eq_ok.2 ⟨_, hreopen, rfl⟩, rfl⟩

/-- A mapping that asks for what there is passes all the checks and opens its handle. -/
theorem mmap_of_mappable (hs : s.spaces.get? id = some sp)
    (h : Mappable s sp start length file offset) :
    mmap id start length writable file offset s =
      enterMapping id start length writable (s.files.opening file) offset s.reopened := by
  obtain ⟨hsensible, hvacant, content, hcontent, hopens⟩ := mappable_iff.1 h
  rcases mmap_checks s id start length writable file offset with ⟨hnot, -⟩ | ⟨-, hrun⟩
  · exact absurd hsensible hnot
  obtain ⟨taken, hoverlaps, htaken⟩ := PageTable.overlaps_ok (t := sp.pages) hsensible.aligned
    (pagesFor_le_kernelBase h.aligned h.ends)
  obtain rfl := htaken.2 hvacant
  have hreopen : FileStore.reopen file s.files =
      .ok (.ok (s.files.opening file), { s.files with nextSerial := s.files.nextSerial + 1 }) := by
    rw [FileStore.reopen_eq, hcontent]
    dsimp only
    rw [hopens]
    rfl
  rw [hrun]
  unfold openMapping
  rw [space_bind hs, hoverlaps, Action.bind_of_ok (a := false) (u := s) rfl, if_neg (by decide)]
  exact Action.bind_of_ok
    (Action.within_eq_ok.2 ⟨_, Action.mapError_eq_ok.2 ⟨_, hreopen, rfl⟩, rfl⟩)

/-- A mapping that asks for what there is gets it, as long as there are numbers for mappings. -/
theorem mmap_grants (writable : Bool) (hs : s.spaces.get? id = some sp)
    (h : Mappable s sp start length file offset) (hnext : sp.nextMapping + 1 < 2 ^ 64) :
    ∃ t, mmap id start length writable file offset s = .ok (.ok start, t) ∧
      Mapped s id sp start length writable file offset t := by
  let u : Machine := { s.reopened with
    spaces := s.spaces.insert id { sp with nextMapping := sp.nextMapping + 1 } }
  obtain ⟨table, hextends, hinsert⟩ := insertPages_run (s := u) start
    (fun k => .mapped ⟨start.value + k * pageSize⟩ writable
      (.part (s.files.opening file) offset (min length (s.files.size file - offset)) k)
      sp.nextMapping) (Table.get?_insert_self ..) h.vacant fun k =>
    congrArg Address.value (pageBase_run h.aligned k)
  refine ⟨_, ?_, table, hextends, rfl⟩
  have hspace : (s.reopened).spaces.get? id = some sp := hs
  rw [mmap_of_mappable hs h]
  unfold enterMapping
  rw [space_bind hspace]
  apply Action.liftM_bind_eq_ok.2
  refine ⟨_, wordAdd_eq_ok.2 ⟨hnext, rfl⟩, ?_⟩
  rw [modifySpace_bind, Action.get_bind, Table.modify_eq_insert hspace]
  apply Action.liftM_bind_eq_ok.2
  refine ⟨_, pageRun_ok (pagesFor_le_kernelBase h.aligned h.ends) h.fits, ?_⟩
  refine (Action.bind_of_ok hinsert).trans ?_
  rw [modifySpace_bind, report_bind, Table.modify_insert]
  simp only [u, Table.insert_insert]
  rfl

/-- The one thing that stops a mapping half-way: there is no number left for it. -/
theorem mmap_exhausted (writable : Bool) (hs : s.spaces.get? id = some sp)
    (h : Mappable s sp start length file offset) (hnext : 2 ^ 64 ≤ sp.nextMapping + 1) :
    mmap id start length writable file offset s = .error (.overflow .add) := by
  have hword : wordAdd sp.nextMapping 1 = .error (.overflow .add) := if_neg (Nat.not_lt.2 hnext)
  have hspace : (s.reopened).spaces.get? id = some sp := hs
  rw [mmap_of_mappable hs h]
  unfold enterMapping
  rw [space_bind hspace]
  apply Action.liftM_bind_eq_bug.2
  exact .inl hword

/-- What is asked of a space that nobody else works on is carried out. -/
theorem step_onSpace (hs : s.spaces.get? id = some sp) (hidle : sp.busy = false) {address : Nat}
    (hadmits : AddressKind.virtual.Admits address) (op : SpaceOp) :
    step (.onSpace id address op) s = perform id ⟨address⟩ op s := by
  have hcheck : requireIdle id s = .ok (.ok (), s) := by
    unfold requireIdle
    rw [Action.get_bind, hs]
    dsimp only
    rw [hidle]
    rfl
  have hmake : Address.make .virtual address = .ok ⟨address⟩ :=
    Address.make_eq_ok.2 ⟨hadmits, rfl⟩
  refine (Action.bind_of_ok hcheck).trans ?_
  rw [hmake]
  rfl

/-- What is asked with a handle that its caller holds is carried out. -/
theorem requireHeld_bind (hheld : file ∈ s.files.held) {α : Type} (f : Unit → StepAct α) :
    (requireHeld file >>= f) s = f () s := by
  have hcheck : requireHeld file s = .ok (.ok (), s) := by
    unfold requireHeld
    rw [Action.get_bind, if_neg (by simpa using hheld)]
    rfl
  exact Action.bind_of_ok hcheck

/-- A request is decided: where `asks` holds it is granted, with `value` and what `granted` tells,
and everywhere else it is turned down and leaves no trace. -/
structure Decides (asks : Prop) (value : Value) (granted : Machine → Prop) (s : Machine)
    (r : Except Failure Value) (t : Machine) : Prop where
  granted_iff : (∃ v, r = .ok v) ↔ asks
  grants : asks → r = .ok value ∧ granted t
  refuses : ¬ asks → t = s

theorem Decides.of_granted {asks : Prop} {value : Value} {granted : Machine → Prop} (h : asks)
    (ht : granted t) : Decides asks value granted s (.ok value) t :=
  ⟨iff_of_true ⟨_, rfl⟩ h, fun _ => ⟨rfl, ht⟩, fun hnot => absurd h hnot⟩

theorem Decides.of_refused {asks : Prop} {value : Value} {granted : Machine → Prop} (h : ¬ asks)
    (e : Failure) : Decides asks value granted s (.error e) s := by
  refine ⟨iff_of_false ?_ h, fun hasks => absurd hasks h, fun _ => rfl⟩
  rintro ⟨v, hv⟩
  cases hv

/-- Mappings and segments are granted exactly where they are well formed, the range is vacant and
the file can be opened, and are all or nothing. Only where a space has no number left for a
mapping is there no answer. -/
theorem runs_decided (address length offset readBytes zeroBytes : Nat) (writable : Bool)
    (hs : s.spaces.get? id = some sp) (hidle : sp.busy = false)
    (hadmits : AddressKind.virtual.Admits address) (hheld : file ∈ s.files.held) :
    ((∃ r t, step (.onSpace id address (.mmap length writable file offset)) s = .ok (r, t) ∧
        Decides (Mappable s sp ⟨address⟩ length file offset) (.address ⟨address⟩)
          (Mapped s id sp ⟨address⟩ length writable file offset) s r t) ∨
      Mappable s sp ⟨address⟩ length file offset ∧ 2 ^ 64 ≤ sp.nextMapping + 1 ∧
        step (.onSpace id address (.mmap length writable file offset)) s =
          .error (.overflow .add)) ∧
    ∃ r t, step (.onSpace id address
        (.registerSegment file offset readBytes zeroBytes writable)) s = .ok (r, t) ∧
      Decides (Loadable sp ⟨address⟩ offset readBytes zeroBytes) .unit
        (Loaded s id sp ⟨address⟩ file offset readBytes zeroBytes writable) s r t := by
  rw [step_onSpace hs hidle hadmits, step_onSpace hs hidle hadmits]
  simp only [perform, requireHeld_bind hheld]
  constructor
  · by_cases hasks : Mappable s sp ⟨address⟩ length file offset
    · by_cases hnext : sp.nextMapping + 1 < 2 ^ 64
      · obtain ⟨t, hrun, hmapped⟩ := mmap_grants writable hs hasks hnext
        exact .inl ⟨_, t, liftPager_eq_ok.2 ⟨_, hrun, rfl⟩, .of_granted hasks hmapped⟩
      · have hlast := Nat.le_of_not_lt hnext
        have hrun := mmap_exhausted writable hs hasks hlast
        refine .inr ⟨hasks, hlast, ?_⟩
        apply Action.bind_eq_bug.2
        exact .inl (Action.mapError_eq_bug.2 hrun)
    · obtain ⟨e, hrun⟩ := mmap_refuses writable hs hasks
      exact .inl ⟨_, s, liftPager_eq_ok.2 ⟨_, hrun, rfl⟩, .of_refused hasks (.pager e)⟩
  · by_cases hasks : Loadable sp ⟨address⟩ offset readBytes zeroBytes
    · obtain ⟨t, hrun, hloaded⟩ :=
        registerSegment_grants file writable hs hasks
      exact ⟨_, t, liftPager_bind_eq_ok.2 (.inl ⟨_, _, hrun, rfl⟩), .of_granted hasks hloaded⟩
    · obtain ⟨e, hrun⟩ := registerSegment_refuses file writable hs hasks
      exact ⟨_, s, liftPager_bind_eq_ok.2 (.inr ⟨_, hrun, rfl⟩), .of_refused hasks (.pager e)⟩

/-- Five bytes of a file fit on the last two pages below the kernel's half. A byte more than two
pages there is refused, and so is a segment that starts in the null page. -/
theorem runs_decided_of_last_pages : ∃ s sp, Reachable s ∧ s.spaces.get? 1 = some sp ∧
    (∃ t, step (.onSpace 1 0x8003ffe000 (.mmap 4097 true (FileStore.firstHandle 0) 0)) s =
        .ok (.ok (.address ⟨0x8003ffe000⟩), t) ∧
      Mapped s 1 sp ⟨0x8003ffe000⟩ 4097 true (FileStore.firstHandle 0) 0 t) ∧
    (∃ e, step (.onSpace 1 0x8003ffe000 (.mmap 8193 true (FileStore.firstHandle 0) 0)) s =
      .ok (.error e, s)) ∧
    ∃ e, step (.onSpace 1 0 (.registerSegment (FileStore.firstHandle 0) 0 5 4091 true)) s =
      .ok (.error e, s) := by
  have hend : (boot 1 8 [[1, 2, 3, 4, 5]] >>= fun start => run [.createSpace] start >>= fun last =>
      .ok ((last.2.spaces.get? 1).map (fun sp => (sp.busy, sp.nextMapping, sp.pages.pages.keys)),
        last.2.files.held, last.2.files.size (FileStore.firstHandle 0),
        (last.2.files.file? (FileStore.firstHandle 0)).map File.failReopen)) =
      .ok (some (false, 1, []), [FileStore.firstHandle 0], 5, some false) := by decide +kernel
  obtain ⟨start, hboot, hend⟩ := except_bind_eq_ok.1 hend
  obtain ⟨⟨results, s⟩, hrun, hend⟩ := except_bind_eq_ok.1 hend
  obtain ⟨hspace, hrest⟩ := Prod.mk.inj (Except.ok.inj hend)
  obtain ⟨hheld, hrest⟩ := Prod.mk.inj hrest
  obtain ⟨hsize, hopens⟩ := Prod.mk.inj hrest
  obtain ⟨sp, hs, hspace⟩ := Option.map_eq_some_iff.1 hspace
  obtain ⟨hidle, hrest⟩ := Prod.mk.inj hspace
  obtain ⟨hnext, hkeys⟩ := Prod.mk.inj hrest
  obtain ⟨content, hcontent, hopens⟩ := Option.map_eq_some_iff.1 hopens
  have hmem : FileStore.firstHandle 0 ∈ s.files.held := by
    dsimp only at hheld
    rw [hheld]
    exact List.mem_singleton_self _
  have hvacant : ∀ start count, sp.pages.Vacant start count := by
    intro start count key _ _
    rw [Table.get?_eq_none_iff, hkeys]
    exact List.not_mem_nil
  have hadmits : AddressKind.virtual.Admits 0x8003ffe000 := by decide
  obtain ⟨hfirst, -⟩ := runs_decided 0x8003ffe000 4097 0 0 0 true hs hidle hadmits hmem
  obtain ⟨hsecond, -⟩ := runs_decided 0x8003ffe000 8193 0 0 0 true hs hidle hadmits hmem
  obtain ⟨-, r, t, hthird, hdecides⟩ := runs_decided 0 0 0 5 4091 true hs hidle (by decide) hmem
  have hmappable : Mappable s sp ⟨0x8003ffe000⟩ 4097 (FileStore.firstHandle 0) 0 :=
    ⟨by decide, by decide, by decide, by decide, by decide, hsize ▸ (by decide), by decide,
      by decide, hvacant _ _, content, hcontent, hopens⟩
  refine ⟨s, sp, ⟨1, 8, _, _, start, results, hboot, hrun⟩, hs, ?_, ?_, ?_⟩
  · rcases hfirst with ⟨r, t, hstep, hdecides⟩ | ⟨-, hlast, -⟩
    · obtain ⟨rfl, hmapped⟩ := hdecides.grants hmappable
      exact ⟨t, hstep, hmapped⟩
    · rw [hnext] at hlast
      exact absurd hlast (by decide)
  · have hnot : ¬ Mappable s sp ⟨0x8003ffe000⟩ 8193 (FileStore.firstHandle 0) 0 := fun h =>
      absurd h.ends (by decide)
    rcases hsecond with ⟨r, t, hstep, hdecides⟩ | ⟨hasks, -⟩
    · obtain rfl := hdecides.refuses hnot
      cases r with
      | ok v => exact absurd (hdecides.granted_iff.1 ⟨v, rfl⟩) hnot
      | error e => exact ⟨e, hstep⟩
    · exact absurd hasks hnot
  · have hnot : ¬ Loadable sp ⟨0⟩ 0 5 4091 := fun h => absurd h.user (by decide)
    obtain rfl := hdecides.refuses hnot
    cases r with
    | ok v => exact absurd (hdecides.granted_iff.1 ⟨v, rfl⟩) hnot
    | error e => exact ⟨e, hthird⟩

end Machine
end Pager
