import Pager.Machine.Segment
import Pager.Proofs.Steps
import Pager.Proofs.Validity

/-!
Adding pages to a space and taking them away. A run of pages is added as a whole
or not at all, one `register` move a page; a page that is taken away gives up
its frame first, then its slot.
-/
namespace Pager

/-- A page that can be registered: it lies at a page boundary and holds nothing yet. -/
structure Page.Enters (p : Page) : Prop where
  aligned : p.address.value % pageSize = 0
  absent : p.frame = none
  slotless : p.slot = none
  typed : p.mapping.isSome = true → p.type = .fileBacked

/-- A page that was never populated and belongs to no mapping. -/
structure Page.IsNew (p : Page) : Prop extends p.Enters where
  unpopulated : p.isInitialized = false
  unmapped : p.mapping = none

/-- A page of a file refers to one of the handles told. -/
def Page.Borrows (held : List Handle) (p : Page) : Prop :=
  p.type = .fileBacked → ∃ handle ∈ held, p.handle = some handle

theorem Page.Borrows.of_anonymous {held : List Handle} {p : Page} (h : p.type = .anonymous) :
    p.Borrows held := by
  intro hp
  rw [h] at hp
  cases hp

/-- A page that the stack grew by lies in the stack's region. -/
def Page.Stands (p : Page) : Prop :=
  p.stack = true → userStackTop - maxStackSize ≤ p.address.value ∧
    p.address.value + pageSize ≤ userStackTop

theorem Page.Stands.of_unstacked {p : Page} (h : p.stack = false) : p.Stands := fun hstack => by
  rw [h] at hstack
  cases hstack

/-- User pages start above the null page and lie below the kernel's half. -/
theorem requireUser_cases (a : VirtualAddress) :
    requireUser a = .ok () ∧ pageSize ≤ a.value ∧ a.value < kernelBase ∨
      requireUser a = .error .nullAddress ∧ a.value < pageSize ∨
        requireUser a = .error .kernelAddress ∧ kernelBase ≤ a.value := by
  have hnull : a.pageBase.isNull = true ↔ a.value < pageSize := by
    rw [Address.isNull, beq_iff_eq, Address.pageBase_value]
    unfold pageSize
    omega
  have hkernel : a.isKernel = true ↔ kernelBase ≤ a.value := by
    rw [Address.isKernel, decide_eq_true_iff]
  unfold requireUser
  by_cases hpage : a.pageBase.isNull = true
  · rw [if_pos hpage]
    exact .inr (.inl ⟨rfl, hnull.1 hpage⟩)
  · rw [if_neg hpage]
    rw [hnull] at hpage
    by_cases hhigh : a.isKernel = true
    · rw [if_pos hhigh]
      exact .inr (.inr ⟨rfl, hkernel.1 hhigh⟩)
    · rw [if_neg hhigh]
      rw [hkernel] at hhigh
      exact .inl ⟨rfl, by omega, by omega⟩

theorem requireUser_eq_ok_iff {a : VirtualAddress} :
    requireUser a = .ok () ↔ pageSize ≤ a.value ∧ a.value < kernelBase := by
  rcases requireUser_cases a with ⟨huser, hlies⟩ | ⟨hnull, hlow⟩ | ⟨hkernel, hhigh⟩
  · exact iff_of_true huser hlies
  · rw [hnull]
    exact iff_of_false nofun (by omega)
  · rw [hkernel]
    exact iff_of_false nofun (by omega)

theorem Page.isNew_fresh (a : VirtualAddress) (writable : Bool) (target : PageType)
    (init : Option Initializer) (slice : LoadSlice) :
    (Page.fresh a writable target init slice).IsNew where
  aligned := Place.aligned_of 0 a
  absent := rfl
  slotless := rfl
  typed := by
    intro h
    cases h
  unpopulated := rfl
  unmapped := rfl

theorem Page.isNew_ofStack (a : VirtualAddress) : (Page.ofStack a).IsNew where
  aligned := Place.aligned_of 0 a
  absent := rfl
  slotless := rfl
  typed := by
    intro h
    cases h
  unpopulated := rfl
  unmapped := rfl

theorem Page.enters_mapped (a : VirtualAddress) (writable : Bool) (slice : LoadSlice)
    (mapping : MappingId) : (Page.mapped a writable slice mapping).Enters :=
  ⟨Place.aligned_of 0 a, rfl, rfl, fun _ => rfl⟩

/-- What a run of pages reads on page `k`. -/
def LoadSlice.part (file : Handle) (offset readBytes k : Nat) : LoadSlice where
  file := some file
  offset := offset + k * pageSize
  readBytes := min (readBytes - k * pageSize) pageSize
  zeroBytes := pageSize - min (readBytes - k * pageSize) pageSize

theorem Address.eq_of_add {kind : AddressKind} {a b : Address kind} {n : Nat}
    (h : a.add n = .ok b) : b = ⟨a.value + n⟩ := (add_eq_ok.1 h).2.2

theorem mem_pageRun_iff {start : VirtualAddress} {file : Handle} {offset readBytes count : Nat}
    {make : VirtualAddress → LoadSlice → Page} {pages : List Page}
    (h : pageRun start file offset readBytes count make = .ok pages) {p : Page} :
    p ∈ pages ↔
      ∃ k < count, p = make ⟨start.value + k * pageSize⟩ (.part file offset readBytes k) := by
  unfold pageRun at h
  have hmake : ∀ {k p}, (do
      let slice ← LoadSlice.ofRun file offset readBytes k
      return make (← start.add (k * pageSize)) slice : Except Bug Page) = .ok p →
      p = make ⟨start.value + k * pageSize⟩ (.part file offset readBytes k) := by
    intro k p hp
    obtain ⟨slice, hslice, hp⟩ := except_bind_eq_ok.1 hp
    obtain ⟨from', hfrom, hslice⟩ := except_bind_eq_ok.1 hslice
    obtain ⟨a, ha, hp⟩ := except_bind_eq_ok.1 hp
    obtain ⟨-, rfl⟩ := wordAdd_eq_ok.1 hfrom
    obtain rfl := Address.eq_of_add ha
    cases hslice
    cases hp
    rfl
  constructor
  · intro hp
    obtain ⟨k, hk, hp⟩ := (mem_mapM_iff h).1 hp
    exact ⟨k, List.mem_range.1 hk, hmake hp⟩
  · rintro ⟨k, hk, rfl⟩
    obtain ⟨p, hp⟩ := exists_of_mapM h (List.mem_range.2 hk)
    have hmem := (mem_mapM_iff h).2 ⟨k, List.mem_range.2 hk, hp⟩
    rw [hmake hp] at hmem
    exact hmem

/-- A table that got pages has them and the old ones. -/
theorem PageTable.get?_insertAll {t table : PageTable} {pages : List Page}
    (h : t.insertAll pages = .ok table) {key : Nat} {p : Page} :
    table.pages.get? key = some p ↔
      t.pages.get? key = some p ∨ p ∈ pages ∧ p.address.value = key := by
  induction pages generalizing t with
  | nil =>
    cases h
    simp
  | cons q rest ih =>
    unfold insertAll at h
    rw [List.foldlM_cons] at h
    obtain ⟨next, hfirst, hrest⟩ := except_bind_eq_ok.1 h
    obtain ⟨hvacant, rfl⟩ := insert_eq_ok hfirst
    have hnone : t.pages.get? q.address.value = none := by simpa [Table.contains] using hvacant
    rw [ih hrest, Table.get?_insert]
    by_cases hkey : key = q.address.value
    · subst hkey
      rw [if_pos rfl, hnone]
      constructor
      · rintro (hq | ⟨hmem, ha⟩)
        · cases hq
          exact .inr ⟨List.mem_cons_self .., rfl⟩
        · exact .inr ⟨List.mem_cons_of_mem _ hmem, ha⟩
      · rintro (hp | ⟨hmem, ha⟩)
        · cases hp
        · rcases List.mem_cons.1 hmem with rfl | hmem
          · exact .inl rfl
          · exact .inr ⟨hmem, ha⟩
    · rw [if_neg hkey]
      have hhead : ∀ r : Page, r.address.value = key → r ≠ q := by
        rintro r ha rfl
        exact hkey ha.symm
      constructor
      · rintro (hold | ⟨hmem, ha⟩)
        · exact .inl hold
        · exact .inr ⟨List.mem_cons_of_mem _ hmem, ha⟩
      · rintro (hold | ⟨hmem, ha⟩)
        · exact .inl hold
        · exact .inr ⟨(List.mem_cons.1 hmem).resolve_left (hhead p ha), ha⟩

namespace Label

/-- Pages of no mapping are added to a space. Their files are among those that callers hold. -/
def Registers (id : SpaceId) (held : List Handle) : Label → Prop
  | register pl page =>
    pl.space = id ∧ page.mapping = none ∧ page.Borrows held ∧ page.Stands
  | _ => False

/-- What taking away the page at `pl`, which belongs to `mapping`, consists of. -/
def Removes (pl : Place) (mapping : Option MappingId) : Label → Prop
  | unseat other p | remove other p => other = pl ∧ p.mapping = mapping
  | giveBack => True
  | _ => False

end Label

namespace Machine

variable {s t : Machine} {held : Option FrameId} {id : SpaceId} {sp : Space} {p : Page}
  {r : Except PagerError Unit}

/-- The place of a page of a space. -/
def placeOf (id : SpaceId) (p : Page) : Place := ⟨id, p.address.value⟩

/-- The space has got the pages in addition, and nothing else has changed. -/
def Adds (id : SpaceId) (pages : List Page) (s t : Machine) : Prop :=
  ∃ sp table, s.spaces.get? id = some sp ∧ sp.pages.insertAll pages = .ok table ∧
    t = { s with spaces := s.spaces.insert id { sp with pages := table } }

theorem Adds.nil (h : Adds id [] s t) : t = s := by
  obtain ⟨sp, table, hs, hinsert, rfl⟩ := h
  cases hinsert
  rw [Table.insert_of_get? hs]

/-- Pages are added one after the other. -/
theorem Adds.cons {rest : List Page} (h : Adds id (p :: rest) s t) :
    ∃ sp u, s.spaces.get? id = some sp ∧ sp.pages.pages.get? p.address.value = none ∧
      u = { s with spaces := s.spaces.insert id { sp with
        pages := ⟨sp.pages.pages.insert p.address.value p⟩ } } ∧ Adds id rest u t := by
  obtain ⟨sp, table, hs, hinsert, rfl⟩ := h
  unfold PageTable.insertAll at hinsert
  rw [List.foldlM_cons] at hinsert
  obtain ⟨next, hfirst, hrest⟩ := except_bind_eq_ok.1 hinsert
  obtain ⟨hvacant, rfl⟩ := PageTable.insert_eq_ok hfirst
  have hnone : sp.pages.pages.get? p.address.value = none := by
    rw [Table.contains] at hvacant
    simpa using hvacant
  refine ⟨sp, _, hs, hnone, rfl, _, table, Table.get?_insert_self .., hrest, ?_⟩
  simp only [Table.insert_insert]

theorem Adds.single (h : Adds id [p] s t) :
    ∃ sp, s.spaces.get? id = some sp ∧ sp.pages.pages.get? p.address.value = none ∧
      t = { s with spaces := s.spaces.insert id { sp with
        pages := ⟨sp.pages.pages.insert p.address.value p⟩ } } := by
  obtain ⟨sp, u, hs, hnone, rfl, hrest⟩ := h.cons
  exact ⟨sp, hs, hnone, hrest.nil⟩

theorem Adds.trace {pages : List Page} (h : Adds id pages s t)
    (hp : ∀ p ∈ pages, p.Enters) :
    Trace (pages.map fun p => .register (placeOf id p) p) ⟨s, held⟩ ⟨t, held⟩ := by
  induction pages generalizing s with
  | nil =>
    rw [h.nil]
    exact .nil
  | cons p rest ih =>
    obtain ⟨sp, u, hs, hnone, rfl, hrest⟩ := h.cons
    have henters := hp p (List.mem_cons_self ..)
    have hfirst : Move (.register (placeOf id p) p) ⟨s, held⟩ _ := .register hs hnone rfl
      henters.aligned henters.absent henters.slotless henters.typed
    exact .cons hfirst (ih hrest fun q hq => hp q (List.mem_cons_of_mem _ hq))

theorem Adds.moves {pages : List Page} {handles : List Handle} (h : Adds id pages s t)
    (hp : ∀ p ∈ pages, p.IsNew ∧ p.Borrows handles ∧ p.Stands) :
    Moves (Label.Registers id handles) ⟨s, held⟩ ⟨t, held⟩ := by
  apply Moves.of_trace (h.trace fun p hmem => (hp p hmem).1.toEnters)
  intro l hl
  obtain ⟨p, hmem, rfl⟩ := List.mem_map.1 hl
  obtain ⟨hnew, hborrows⟩ := hp p hmem
  exact ⟨rfl, hnew.unmapped, hborrows⟩

theorem insertPages_cases {pages : List Page} (run : insertPages id pages s = .ok (r, t)) :
    (r = .ok () ∧ Adds id pages s t) ∨ ∃ e, r = .error e ∧ t = s := by
  unfold insertPages at run
  obtain ⟨sp, hs, run⟩ := space_bind_eq_ok.1 run
  rcases Action.ofResult_bind_eq_ok.1 run with ⟨table, hinsert, run⟩ | ⟨e, -, rfl, rfl⟩
  · rw [modifySpace_apply, Table.modify_eq_insert hs] at run
    cases run
    exact .inl ⟨rfl, sp, table, hs, hinsert, rfl⟩
  · exact .inr ⟨e, rfl, rfl⟩

/-- Where no page is registered, one can be. -/
theorem insertPages_single (hs : s.spaces.get? id = some sp)
    (hvacant : ¬ sp.pages.pages.contains p.address.value = true) :
    ∃ u, Adds id [p] s u ∧ insertPages id [p] s = .ok (.ok (), u) := by
  have hinsert : sp.pages.insertAll [p] = .ok ⟨sp.pages.pages.insert p.address.value p⟩ := by
    rw [PageTable.insertAll, List.foldlM_cons, PageTable.insert, if_neg hvacant]
    rfl
  refine ⟨_, ⟨sp, _, hs, hinsert, rfl⟩, ?_⟩
  unfold insertPages
  rw [space_bind hs, hinsert]
  show modifySpace id _ s = _
  rw [modifySpace_apply, Table.modify_eq_insert hs]

theorem register_cases {a : VirtualAddress} {writable : Bool} {type : PageType}
    {init : Option Initializer} {slice : LoadSlice}
    (run : register id a writable type init slice s = .ok (r, t)) :
    (r = .ok () ∧ Adds id [.fresh a writable type init slice] s t) ∨ ∃ e, r = .error e ∧ t = s := by
  unfold register at run
  rcases Action.ofResult_bind_eq_ok.1 run with ⟨_, -, run⟩ | ⟨e, -, rfl, rfl⟩
  · by_cases hfile : type = .fileBacked ∧ slice.file.isNone = true
    · rw [if_pos hfile] at run
      cases run
      exact .inr ⟨_, rfl, rfl⟩
    · rw [if_neg hfile] at run
      exact insertPages_cases run
  · exact .inr ⟨e, rfl, rfl⟩

/-- A page that is to be of a file names one. -/
theorem register_filed {a : VirtualAddress} {writable : Bool} {init : Option Initializer}
    {slice : LoadSlice}
    (run : register id a writable .fileBacked init slice s = .ok (.ok (), t)) :
    ∃ file, slice.file = some file := by
  unfold register at run
  rcases Action.ofResult_bind_eq_ok.1 run with ⟨_, -, run⟩ | ⟨e, -, hr, -⟩
  · cases hfile : slice.file with
    | none =>
      rw [hfile] at run
      cases run
    | some file => exact ⟨file, rfl⟩
  · cases hr

theorem registerSegment_cases {file : Handle} {offset : Nat} {start : VirtualAddress}
    {readBytes zeroBytes : Nat} {writable : Bool}
    (run : registerSegment id file offset start readBytes zeroBytes writable s = .ok (r, t)) :
    (r = .ok () ∧ start.isPageAligned = true ∧ (readBytes + zeroBytes) % pageSize = 0 ∧ ∃ pages,
      pageRun start file offset readBytes ((readBytes + zeroBytes) / pageSize)
        (fun a slice => .fresh a writable .anonymous (some .fileSlice) slice) = .ok pages ∧
      Adds id pages s t) ∨ ∃ e, r = .error e ∧ t = s := by
  unfold registerSegment at run
  by_cases haligned : (!start.isPageAligned) = true ∨ offset % pageSize ≠ 0
  · rw [if_pos haligned] at run
    cases run
    exact .inr ⟨_, rfl, rfl⟩
  · rw [if_neg haligned] at run
    dsimp only at run
    by_cases htotal : 1 <<< 64 ≤ readBytes + zeroBytes ∨ readBytes + zeroBytes = 0 ∨
        (readBytes + zeroBytes) % pageSize ≠ 0
    · rw [if_pos htotal] at run
      cases run
      exact .inr ⟨_, rfl, rfl⟩
    · rw [if_neg htotal] at run
      rcases Action.ofResult_bind_eq_ok.1 run with ⟨_, -, run⟩ | ⟨e, -, rfl, rfl⟩
      · by_cases hoffset : 1 <<< 64 ≤ offset + (readBytes + zeroBytes)
        · rw [if_pos hoffset] at run
          cases run
          exact .inr ⟨_, rfl, rfl⟩
        · rw [if_neg hoffset] at run
          obtain ⟨sp, hs, run⟩ := space_bind_eq_ok.1 run
          obtain ⟨overlaps, -, run⟩ := Action.liftM_bind_eq_ok.1 run
          cases overlaps with
          | true =>
            cases run
            exact .inr ⟨_, rfl, rfl⟩
          | false =>
            obtain ⟨pages, hpages, run⟩ := Action.liftM_bind_eq_ok.1 run
            rcases insertPages_cases run with ⟨rfl, hadds⟩ | hfailed
            · rw [not_or] at haligned
              exact .inl ⟨rfl, by simpa using haligned.1, by omega, pages, hpages, hadds⟩
            · exact .inr hfailed
      · exact .inr ⟨e, rfl, rfl⟩

/-- What a page gives up that is no longer registered: its frame and its slot. -/
theorem discardPage_cases (run : discardPage id p s = .ok (r, t)) :
    r = .ok () ∧ ∃ after swap, p.releaseSlot s.swap = .ok (after, swap) ∧
      ((p.frame = none ∧ t = { s with swap }) ∨
        ∃ f fr frames address frames' pool, p.frame = some f ∧ s.frames.get? f = some fr ∧
          frames = s.frames.put f { fr with owner := none, pinned := false } ∧
          frames.remove f = .ok (address, frames') ∧ s.pool.giveBack address = .ok pool ∧
          t = { s with
            swap
            frames := frames'
            pool
            spaces := s.spaces.modify id fun space =>
              { space with directory := space.directory.unmap p.address } }) := by
  unfold discardPage at run
  cases hframe : p.frame with
  | none =>
    rw [hframe] at run
    dsimp only at run
    rw [Action.get_bind] at run
    obtain ⟨released, hrel, run⟩ := Action.liftM_bind_eq_ok.1 run
    cases run
    exact ⟨rfl, released.1, released.2, hrel, .inl ⟨rfl, rfl⟩⟩
  | some f =>
    rw [hframe] at run
    dsimp only at run
    rw [modifyDirectory, modifySpace_bind] at run
    rcases Action.bind_eq_ok.1 run with ⟨_, u, hunbind, run⟩ | ⟨e, hunbind, -⟩
    · obtain ⟨_, frames, hbody, -, rfl⟩ := onFrames_eq_ok.1 hunbind
      obtain ⟨pair, hpair, hframes⟩ := except_bind_eq_ok.1 hbody
      cases hframes
      obtain ⟨-, fr, owner, hf, -, -, hput, -⟩ := FrameTable.unbind_eq_ok.1 hpair
      rcases Action.bind_eq_ok.1 run with ⟨_, v, hreturn, run⟩ | ⟨e, hreturn, -⟩
      · unfold returnFrame at hreturn
        rcases Action.bind_eq_ok.1 hreturn with ⟨address, w, hremove, hreturn⟩ | ⟨e, hremove, he⟩
        · obtain ⟨_, frames', hremoved, hr, rfl⟩ := onFrames_eq_ok.1 hremove
          cases hr
          rw [Action.get_bind] at hreturn
          obtain ⟨pool, hpool, hreturn⟩ := Action.liftM_bind_eq_ok.1 hreturn
          cases hreturn
          rw [Action.get_bind] at run
          obtain ⟨released, hrel, run⟩ := Action.liftM_bind_eq_ok.1 run
          cases run
          exact ⟨rfl, released.1, released.2, hrel, .inr ⟨f, fr, pair.1, address, frames', pool,
            rfl, hf, hput, hremoved, hpool, rfl⟩⟩
        · cases he
      · cases (returnFrame_move hreturn).1
    · obtain ⟨_, frames, -, hr, -⟩ := onFrames_eq_ok.1 hunbind
      cases hr

/-- A page that is registered can be taken away, and then it is gone. -/
theorem remove_moves (h : Coherent ⟨s, none⟩) {a : VirtualAddress}
    (run : remove id a s = .ok (r, t)) :
    ∃ sp, s.spaces.get? id = some sp ∧
      ((sp.pages.get? a = none ∧ r = .error .notMapped ∧ t = s) ∨
        ∃ p directory, sp.pages.get? a = some p ∧ r = .ok () ∧
          Moves (Label.Removes (.of id a) p.mapping) ⟨s, none⟩ ⟨t, none⟩ ∧ t.files = s.files ∧
          t.spaces = s.spaces.insert id { sp with pages := sp.pages.erase a, directory }) := by
  unfold remove at run
  obtain ⟨sp, hs, ⟨p, hp, run⟩ | ⟨hp, rfl, rfl⟩⟩ := page_bind_eq_ok.1 run
  · refine ⟨sp, hs, .inr ?_⟩
    rw [modifySpace_bind, Table.modify_eq_insert hs] at run
    obtain ⟨rfl, after, swap, hrel, ⟨habs, rfl⟩ |
      ⟨f, fr, frames, address, frames', pool, hres, hf, rfl, hremove, hpool, rfl⟩⟩ :=
        discardPage_cases run
    · have hremove : Move (.remove (.of id a) p) ⟨s, none⟩ ⟨_, none⟩ := .remove hs hp habs hrel
      exact ⟨p, sp.directory, hp, rfl, .single hremove ⟨rfl, rfl⟩, rfl, rfl⟩
    · -- the order of the program is the other way round: the page is erased first
      have hpage : Pager.pageAt s.spaces (.of id a) = some p := Coherent.pageAt_eq hs hp
      have ha : p.address = (Place.of id a).address := (h.linked.keyed hpage).1
      obtain ⟨other, hrel'⟩ := Page.releaseSlot_frame hrel none
      have hunseat : Move (.unseat (.of id a) p) ⟨s, none⟩ _ := .unseat hf hs hp hres
      have hgive : Move .giveBack ⟨{ s with
          frames := s.frames.put f { fr with owner := none, pinned := false }
          spaces := s.spaces.insert (Place.of id a).space { sp with
            pages := ⟨sp.pages.pages.insert (Place.of id a).key { p with frame := none }⟩
            directory := sp.directory.unmap (Place.of id a).address } }, some f⟩ _ :=
        .giveBack hremove hpool
      have hgone : Move (.remove (.of id a) { p with frame := none }) ⟨{ s with
          pool
          frames := frames'
          spaces := s.spaces.insert (Place.of id a).space { sp with
            pages := ⟨sp.pages.pages.insert (Place.of id a).key { p with frame := none }⟩
            directory := sp.directory.unmap (Place.of id a).address } }, none⟩ _ :=
        .remove (Table.get?_insert_self ..) (Table.get?_insert_self ..) rfl hrel'
      have hmoves : Moves (Label.Removes (.of id a) p.mapping) ⟨s, none⟩ _ :=
        ((Moves.single hunseat ⟨rfl, rfl⟩).tail hgive trivial).tail hgone ⟨rfl, rfl⟩
      refine ⟨p, sp.directory.unmap (Place.of id a).address, hp, rfl, ?_, rfl, ?_⟩
      · simp only [Table.erase_insert, Table.insert_insert] at hmoves
        simp only [Table.modify_insert, ha]
        exact hmoves
      · simp only [Table.modify_insert, ha]
  · exact ⟨sp, hs, .inl ⟨hp, rfl, rfl⟩⟩

end Machine
end Pager
