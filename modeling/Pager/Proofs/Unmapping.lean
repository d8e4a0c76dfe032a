import Pager.Machine.Mapping
import Pager.Proofs.Registration

/-!
Mappings as moves. Mapping opens a handle, takes a number, adds the pages and
records the mapping, in this order, and every refusal comes before the pages are
added. Unmapping gives up the record first; then each page that carries the
mapping's number is written back if need be, and taken away.
-/
namespace Pager

namespace Label

/-- A mapping is prepared: its handle is opened and its number taken. -/
def Opens (id : SpaceId) : Label → Prop
  | handles => True
  | number other => other = id
  | _ => False

/-- Pages of `mapping` are written back and taken away. -/
def Unmaps (id : SpaceId) (mapping : MappingId) : Label → Prop
  | note | request | giveBack => True
  | unseat pl p | remove pl p => pl.space = id ∧ p.mapping = some mapping
  | _ => False

/-- The page at `pl`, which belongs to `mapping`, is written back and taken away. -/
def Retires (pl : Place) (mapping : MappingId) : Label → Prop
  | note | request | giveBack => True
  | unseat other p | remove other p => other = pl ∧ p.mapping = some mapping
  | _ => False

/-- A mapping of the space is given up with its pages. -/
def Dismantles (id : SpaceId) : Label → Prop
  | note | request | giveBack => True
  | unrecord other _ => other = id
  | unseat pl p | remove pl p => pl.space = id ∧ ∃ mapping, p.mapping = some mapping
  | _ => False

theorem Unmaps.dismantles {l : Label} {id : SpaceId} {mapping : MappingId}
    (h : l.Unmaps id mapping) : l.Dismantles id := by
  cases l with
  | note | request | giveBack => trivial
  | unseat pl p | remove pl p => exact ⟨h.1, mapping, h.2⟩
  | _ => cases h

theorem Removes.retires {l : Label} {pl : Place} {mapping : MappingId}
    (h : l.Removes pl (some mapping)) : l.Retires pl mapping := by
  cases l <;> first | exact h | cases h

theorem Retires.unmaps {l : Label} {id : SpaceId} {a : VirtualAddress} {mapping : MappingId}
    (h : l.Retires (.of id a) mapping) : l.Unmaps id mapping := by
  cases l with
  | note | request | giveBack => trivial
  | unseat pl p | remove pl p =>
    obtain ⟨rfl, hp⟩ := h
    exact ⟨rfl, hp⟩
  | _ => cases h

end Label

/-- A range that a process may use ends below the kernel's half. -/
theorem requireUserRange_eq_ok {start : VirtualAddress} {length : Nat}
    (h : requireUserRange start length = .ok ()) : start.value + length ≤ kernelBase := by
  unfold requireUserRange at h
  obtain ⟨_, -, h⟩ := except_bind_eq_ok.1 h
  by_contra hcon
  rw [if_neg hcon] at h
  cases h

/-- An aligned range that ends below the kernel's half does so in whole pages. -/
theorem pages_le_kernelBase {start : VirtualAddress} {length : Nat}
    (ha : start.isPageAligned = true) (h : start.value + length ≤ kernelBase) :
    start.value + (length + pageSize - 1) / pageSize * pageSize ≤ kernelBase := by
  have hstart : start.value % pageSize = 0 := by
    simpa [Address.isPageAligned, Address.pageOffset] using ha
  unfold pageSize kernelBase at *
  omega

/-- The handle that opening a file once more yields. -/
def FileStore.opening (store : FileStore) (file : Handle) : Handle := ⟨file.file, store.nextSerial⟩

/-- A new handle leads to a file. -/
theorem FileStore.reopen_cases {file : Handle} {store after : FileStore}
    {r : Except StoreError Handle} (run : reopen file store = .ok (r, after)) :
    (∃ e, r = .error e ∧ after = store) ∨
      ∃ found, store.file? file = some found ∧ r = .ok (store.opening file) ∧
        after = { store with nextSerial := store.nextSerial + 1 } := by
  rw [reopen_eq] at run
  cases hfile : store.file? file with
  | none =>
    rw [hfile] at run
    cases run
    exact .inl ⟨_, rfl, rfl⟩
  | some found =>
    simp only [hfile] at run
    by_cases hfail : found.failReopen = true
    · rw [if_pos hfail] at run
      cases run
      exact .inl ⟨_, rfl, rfl⟩
    · rw [if_neg hfail] at run
      cases run
      exact .inr ⟨found, rfl, rfl, rfl⟩

namespace Machine

variable {s t : Machine} {id : SpaceId} {start : VirtualAddress} {sp : Space} {p : Page}

theorem record_trace (hs : s.spaces.get? id = some sp) (mapping : Mapping)
    (events : List Event) :
    Trace [.record id start.value mapping, .note] ⟨s, none⟩ ⟨{ s with
      spaces := s.spaces.modify id fun space =>
        { space with mappings := space.mappings.insert start.value mapping }
      events }, none⟩ := by
  rw [Table.modify_eq_insert hs]
  exact .cons (.record hs start.value mapping) (.cons (.note ..) .nil)

/-- Whole pages that hold `length` bytes. -/
def pagesFor (length : Nat) : Nat := (length + pageSize - 1) / pageSize

/-- The machine once a handle was opened. -/
def reopened (s : Machine) : Machine :=
  { s with files := { s.files with nextSerial := s.files.nextSerial + 1 } }

/-- The second half of a mapping, once its range was checked and its handle opened. -/
def enterMapping (id : SpaceId) (start : VirtualAddress) (length : Nat) (writable : Bool)
    (opened : Handle) (offset : Nat) : Act VirtualAddress := do
  let mapping := (← space id).nextMapping
  let next ← wordAdd mapping 1
  modifySpace id fun space => { space with nextMapping := next }
  let available := (← get).files.size opened - offset
  insertPages id (← pageRun start opened offset (min length available) (pagesFor length)
    fun a slice => .mapped a writable slice mapping)
  modifySpace id fun space =>
    { space with mappings := space.mappings.insert start.value ⟨mapping, pagesFor length, opened⟩ }
  report (.mapped id length (pagesFor length) start mapping)
  return start

/-- A mapping once its arguments were checked: the range is vacant and the file can be opened. -/
def openMapping (id : SpaceId) (start : VirtualAddress) (length : Nat) (writable : Bool)
    (file : Handle) (offset : Nat) : Act VirtualAddress := do
  if ← (← space id).pages.overlaps start (pagesFor length) then throw .overlap
  let opened ← Action.within Machine.files (fun files s => { s with files })
    (Action.mapError .store (FileStore.reopen file))
  enterMapping id start length writable opened offset

/-- What is checked of the arguments of a mapping. -/
structure Sensible (s : Machine) (start : VirtualAddress) (length : Nat) (file : Handle)
    (offset : Nat) : Prop where
  nonnull : ¬ start.isNull = true
  aligned : start.isPageAligned = true
  cut : offset % pageSize = 0
  nonempty : length ≠ 0
  filled : s.files.isEmpty file = false
  range : requireUserRange start length = .ok ()
  fits : offset + pagesFor length * pageSize < 2 ^ 64

theorem Sensible.ends {length : Nat} {file : Handle} {offset : Nat}
    (h : s.Sensible start length file offset) : start.value + length ≤ kernelBase :=
  requireUserRange_eq_ok h.range

/-- Arguments that are no good are turned down before anything is touched. -/
theorem mmap_checks (s : Machine) (id : SpaceId) (start : VirtualAddress) (length : Nat)
    (writable : Bool) (file : Handle) (offset : Nat) :
    (¬ s.Sensible start length file offset ∧
        ∃ e, mmap id start length writable file offset s = .ok (.error e, s)) ∨
      s.Sensible start length file offset ∧
        mmap id start length writable file offset s =
          openMapping id start length writable file offset s := by
  unfold mmap
  by_cases hnull : start.isNull = true
  · rw [if_pos hnull]
    exact .inl ⟨fun h => h.nonnull hnull, _, rfl⟩
  rw [if_neg hnull]
  by_cases haligned : (!start.isPageAligned) = true ∨ offset % pageSize ≠ 0
  · rw [if_pos haligned]
    exact .inl ⟨fun h => by simp [h.aligned, h.cut] at haligned, _, rfl⟩
  rw [if_neg haligned]
  dsimp only
  rw [Action.get_bind]
  by_cases hlength : length = 0 ∨ s.files.isEmpty file = true
  · rw [if_pos hlength]
    exact .inl ⟨fun h => by simp [h.nonempty, h.filled] at hlength, _, rfl⟩
  rw [if_neg hlength]
  by_cases hrange : (requireUserRange start length).toBool = false
  · rw [if_pos hrange]
    exact .inl ⟨fun h => by simp [h.range, Except.toBool] at hrange, _, rfl⟩
  rw [if_neg hrange]
  by_cases hoffset : 1 <<< 64 ≤ offset + (length + pageSize - 1) / pageSize * pageSize
  · rw [if_pos hoffset]
    exact .inl ⟨fun h => absurd h.fits (Nat.not_lt.2 hoffset), _, rfl⟩
  rw [if_neg hoffset]
  have hrange : requireUserRange start length = .ok () := by
    cases hr : requireUserRange start length with
    | error e => simp [hr, Except.toBool] at hrange
    | ok _ => rfl
  rw [not_or] at haligned hlength
  exact .inr ⟨⟨hnull, by simpa using haligned.1, not_not.1 haligned.2, hlength.1,
    by simpa using hlength.2, hrange, Nat.lt_of_not_le hoffset⟩, rfl⟩

/-- A mapping is turned down before anything is touched, or its handle is opened and it is
entered. -/
theorem mmap_eq_ok {length : Nat} {writable : Bool} {file : Handle} {offset : Nat}
    {r : Except PagerError VirtualAddress}
    (run : mmap id start length writable file offset s = .ok (r, t)) :
    (∃ e, r = .error e ∧ t = s) ∨ s.Sensible start length file offset ∧
      enterMapping id start length writable (s.files.opening file) offset s.reopened =
        .ok (r, t) := by
  rcases mmap_checks s id start length writable file offset with
    ⟨-, e, hrun⟩ | ⟨hsensible, hrun⟩
  · cases hrun.symm.trans run
    exact .inl ⟨e, rfl, rfl⟩
  rw [hrun] at run
  unfold openMapping at run
  obtain ⟨sp, hs, run⟩ := space_bind_eq_ok.1 run
  obtain ⟨overlaps, -, run⟩ := Action.liftM_bind_eq_ok.1 run
  cases overlaps with
  | true =>
    cases run
    exact .inl ⟨_, rfl, rfl⟩
  | false =>
    rw [if_neg (by decide)] at run
    rcases Action.bind_eq_ok.1 run with ⟨opened, u, hreopen, run⟩ | ⟨e, hreopen, rfl⟩
    · obtain ⟨files, hwithin, rfl⟩ := Action.within_eq_ok.1 hreopen
      obtain ⟨q, hq, hr⟩ := Action.mapError_eq_ok.1 hwithin
      rcases FileStore.reopen_cases hq with ⟨e, rfl, -⟩ | ⟨-, -, rfl, rfl⟩
      · cases hr
      · cases hr
        exact .inr ⟨hsensible, run⟩
    · obtain ⟨files, hwithin, rfl⟩ := Action.within_eq_ok.1 hreopen
      obtain ⟨q, hq, hr⟩ := Action.mapError_eq_ok.1 hwithin
      rcases FileStore.reopen_cases hq with ⟨e', -, rfl⟩ | ⟨-, -, rfl, -⟩
      · exact .inl ⟨e, rfl, rfl⟩
      · cases hr

/-- Entering a mapping takes a number, adds the pages and makes the record. -/
theorem enterMapping_cases {length : Nat} {writable : Bool} {opened : Handle} {offset : Nat}
    {r : Except PagerError VirtualAddress}
    (run : enterMapping id start length writable opened offset s = .ok (r, t)) :
    (∃ e, r = .error e ∧ Trace [.number id] ⟨s, none⟩ ⟨t, none⟩) ∨
      r = .ok start ∧ ∃ sp pages table, s.spaces.get? id = some sp ∧
        pageRun start opened offset (min length (s.files.size opened - offset)) (pagesFor length)
          (fun a slice => .mapped a writable slice sp.nextMapping) = .ok pages ∧
        sp.pages.insertAll pages = .ok table ∧
        t.spaces = s.spaces.insert id { sp with
          pages := table
          nextMapping := sp.nextMapping + 1
          mappings := sp.mappings.insert start.value ⟨sp.nextMapping, pagesFor length, opened⟩ } ∧
        t.files = s.files ∧
        Trace ([.number id] ++ pages.map (fun p => .register (placeOf id p) p) ++
          [.record id start.value ⟨sp.nextMapping, pagesFor length, opened⟩, .note])
          ⟨s, none⟩ ⟨t, none⟩ := by
  unfold enterMapping at run
  obtain ⟨sp, hs, run⟩ := space_bind_eq_ok.1 run
  obtain ⟨next, hnext, run⟩ := Action.liftM_bind_eq_ok.1 run
  obtain ⟨-, rfl⟩ := wordAdd_eq_ok.1 hnext
  rw [modifySpace_bind, Action.get_bind, Table.modify_eq_insert hs] at run
  obtain ⟨pages, hpages, run⟩ := Action.liftM_bind_eq_ok.1 run
  have hnumber : Move (.number id) ⟨s, none⟩ _ := .number hs
  rcases Action.bind_eq_ok.1 run with ⟨_, v, hinsert, run⟩ | ⟨e, hinsert, rfl⟩
  · rcases insertPages_cases hinsert with ⟨-, hadds⟩ | ⟨e, he, -⟩
    · have henters : ∀ p ∈ pages, p.Enters := by
        intro p hp
        obtain ⟨k, -, rfl⟩ := (mem_pageRun_iff hpages).1 hp
        exact Page.enters_mapped ..
      have hregisters : Trace _ ⟨_, none⟩ ⟨v, none⟩ := hadds.trace henters
      obtain ⟨sp', table, hs', htable, rfl⟩ := hadds
      rw [Table.get?_insert_self] at hs'
      cases hs'
      rw [modifySpace_bind] at run
      cases run
      refine .inr ⟨rfl, sp, pages, table, hs, hpages, htable, ?_, rfl, ?_⟩
      · simp only [Table.insert_insert, Table.modify_insert]
      · refine .cons hnumber (hregisters.append ?_)
        exact record_trace (Table.get?_insert_self ..) _ _
    · cases he
  · rcases insertPages_cases hinsert with ⟨hr, -⟩ | ⟨e', -, rfl⟩
    · cases hr
    · exact .inl ⟨e, rfl, .cons hnumber .nil⟩

/-- A mapping is entered as a whole: its pages, its record and its number. If that fails it may
have taken its handle and its number already. -/
theorem mmap_cases {length : Nat} {writable : Bool} {file : Handle} {offset : Nat}
    {r : Except PagerError VirtualAddress}
    (run : mmap id start length writable file offset s = .ok (r, t)) :
    (∃ e, r = .error e ∧ (t = s ∨ Trace [.handles, .number id] ⟨s, none⟩ ⟨t, none⟩)) ∨
      r = .ok start ∧ ∃ sp pages table, s.spaces.get? id = some sp ∧
        s.files.isEmpty file = false ∧ start.isPageAligned = true ∧ start.value + length ≤ kernelBase ∧
        pageRun start (s.files.opening file) offset (min length (s.files.size file - offset))
          ((length + pageSize - 1) / pageSize)
          (fun a slice => .mapped a writable slice sp.nextMapping) = .ok pages ∧
        sp.pages.insertAll pages = .ok table ∧
        t.spaces = s.spaces.insert id { sp with
          pages := table
          nextMapping := sp.nextMapping + 1
          mappings := sp.mappings.insert start.value
            ⟨sp.nextMapping, (length + pageSize - 1) / pageSize, s.files.opening file⟩ } ∧
        t.files = { s.files with nextSerial := s.files.nextSerial + 1 } ∧
        Trace ([.handles, .number id] ++ pages.map (fun p => .register (placeOf id p) p) ++
          [.record id start.value
            ⟨sp.nextMapping, (length + pageSize - 1) / pageSize, s.files.opening file⟩, .note])
          ⟨s, none⟩ ⟨t, none⟩ := by
  have hhandles : Move .handles ⟨s, none⟩ ⟨s.reopened, none⟩ := .handles
  rcases mmap_eq_ok run with ⟨e, rfl, rfl⟩ | ⟨hsensible, hentered⟩
  · exact .inl ⟨e, rfl, .inl rfl⟩
  · rcases enterMapping_cases hentered with ⟨e, rfl, htrace⟩ |
      ⟨rfl, sp, pages, table, hs, hpages, htable, hspaces, hfiles, htrace⟩
    · exact .inl ⟨e, rfl, .inr (.cons hhandles htrace)⟩
    · exact .inr ⟨rfl, sp, pages, table, hs, hsensible.filled, hsensible.aligned, hsensible.ends,
        hpages, htable, hspaces, hfiles, .cons hhandles htrace⟩

/-- The moves of a mapping that was made. -/
theorem moves_of_mapping {kinds : Label → Prop} {m n : Moment} {key : Nat} {mapping : Mapping}
    {pages : List Page}
    (htrace : Trace ([.handles, .number id] ++ pages.map (fun p => .register (placeOf id p) p) ++
      [.record id key mapping, .note]) m n)
    (hhandles : kinds .handles) (hnumber : kinds (.number id))
    (hpages : ∀ p ∈ pages, kinds (.register (placeOf id p) p))
    (hrecord : kinds (.record id key mapping)) (hnote : kinds .note) : Moves kinds m n := by
  refine .of_trace htrace fun l hl => ?_
  simp only [List.mem_append, List.mem_cons, List.mem_map, List.not_mem_nil, or_false] at hl
  rcases hl with ((rfl | rfl) | ⟨p, hp, rfl⟩) | (rfl | rfl)
  · exact hhandles
  · exact hnumber
  · exact hpages p hp
  · exact hrecord
  · exact hnote

/-- A mapping that failed has changed no pages and no records. -/
theorem moves_of_failed (h : t = s ∨ Trace [.handles, .number id] ⟨s, none⟩ ⟨t, none⟩) :
    Moves (Label.Opens id) ⟨s, none⟩ ⟨t, none⟩ := by
  rcases h with rfl | htrace
  · exact .refl
  · exact .of_trace htrace (by simp [Label.Opens])

theorem transfer_writeBack (h : Coherent ⟨s, none⟩) {pl : Place}
    (hs : s.spaces.get? pl.space = some sp) (hp : sp.pages.pages.get? pl.key = some p)
    {address : PhysicalAddress} {file : FileBacking} {r : Except PagerError Unit}
    (run : transfer pl.space pl.address address (Transfer.writeBack file) s = .ok (r, t)) :
    ∃ q files, FileStore.writeAt file.file ((s.pool.bytesAt address).take file.readBytes)
        file.offset s.files = .ok (q, files) ∧
      r = Transfer.ending (FileStore.shortfall file.readBytes q) ∧ t = { s with files } := by
  obtain ⟨u, pool, hrun, hpool, rfl⟩ := transfer_eq_ok h hs hp
    (fun hrun => congrArg (fun t => t.page.address) (Transfer.writeBack_spec hrun).1) run
  obtain ⟨hu, q, hwrite, hresult⟩ := Transfer.writeBack_spec hrun
  refine ⟨q, u.files, hwrite, hresult, ?_⟩
  rw [hu] at hpool
  cases FramePool.write_self hpool
  rw [hu, spaces_insert_same hs hp]
  rfl

/-- A dirty page's file is asked to take what is in the page's frame. -/
theorem writeBack_request (h : Coherent ⟨s, held⟩) {pl : Place}
    (hs : s.spaces.get? pl.space = some sp) (hp : sp.pages.pages.get? pl.key = some p)
    {f : FrameId} {fr : Frame} {file : FileBacking} {q : Except StoreError Nat} {files : FileStore}
    (hframe : p.frame = some f) (hkind : p.kind = .fileBacked file)
    (hdirty : sp.directory.has pl.address .dirty = true) (hf : s.frames.get? f = some fr)
    (hwrite : FileStore.writeAt file.file ((s.pool.bytesAt fr.address).take file.readBytes)
      file.offset s.files = .ok (q, files)) :
    Move .request ⟨s, held⟩ ⟨{ s with files }, held⟩ := by
  obtain ⟨fr', -, hf', ho, -⟩ := h.linked.page_frame (Coherent.pageAt_eq hs hp) hframe
  rw [hf] at hf'
  cases hf'
  exact .request (.writesBack hf ho hs hp hkind hdirty hwrite)

/-- A write-back is due when the page is resident and its entry dirty, and is then one request. -/
theorem writeBackIfDirty_cases (h : Coherent ⟨s, none⟩) {a : VirtualAddress}
    (hs : s.spaces.get? id = some sp) (hp : sp.pages.get? a = some p)
    {r : Except PagerError (Option PagerError)} (run : writeBackIfDirty id a p s = .ok (r, t)) :
    ∃ failure, r = .ok failure ∧
      ((t = s ∧ failure = none ∧ ∀ f file, p.frame = some f → p.kind = .fileBacked file →
          sp.directory.has a .dirty = false) ∨
        ∃ f fr file q files events, p.frame = some f ∧ p.kind = .fileBacked file ∧
          sp.directory.has a .dirty = true ∧ s.frames.get? f = some fr ∧
          FileStore.writeAt file.file ((s.pool.bytesAt fr.address).take file.readBytes)
            file.offset s.files = .ok (q, files) ∧
          Move .request ⟨s, none⟩ ⟨{ s with files }, none⟩ ∧
          failure = FileStore.shortfall file.readBytes q ∧ t = { s with files, events }) := by
  obtain ⟨pl, rfl, rfl⟩ : ∃ pl : Place, id = pl.space ∧ a = pl.address :=
    ⟨⟨id, a.value⟩, rfl, rfl⟩
  unfold writeBackIfDirty at run
  cases hframe : p.frame with
  | none =>
    rw [hframe] at run
    cases run
    exact ⟨none, rfl, .inl ⟨rfl, rfl, fun f _ hf => by cases hf⟩⟩
  | some f =>
    cases hkind : p.kind with
    | fileBacked file =>
      rw [hframe, hkind] at run
      dsimp only at run
      rw [space_bind hs] at run
      cases hdirty : sp.directory.has pl.address .dirty with
      | false =>
        rw [hdirty] at run
        cases run
        exact ⟨none, rfl, .inl ⟨rfl, rfl, fun _ _ _ _ => rfl⟩⟩
      | true =>
        rw [hdirty, if_neg (by decide)] at run
        obtain ⟨fr, hf, run⟩ := addressOfFrame_bind_eq_ok.1 run
        obtain ⟨q, u, htransfer, run⟩ := Action.attempt_bind_eq_ok.1 run
        obtain ⟨e, he⟩ := Directory.exists_entry_of_has hdirty
        have hentry : Pager.entryAt s.spaces pl = some e := (entryAt_of_get? hs pl.key).trans he
        obtain ⟨p', f', hp', -⟩ := h.linked.entry_page hentry
        rw [PageTable.get?_address (h.linked.keyed hp').2] at hp
        obtain ⟨q', files, hwrite, hresult, rfl⟩ := transfer_writeBack h hs hp htransfer
        have hrequest := writeBack_request h hs hp hframe hkind hdirty hf hwrite
        cases q with
        | ok _ =>
          cases run
          refine ⟨none, rfl, .inr ⟨f, fr, file, q', files, s.events, rfl, rfl, rfl, hf, hwrite,
            hrequest, (Transfer.ending_eq_ok.1 hresult.symm).symm, rfl⟩⟩
        | error e =>
          cases run
          refine ⟨some e, rfl, .inr ⟨f, fr, file, q', files, _, rfl, rfl, rfl, hf, hwrite,
            hrequest, (Transfer.ending_eq_error.1 hresult.symm).symm, rfl⟩⟩
    | unpopulated _ =>
      rw [hframe, hkind] at run
      cases run
      exact ⟨none, rfl, .inl ⟨rfl, rfl, fun _ _ _ hk => by cases hk⟩⟩
    | anonymous _ =>
      rw [hframe, hkind] at run
      cases run
      exact ⟨none, rfl, .inl ⟨rfl, rfl, fun _ _ _ hk => by cases hk⟩⟩

/-- What unmapping one page does: nothing, or a write-back if need be and then a removal. -/
theorem unmapPage_cases (h : Coherent ⟨s, none⟩) {a : VirtualAddress} {mapping : MappingId}
    (hs : s.spaces.get? id = some sp) {r : Except PagerError (Option PagerError)}
    (run : unmapPage id mapping a s = .ok (r, t)) :
    ∃ failure, r = .ok failure ∧
      ((t = s ∧ failure = none ∧ ∀ p, sp.pages.get? a = some p → p.mapping ≠ some mapping) ∨
        ∃ p u directory, sp.pages.get? a = some p ∧ p.mapping = some mapping ∧
          writeBackIfDirty id a p s = .ok (.ok failure, u) ∧ u.spaces = s.spaces ∧
          Moves (Label.Retires (.of id a) mapping) ⟨s, none⟩ ⟨u, none⟩ ∧
          remove id a u = .ok (.ok (), t) ∧
          Moves (Label.Retires (.of id a) mapping) ⟨u, none⟩ ⟨t, none⟩ ∧
          t.spaces = s.spaces.insert id { sp with pages := sp.pages.erase a, directory }) := by
  unfold unmapPage at run
  rw [space_bind hs] at run
  cases hp : sp.pages.get? a with
  | none =>
    rw [hp] at run
    cases run
    exact ⟨none, rfl, .inl ⟨rfl, rfl, fun p hp => by cases hp⟩⟩
  | some p =>
    rw [hp] at run
    dsimp only at run
    by_cases hmapping : p.mapping = some mapping
    · rw [if_neg (not_not.2 hmapping)] at run
      rcases Action.bind_eq_ok.1 run with ⟨failure, u, hwrite, run⟩ | ⟨e, hwrite, -⟩
      · obtain ⟨_, hr, hcases⟩ := writeBackIfDirty_cases h hs hp hwrite
        cases hr
        have hback : u.spaces = s.spaces ∧
            Moves (Label.Retires (.of id a) mapping) ⟨s, none⟩ ⟨u, none⟩ := by
          rcases hcases with ⟨rfl, -, -⟩ |
            ⟨f, fr, file, q, files, events, -, -, -, -, -, hrequest, -, rfl⟩
          · exact ⟨rfl, .refl⟩
          · exact ⟨rfl, (Moves.single hrequest trivial).tail (.note s.evictions events) trivial⟩
        obtain ⟨hspaces, hmoves⟩ := hback
        rcases Action.bind_eq_ok.1 run with ⟨_, v, hremove, run⟩ | ⟨e, hremove, -⟩
        · cases run
          obtain ⟨sp', hs', ⟨-, hr, -⟩ | ⟨p', directory, hp', -, hmoves', -, ht⟩⟩ :=
            remove_moves (h.moves hmoves) hremove
          · cases hr
          · rw [hspaces, hs] at hs'
            cases hs'
            rw [hp] at hp'
            cases hp'
            rw [hmapping] at hmoves'
            rw [hspaces] at ht
            exact ⟨failure, rfl, .inr ⟨p, u, directory, rfl, hmapping, hwrite, hspaces, hmoves,
              hremove, hmoves'.mono fun l hl => hl.retires, ht⟩⟩
        · obtain ⟨sp', hs', ⟨hnone, -, -⟩ | ⟨p', directory, -, hr, -⟩⟩ :=
            remove_moves (h.moves hmoves) hremove
          · rw [hspaces, hs] at hs'
            cases hs'
            rw [hp] at hnone
            cases hnone
          · cases hr
      · obtain ⟨_, hr, -⟩ := writeBackIfDirty_cases h hs hp hwrite
        cases hr
    · rw [if_pos hmapping] at run
      cases run
      refine ⟨none, rfl, .inl ⟨rfl, rfl, fun q hq => ?_⟩⟩
      cases hq
      exact hmapping

theorem unmapPage_moves (h : Coherent ⟨s, none⟩) {a : VirtualAddress} {mapping : MappingId}
    (hs : s.spaces.get? id = some sp)
    {r : Except PagerError (Option PagerError)} (run : unmapPage id mapping a s = .ok (r, t)) :
    (∃ failure, r = .ok failure) ∧
      Moves (Label.Retires (.of id a) mapping) ⟨s, none⟩ ⟨t, none⟩ ∧
      ∃ after, t.spaces.get? id = some after := by
  obtain ⟨failure, hr, ⟨rfl, -⟩ | ⟨_, _, _, -, -, -, -, hmoves, -, hmoves', ht⟩⟩ :=
    unmapPage_cases h hs run
  · exact ⟨⟨failure, hr⟩, .refl, sp, hs⟩
  · exact ⟨⟨failure, hr⟩, hmoves.trans hmoves', _, by rw [ht, Table.get?_insert_self]⟩

theorem aligned_of_mem {count : Nat} {addresses : List VirtualAddress}
    (haligned : start.value % pageSize = 0)
    (h : (List.range count).mapM (fun k => start.add (k * pageSize)) = .ok addresses)
    {a : VirtualAddress} (ha : a ∈ addresses) : a.isPageAligned = true := by
  obtain ⟨k, -, ha⟩ := (mem_mapM_iff h).1 ha
  rw [Address.eq_of_add ha]
  simp [Address.isPageAligned, Address.pageOffset, haligned]

/-- The addresses of a mapping are those of the pages in its range. -/
theorem exists_address_iff {count key : Nat} {addresses : List VirtualAddress}
    (haligned : start.value % pageSize = 0)
    (h : (List.range count).mapM (fun k => start.add (k * pageSize)) = .ok addresses)
    (hkey : key % pageSize = 0) :
    (∃ a ∈ addresses, a.pageBase.value = key) ↔
      start.value ≤ key ∧ key < start.value + count * pageSize := by
  have hbase : ∀ k, (start.value + k * pageSize) / pageSize * pageSize =
      start.value + k * pageSize := by
    intro k
    unfold pageSize at *
    omega
  constructor
  · rintro ⟨a, ha, rfl⟩
    obtain ⟨k, hk, ha⟩ := (mem_mapM_iff h).1 ha
    have hlt := List.mem_range.1 hk
    obtain rfl := Address.eq_of_add ha
    rw [Address.pageBase_value, hbase]
    unfold pageSize
    omega
  · intro ⟨hlow, hhigh⟩
    obtain ⟨k, hk, hlt⟩ : ∃ k, key = start.value + k * pageSize ∧ k < count := by
      refine ⟨(key - start.value) / pageSize, ?_, ?_⟩
      all_goals
        unfold pageSize at *
        omega
    obtain ⟨a, ha⟩ := exists_of_mapM h (List.mem_range.2 hlt)
    refine ⟨a, (mem_mapM_iff h).2 ⟨k, List.mem_range.2 hlt, ha⟩, ?_⟩
    rw [Address.eq_of_add ha, Address.pageBase_value, hbase, hk]

/-- Exactly the pages of the mapping among the addresses are gone in the end. -/
theorem unmapPages_cases {addresses : List VirtualAddress} (h : Coherent ⟨s, none⟩)
    {mapping : MappingId} (hs : s.spaces.get? id = some sp)
    {r : Except PagerError (Option PagerError)}
    (run : unmapPages id mapping addresses s = .ok (r, t)) :
    (∃ failure, r = .ok failure) ∧ Moves (Label.Unmaps id mapping) ⟨s, none⟩ ⟨t, none⟩ ∧
      ∃ pages directory, t.spaces = s.spaces.insert id { sp with pages, directory } ∧
        ∀ key p, pages.pages.get? key = some p ↔ sp.pages.pages.get? key = some p ∧
          ¬ (p.mapping = some mapping ∧ ∃ a ∈ addresses, a.pageBase.value = key) := by
  induction addresses generalizing s sp r with
  | nil =>
    cases run
    refine ⟨⟨none, rfl⟩, .refl, sp.pages, sp.directory, (Table.insert_of_get? hs).symm, ?_⟩
    intro key p
    simp
  | cons a rest ih =>
    unfold unmapPages at run
    rcases Action.bind_eq_ok.1 run with ⟨failure, u, hpage, hnext⟩ | ⟨e, hpage, -⟩
    · obtain ⟨_, -, ⟨rfl, -, hother⟩ |
        ⟨p, v, directory, hp, hmapping, -, -, hmoves, -, hmoves', ht⟩⟩ := unmapPage_cases h hs hpage
      · rcases Action.bind_eq_ok.1 hnext with ⟨later, w, hrest, hlast⟩ | ⟨e, hrest, rfl⟩
        · cases hlast
          obtain ⟨-, hmoves, pages, directory, ht, hpages⟩ := ih h hs hrest
          refine ⟨⟨_, rfl⟩, hmoves, pages, directory, ht, fun key p => ?_⟩
          rw [hpages]
          refine and_congr_right fun hp => not_congr (and_congr_right fun hm => ?_)
          have hne : a.pageBase.value ≠ key := by
            rintro rfl
            exact hother p hp hm
          simp [hne]
        · obtain ⟨⟨_, hr⟩, -⟩ := ih h hs hrest
          cases hr
      · have hfirst := (hmoves.trans hmoves').mono fun l hl => hl.unmaps
        have hu : u.spaces.get? id = some { sp with pages := sp.pages.erase a, directory } := by
          rw [ht, Table.get?_insert_self]
        rcases Action.bind_eq_ok.1 hnext with ⟨later, w, hrest, hlast⟩ | ⟨e, hrest, rfl⟩
        · cases hlast
          obtain ⟨-, hmoves, pages, directory, ht', hpages⟩ := ih (h.moves hfirst) hu hrest
          refine ⟨⟨_, rfl⟩, hfirst.trans hmoves, pages, directory, ?_, fun key q => ?_⟩
          · rw [ht', ht, Table.insert_insert]
          · rw [hpages]
            have herase : (sp.pages.erase a).pages.get? key =
                if key = a.pageBase.value then none else sp.pages.pages.get? key :=
              Table.get?_erase ..
            by_cases hkey : key = a.pageBase.value
            · subst hkey
              have hself : ∀ q, sp.pages.pages.get? a.pageBase.value = some q →
                  q.mapping = some mapping := by
                intro q hq
                rw [show sp.pages.pages.get? a.pageBase.value = some p from hp] at hq
                cases hq
                exact hmapping
              rw [herase, if_pos rfl]
              refine ⟨fun hq => by (cases hq.1), fun ⟨hq, hcon⟩ => ?_⟩
              exact absurd ⟨hself q hq, a, List.mem_cons_self .., rfl⟩ hcon
            · rw [herase, if_neg hkey]
              simp [Ne.symm hkey]
        · obtain ⟨⟨_, hr⟩, -⟩ := ih (h.moves hfirst) hu hrest
          cases hr
    · obtain ⟨_, hr, -⟩ := unmapPage_cases h hs hpage
      cases hr

/-- Whatever becomes of the first page, the others have their turn. -/
theorem unmapPages_cons {a : VirtualAddress} {rest : List VirtualAddress} {mapping : MappingId}
    (h : Coherent ⟨s, none⟩) (hs : s.spaces.get? id = some sp)
    {r : Except PagerError (Option PagerError)}
    (run : unmapPages id mapping (a :: rest) s = .ok (r, t)) :
    ∃ failure later u, unmapPage id mapping a s = .ok (.ok failure, u) ∧
      unmapPages id mapping rest u = .ok (.ok later, t) ∧ r = .ok (failure.or later) := by
  unfold unmapPages at run
  rcases Action.bind_eq_ok.1 run with ⟨failure, u, hpage, hnext⟩ | ⟨_, hpage, -⟩
  · obtain ⟨-, hmoves, after, hu⟩ := unmapPage_moves h hs hpage
    rcases Action.bind_eq_ok.1 hnext with ⟨later, w, hrest, hlast⟩ | ⟨_, hrest, -⟩
    · cases hlast
      exact ⟨failure, later, u, hpage, hrest, by cases failure <;> rfl⟩
    · obtain ⟨⟨_, hr⟩, -⟩ := unmapPages_cases (h.moves hmoves) hu hrest
      cases hr
  · obtain ⟨⟨_, hr⟩, -⟩ := unmapPage_moves h hs hpage
    cases hr

/-- Unmapping gives up the record and then the pages that carry its number. -/
theorem munmap_cases (h : Coherent ⟨s, none⟩) {r : Except PagerError Unit}
    (run : munmap id start s = .ok (r, t)) :
    ∃ sp, s.spaces.get? id = some sp ∧
      ((sp.mappings.get? start.value = none ∧ r = .error .notMapped ∧ t = s) ∨
        ∃ mapping failure addresses u v events, sp.mappings.get? start.value = some mapping ∧
          (List.range mapping.pages).mapM (fun k => start.add (k * pageSize)) = .ok addresses ∧
          Move (.unrecord id start.value) ⟨s, none⟩ ⟨u, none⟩ ∧
          u.spaces.get? id = some { sp with mappings := sp.mappings.erase start.value } ∧
          unmapPages id mapping.id addresses u = .ok (.ok failure, v) ∧
          t = { v with events } ∧ r = Transfer.ending failure) := by
  unfold munmap at run
  obtain ⟨sp, hs, run⟩ := space_bind_eq_ok.1 run
  refine ⟨sp, hs, ?_⟩
  cases hmapping : sp.mappings.get? start.value with
  | none =>
    rw [hmapping] at run
    cases run
    exact .inl ⟨rfl, rfl, rfl⟩
  | some mapping =>
    rw [hmapping] at run
    dsimp only at run
    rw [modifySpace_bind, Table.modify_eq_insert hs] at run
    have hunrecord : Move (.unrecord id start.value) ⟨s, none⟩ _ := .unrecord hs start.value
    rw [Action.mapM_liftM] at run
    obtain ⟨addresses, haddresses, run⟩ := Action.liftM_bind_eq_ok.1 run
    have hget := Table.get?_insert_self s.spaces id
      { sp with mappings := sp.mappings.erase start.value }
    rcases Action.bind_eq_ok.1 run with ⟨failure, v, hpages, hnext⟩ | ⟨e, hpages, -⟩
    · refine .inr ⟨mapping, failure, addresses, _, v, .unmapped mapping.id start :: v.events, rfl,
        haddresses, hunrecord, hget, hpages, ?_⟩
      rw [report_bind] at hnext
      cases failure with
      | none =>
        cases hnext
        exact ⟨rfl, rfl⟩
      | some e =>
        cases hnext
        exact ⟨rfl, rfl⟩
    · obtain ⟨⟨_, hr⟩, -⟩ := unmapPages_cases (h.move hunrecord) hget hpages
      cases hr

theorem munmap_moves (h : Coherent ⟨s, none⟩) {r : Except PagerError Unit}
    (run : munmap id start s = .ok (r, t)) :
    Moves (Label.Dismantles id) ⟨s, none⟩ ⟨t, none⟩ ∧
      ∃ sp, s.spaces.get? id = some sp ∧
        ((sp.mappings.get? start.value = none ∧ r = .error .notMapped ∧ t = s) ∨
          ∃ mapping addresses pages directory, sp.mappings.get? start.value = some mapping ∧
            (List.range mapping.pages).mapM (fun k => start.add (k * pageSize)) = .ok addresses ∧
            t.spaces = s.spaces.insert id
              { sp with pages, directory, mappings := sp.mappings.erase start.value } ∧
            ∀ key p, pages.pages.get? key = some p ↔ sp.pages.pages.get? key = some p ∧
              ¬ (p.mapping = some mapping.id ∧ ∃ a ∈ addresses, a.pageBase.value = key)) := by
  obtain ⟨sp, hs, ⟨hnone, rfl, rfl⟩ |
    ⟨mapping, failure, addresses, u, v, events, hmapping, haddresses, hunrecord, hu, hpages, rfl,
      -⟩⟩ := munmap_cases h run
  · exact ⟨.refl, sp, hs, .inl ⟨hnone, rfl, rfl⟩⟩
  · obtain ⟨-, hmoves, pages, directory, ht, hchar⟩ :=
      unmapPages_cases (h.move hunrecord) hu hpages
    have hfirst : Moves (Label.Dismantles id) ⟨s, none⟩ ⟨u, none⟩ := .single hunrecord rfl
    have hrest := hfirst.trans (hmoves.mono fun l hl => hl.dismantles)
    refine ⟨hrest.tail (.note v.evictions events) trivial, sp, hs,
      .inr ⟨mapping, addresses, pages, directory, hmapping, haddresses, ?_, hchar⟩⟩
    cases hunrecord
    rename_i sp' hs'
    rw [hs] at hs'
    cases hs'
    rw [ht, Table.insert_insert]

end Machine
end Pager
