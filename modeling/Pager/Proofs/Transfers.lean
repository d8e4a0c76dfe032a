import Pager.Page.Transfer
import Pager.Proofs.SlotStore
import Mathlib.Logic.Relation

/-!
What a transfer can change. Filling a frame leaves the page and the swap disk
alone until it has succeeded, and moving a page out leaves the frame alone; the
files see reads and writes and nothing else. A transfer never changes anything
of a page but its kind.
-/
namespace Pager

open Function

namespace FileStore

/-- One read of a file, carried out or refused. -/
def Fetch (store after : FileStore) : Prop :=
  ∃ handle count offset r, readAt handle count offset store = .ok (r, after)

/-- One read or write of a file, carried out or refused. -/
def Request (store after : FileStore) : Prop :=
  Fetch store after ∨ ∃ handle bytes offset r, writeAt handle bytes offset store = .ok (r, after)

/-- Reads of files, one after the other. -/
def Fetches : FileStore → FileStore → Prop := Relation.ReflTransGen Fetch

/-- Reads and writes of files, one after the other. -/
def Traffic : FileStore → FileStore → Prop := Relation.ReflTransGen Request

/-- What a caller does with the handles it holds. -/
inductive Handled (store : FileStore) : FileStore → Prop
  | opened {handle : Handle} {r : Except StoreError Handle} {after : FileStore}
      (run : hold handle store = .ok (r, after)) : Handled store after
  | closed (handle : Handle) : Handled store (store.drop handle)
  | wrote {handle : Handle} {bytes : Bytes} {offset : Nat} {r : Except StoreError Nat}
      {after : FileStore} (mem : handle ∈ store.held)
      (run : writeAt handle bytes offset store = .ok (r, after)) : Handled store after
  | switched (file : Nat) (switches : FileSwitches) :
      Handled store (store.update file (·.switch switches))

/-- What is wrong with a write that was to take so many bytes. -/
def shortfall (count : Nat) : Except StoreError Nat → Option PagerError
  | .error e => some (.store e)
  | .ok taken => if taken = count then none else some (.store .shortWrite)

@[simp] theorem shortfall_eq_none {count : Nat} {q : Except StoreError Nat} :
    shortfall count q = none ↔ q = .ok count := by
  cases q with
  | error e => simp [shortfall]
  | ok taken => simp [shortfall]

/-- A read of no file fails; any other leaves the store with what it makes of the file. -/
theorem readAt_eq (store : FileStore) (handle : Handle) (count offset : Nat) :
    readAt handle count offset store = .ok (match store.file? handle with
      | none => (.error .device, store)
      | some file => ((file.readAt count offset).2,
          store.update handle.file fun _ => (file.readAt count offset).1)) := by
  unfold readAt
  rw [Action.get_bind]
  cases store.file? handle <;> rfl

/-- A write to no file fails and is no call; any other is noted with what came of it. -/
theorem writeAt_eq (store : FileStore) (handle : Handle) (bytes : Bytes) (offset : Nat) :
    writeAt handle bytes offset store = .ok (match store.file? handle with
      | none => (.error .device, store)
      | some file => ((file.writeAt bytes offset).2,
          { store.update handle.file fun _ => (file.writeAt bytes offset).1 with
            calls := ⟨handle, offset, bytes, (file.writeAt bytes offset).2⟩ :: store.calls })) := by
  unfold writeAt
  rw [Action.get_bind]
  cases store.file? handle <;> rfl

/-- A file that is opened once more gets the next serial, unless it refuses or is none. -/
theorem reopen_eq (store : FileStore) (handle : Handle) :
    reopen handle store = .ok (match store.file? handle with
      | none => (.error .device, store)
      | some file => if file.failReopen then (.error .device, store)
          else (.ok ⟨handle.file, store.nextSerial⟩,
            { store with nextSerial := store.nextSerial + 1 })) := by
  unfold reopen
  rw [Action.get_bind]
  cases store.file? handle with
  | none => rfl
  | some file =>
    dsimp only
    split <;> rfl

theorem readAt_cases {store after : FileStore} {handle : Handle} {count offset : Nat}
    {r : Except StoreError Bytes} (h : readAt handle count offset store = .ok (r, after)) :
    (store.file? handle = none ∧ r = .error .device ∧ after = store) ∨
      ∃ file, store.file? handle = some file ∧ r = (file.readAt count offset).2 ∧
        after = store.update handle.file fun _ => (file.readAt count offset).1 := by
  rw [readAt_eq] at h
  cases hfile : store.file? handle with
  | none =>
    rw [hfile] at h
    cases h
    exact .inl ⟨rfl, rfl, rfl⟩
  | some file =>
    rw [hfile] at h
    cases h
    exact .inr ⟨file, rfl, rfl, rfl⟩

theorem writeAt_cases {store after : FileStore} {handle : Handle} {bytes : Bytes} {offset : Nat}
    {r : Except StoreError Nat} (h : writeAt handle bytes offset store = .ok (r, after)) :
    (store.file? handle = none ∧ r = .error .device ∧ after = store) ∨
      ∃ file, store.file? handle = some file ∧ r = (file.writeAt bytes offset).2 ∧
        after = { store.update handle.file fun _ => (file.writeAt bytes offset).1 with
          calls := ⟨handle, offset, bytes, r⟩ :: store.calls } := by
  rw [writeAt_eq] at h
  cases hfile : store.file? handle with
  | none =>
    rw [hfile] at h
    cases h
    exact .inl ⟨rfl, rfl, rfl⟩
  | some file =>
    rw [hfile] at h
    cases h
    exact .inr ⟨file, rfl, rfl, rfl⟩

/-- What is wrong with a write is the store's fault. -/
theorem shortfall_eq_some {count : Nat} {q : Except StoreError Nat} {e : PagerError}
    (h : shortfall count q = some e) : ∃ cause, e = .store cause := by
  cases q with
  | error cause =>
    cases h
    exact ⟨cause, rfl⟩
  | ok taken =>
    dsimp only [shortfall] at h
    by_cases htaken : taken = count
    · rw [if_pos htaken] at h
      cases h
    · rw [if_neg htaken] at h
      cases h
      exact ⟨_, rfl⟩

theorem Fetches.refl {store : FileStore} : Fetches store store := Relation.ReflTransGen.refl

theorem Fetches.of_readAt {store after : FileStore} {handle : Handle} {count offset : Nat}
    {r : Except StoreError Bytes} (h : readAt handle count offset store = .ok (r, after)) :
    Fetches store after := .single ⟨handle, count, offset, r, h⟩

theorem Fetches.traffic {store after : FileStore} (h : Fetches store after) :
    Traffic store after := Relation.ReflTransGen.mono (fun _ _ => .inl) _ _ h

theorem Traffic.refl {store : FileStore} : Traffic store store := Relation.ReflTransGen.refl

theorem Traffic.trans {store middle after : FileStore} (h : Traffic store middle)
    (h' : Traffic middle after) : Traffic store after := Relation.ReflTransGen.trans h h'

theorem Traffic.of_writeAt {store after : FileStore} {handle : Handle} {bytes : Bytes}
    {offset : Nat} {r : Except StoreError Nat}
    (h : writeAt handle bytes offset store = .ok (r, after)) :
    Traffic store after := .single (.inr ⟨handle, bytes, offset, r, h⟩)

end FileStore

/-- The page was never populated, and its initializer may fail for this reason. -/
def Page.Answers (p : Page) (e : PagerError) : Prop :=
  ∃ page fill bytes, p.kind = .unpopulated page ∧ page.initializer = .computed fill ∧
    fill page.slice bytes = .error e

/-- What can keep a page from being filled into a frame: its own initializer, that it has no file,
or a device. -/
def Page.Fails (p : Page) (e : PagerError) : Prop :=
  p.Answers e ∨ e = .noBackingFile ∨ ∃ cause, e = .store cause

namespace Transfer

variable {t u : Transfer} {r : Except PagerError Unit} {α : Type}

theorem onFiles_eq_ok {m : Action FileStore StoreError α} {r : Except PagerError α} :
    onFiles m t = .ok (r, u) ↔
      ∃ q files, m t.files = .ok (q, files) ∧ r = q.mapError .store ∧ u = { t with files } := by
  unfold onFiles
  rw [Action.within_eq_ok]
  constructor
  · rintro ⟨files, hm, rfl⟩
    obtain ⟨q, hq, rfl⟩ := Action.mapError_eq_ok.1 hm
    exact ⟨q, files, hq, rfl, rfl⟩
  · rintro ⟨q, files, hq, rfl, rfl⟩
    exact ⟨files, Action.mapError_eq_ok.2 ⟨q, hq, rfl⟩, rfl⟩

/-- Nothing but the frame and the files has changed. -/
structure Drafted (t u : Transfer) : Prop where
  page : u.page = t.page
  swap : u.swap = t.swap
  length : u.frame.length = t.frame.length
  files : FileStore.Fetches t.files u.files

theorem Drafted.refl : Drafted t t := ⟨rfl, rfl, rfl, .refl⟩

/-- How a read of a file into the frame ends. Bytes that came short are left in the frame. -/
inductive Loads (file : Handle) (offset count : Nat) (t : Transfer) :
    Except PagerError Unit → Transfer → Prop
  | refused {cause : StoreError} {files : FileStore}
      (read : FileStore.readAt file count offset t.files = .ok (.error cause, files)) :
      Loads file offset count t (.error (.store cause)) { t with files }
  | short {bytes : Bytes} {files : FileStore}
      (read : FileStore.readAt file count offset t.files = .ok (.ok bytes, files))
      (missing : bytes.length ≠ count) :
      Loads file offset count t (.error (.store .shortRead))
        { t with frame := t.frame.overlay 0 bytes, files }
  | full {bytes : Bytes} {files : FileStore}
      (read : FileStore.readAt file count offset t.files = .ok (.ok bytes, files))
      (length : bytes.length = count) (fits : count ≤ t.frame.length) :
      Loads file offset count t (.ok ())
        { t with frame := (t.frame.overlay 0 bytes).clearFrom count, files }

theorem load_loads {file : Handle} {offset count : Nat}
    (h : load file offset count t = .ok (r, u)) : Loads file offset count t r u := by
  unfold load at h
  rw [Action.get_bind] at h
  dsimp only at h
  by_cases hfits : t.frame.length < count
  · rw [if_pos hfits] at h
    cases h
  rw [if_neg hfits] at h
  rcases Action.bind_eq_ok.1 h with ⟨bytes, read, hread, h⟩ | ⟨e, hread, rfl⟩
  · obtain ⟨q, files, hq, hbytes, rfl⟩ := onFiles_eq_ok.1 hread
    cases q with
    | error cause => cases hbytes
    | ok found =>
      cases hbytes
      rw [setFrame, Action.modify_bind] at h
      by_cases hlength : bytes.length = count
      · rw [if_neg (not_not.2 hlength)] at h
        cases h
        exact .full hq hlength (Nat.le_of_not_lt hfits)
      · rw [if_pos hlength] at h
        cases h
        exact .short hq hlength
  · obtain ⟨q, files, hq, he, rfl⟩ := onFiles_eq_ok.1 hread
    cases q with
    | ok bytes => cases he
    | error cause =>
      cases he
      exact .refused hq

theorem load_drafted {file : Handle} {offset count : Nat}
    (h : load file offset count t = .ok (r, u)) : Drafted t u := by
  cases load_loads h with
  | refused read => exact ⟨rfl, rfl, rfl, .of_readAt read⟩
  | short read => exact ⟨rfl, rfl, Bytes.length_overlay .., .of_readAt read⟩
  | full read => exact ⟨rfl, rfl, by simp, .of_readAt read⟩

theorem load_inits {file : Handle} {offset count : Nat}
    (h : load file offset count t = .ok (r, u)) : u.inits = t.inits := by
  cases load_loads h <;> rfl

theorem load_error {file : Handle} {offset count : Nat} {e : PagerError}
    (h : load file offset count t = .ok (.error e, u)) : ∃ cause, e = .store cause := by
  cases load_loads h <;> exact ⟨_, rfl⟩

theorem initFrame_fileSlice (slice : LoadSlice) : initFrame .fileSlice slice = loadSlice slice := rfl

/-- How an initializer ends. -/
inductive Initializes (slice : LoadSlice) (t : Transfer) :
    Initializer → Except PagerError Unit → Transfer → Prop
  | zeros : Initializes slice t .zeros (.ok ()) { t with frame := .zeros t.frame.length }
  | homeless (missing : slice.file = none) :
      Initializes slice t .fileSlice (.error .noBackingFile) t
  | sliced {file : Handle} {r : Except PagerError Unit} {u : Transfer}
      (found : slice.file = some file)
      (loads : load file slice.offset slice.readBytes t = .ok (r, u)) :
      Initializes slice t .fileSlice r u
  | computed {byteAt : LoadSlice → Bytes → Except PagerError (Nat → UInt8)} {bytes : Nat → UInt8}
      (computes : byteAt slice t.frame = .ok bytes) :
      Initializes slice t (.computed byteAt) (.ok ()) { t with frame := t.frame.refill bytes }
  | failed {byteAt : LoadSlice → Bytes → Except PagerError (Nat → UInt8)} {e : PagerError}
      (computes : byteAt slice t.frame = .error e) :
      Initializes slice t (.computed byteAt) (.error e) t

theorem initFrame_initializes {init : Initializer} {slice : LoadSlice}
    (h : initFrame init slice t = .ok (r, u)) : Initializes slice t init r u := by
  unfold initFrame at h
  rw [Action.get_bind] at h
  cases init with
  | zeros =>
    cases h
    exact .zeros
  | fileSlice =>
    dsimp only [loadSlice] at h
    cases hf : slice.file with
    | none =>
      rw [hf] at h
      cases h
      exact .homeless hf
    | some file =>
      rw [hf] at h
      exact .sliced hf h
  | computed byteAt =>
    dsimp only at h
    cases hb : byteAt slice t.frame with
    | error e =>
      rw [hb] at h
      cases h
      exact .failed hb
    | ok bytes =>
      rw [hb] at h
      cases h
      exact .computed hb

theorem initFrame_drafted {init : Initializer} {slice : LoadSlice}
    (h : initFrame init slice t = .ok (r, u)) : Drafted t u ∧ u.inits = t.inits := by
  cases initFrame_initializes h with
  | zeros => exact ⟨⟨rfl, rfl, Bytes.length_zeros _, .refl⟩, rfl⟩
  | homeless => exact ⟨.refl, rfl⟩
  | sliced _ loads => exact ⟨load_drafted loads, load_inits loads⟩
  | computed => exact ⟨⟨rfl, rfl, Bytes.length_refill .., .refl⟩, rfl⟩
  | failed => exact ⟨.refl, rfl⟩

/-- Running an initializer is what it does to the frame, and an entry in the account. -/
theorem fill_eq_ok {init : Initializer} {slice : LoadSlice} :
    fill init slice t = .ok (r, u) ↔ ∃ v, initFrame init slice t = .ok (r, v) ∧
      u = { v with inits := { init, slice, outcome := r } :: v.inits } := by
  unfold fill
  rw [Action.attempt_bind_eq_ok]
  constructor
  · rintro ⟨q, v, hv, h⟩
    rw [Action.modify_bind] at h
    cases h
    exact ⟨v, hv, rfl⟩
  · rintro ⟨v, hv, rfl⟩
    exact ⟨r, v, hv, by rw [Action.modify_bind]; rfl⟩

theorem fill_drafted {init : Initializer} {slice : LoadSlice}
    (h : fill init slice t = .ok (r, u)) : Drafted t u := by
  obtain ⟨v, hv, rfl⟩ := fill_eq_ok.1 h
  have hdrafted := (initFrame_drafted hv).1
  exact ⟨hdrafted.page, hdrafted.swap, hdrafted.length, hdrafted.files⟩

theorem fill_inits {init : Initializer} {slice : LoadSlice}
    (h : fill init slice t = .ok (r, u)) :
    u.inits = { init, slice, outcome := r } :: t.inits := by
  obtain ⟨v, hv, rfl⟩ := fill_eq_ok.1 h
  exact congrArg _ (initFrame_drafted hv).2

/-- What a page and its frame look like after a transfer into the frame. -/
inductive Populated (t : Transfer) : Transfer → Prop
  /-- The initializer ran for the first and only time. -/
  | first {page : Unpopulated} {filled : Transfer} {kind : PageKind}
      (unpopulated : t.page.kind = .unpopulated page)
      (fills : fill page.initializer page.slice t = .ok (.ok (), filled))
      (becomes : page.populated = .ok kind) :
      Populated t { filled with page := { filled.page with kind } }
  | blank (kind : t.page.kind = .anonymous none) :
      Populated t { t with frame := .zeros t.frame.length }
  | back {slot : SwapSlot} {swap : SwapTable} (kind : t.page.kind = .anonymous (some slot))
      (released : t.swap.release slot = .ok swap) :
      Populated t {
        page := { t.page with kind := .anonymous none }
        frame := t.swap.stored slot
        swap
        files := t.files
        inits := t.inits }
  | reload {file : FileBacking} {u : Transfer} (kind : t.page.kind = .fileBacked file)
      (loaded : load file.file file.offset file.readBytes t = .ok (.ok (), u)) :
      Populated t u

/-- How filling the frame with a page ends. -/
inductive Populates (t : Transfer) : Except PagerError Unit → Transfer → Prop
  | unfilled {page : Unpopulated} {e : PagerError} {u : Transfer}
      (unpopulated : t.page.kind = .unpopulated page)
      (fills : fill page.initializer page.slice t = .ok (.error e, u)) : Populates t (.error e) u
  /-- The initializer did what it was to do, but the page is to be one of a file and has none. -/
  | homeless {page : Unpopulated} {e : PagerError} {u : Transfer}
      (unpopulated : t.page.kind = .unpopulated page)
      (fills : fill page.initializer page.slice t = .ok (.ok (), u))
      (becomes : page.populated = .error e) : Populates t (.error e) u
  | unread {slot : SwapSlot} {cause : StoreError} {frame : Bytes}
      (kind : t.page.kind = .anonymous (some slot)) (length : frame.length = pageSize) :
      Populates t (.error (.store cause)) { t with frame }
  | unloaded {file : FileBacking} {e : PagerError} {u : Transfer}
      (kind : t.page.kind = .fileBacked file)
      (loaded : load file.file file.offset file.readBytes t = .ok (.error e, u)) :
      Populates t (.error e) u
  | populated {u : Transfer} (populated : Populated t u) : Populates t (.ok ()) u

theorem populate_populates (hs : t.swap.Sound) (h : populate t = .ok (r, u)) :
    Populates t r u := by
  unfold populate at h
  rw [Action.get_bind] at h
  cases hk : t.page.kind with
  | unpopulated page =>
    rw [hk] at h
    dsimp only at h
    rcases Action.bind_eq_ok.1 h with ⟨_, filled, hfill, h⟩ | ⟨e, hfill, rfl⟩
    · rcases Action.ofResult_bind_eq_ok.1 h with ⟨kind, hkind, h⟩ | ⟨e, he, rfl, rfl⟩
      · cases h
        exact .populated (.first hk hfill hkind)
      · exact .homeless hk hfill he
    · exact .unfilled hk hfill
  | anonymous slot =>
    rw [hk] at h
    cases slot with
    | none =>
      cases h
      exact .populated (.blank hk)
    | some slot =>
      dsimp only at h
      rcases Action.bind_eq_ok.1 h with ⟨⟨bytes, result⟩, read, hin, h⟩ | ⟨e, hin, -⟩
      · obtain ⟨swap, hrun, rfl⟩ := Action.within_eq_ok.1 hin
        obtain ⟨_, _, hr, hlen, hcase⟩ := SwapTable.swapIn_spec hs hrun
        cases hr
        dsimp only at h
        rw [setFrame, Action.modify_bind] at h
        rcases hcase with ⟨e, rfl, rfl⟩ | ⟨rfl, hrel, rfl⟩
        · cases h
          exact .unread hk hlen
        · cases h
          exact .populated (.back hk hrel)
      · obtain ⟨swap, hrun, rfl⟩ := Action.within_eq_ok.1 hin
        obtain ⟨_, _, hr, -⟩ := SwapTable.swapIn_spec hs hrun
        cases hr
  | fileBacked file =>
    rw [hk] at h
    cases r with
    | ok _ => exact .populated (.reload hk h)
    | error e => exact .unloaded hk h

theorem populate_eq_ok (hs : t.swap.Sound) (hf : t.frame.length = pageSize)
    (h : populate t = .ok (r, u)) :
    (r = .ok () ∧ Populated t u) ∨ ∃ e, r = .error e ∧ Drafted t u := by
  cases populate_populates hs h with
  | unfilled _ fills => exact .inr ⟨_, rfl, fill_drafted fills⟩
  | homeless _ fills => exact .inr ⟨_, rfl, fill_drafted fills⟩
  | unread _ length => exact .inr ⟨_, rfl, rfl, rfl, length.trans hf.symm, .refl⟩
  | unloaded _ loaded => exact .inr ⟨_, rfl, load_drafted loaded⟩
  | populated populated => exact .inl ⟨rfl, populated⟩

/-- Only a page that was never populated has an initializer run for it: its own, once, with what
it was told. The page may still fail to turn into what it is to be. -/
theorem populate_inits (hs : t.swap.Sound) (h : populate t = .ok (r, u)) :
    (∃ page outcome, t.page.kind = .unpopulated page ∧
        u.inits = ⟨page.initializer, page.slice, outcome⟩ :: t.inits ∧
        (r = outcome ∨ outcome = .ok () ∧ ∃ e, page.populated = .error e ∧ r = .error e)) ∨
      t.page.isInitialized = true ∧ u.inits = t.inits := by
  cases populate_populates hs h with
  | unfilled hk fills => exact .inl ⟨_, _, hk, fill_inits fills, .inl rfl⟩
  | homeless hk fills becomes =>
    exact .inl ⟨_, _, hk, fill_inits fills, .inr ⟨rfl, _, becomes, rfl⟩⟩
  | unread hk => exact .inr ⟨by simp only [Page.isInitialized, hk], rfl⟩
  | unloaded hk loaded => exact .inr ⟨by simp only [Page.isInitialized, hk], load_inits loaded⟩
  | populated populated =>
    cases populated with
    | first hk fills =>
      have hinits := fill_inits fills
      exact .inl ⟨_, _, hk, hinits, .inl rfl⟩
    | blank hk => exact .inr ⟨by simp only [Page.isInitialized, hk], rfl⟩
    | back hk => exact .inr ⟨by simp only [Page.isInitialized, hk], rfl⟩
    | reload hk loaded => exact .inr ⟨by simp only [Page.isInitialized, hk], load_inits loaded⟩

theorem populate_error (hs : t.swap.Sound) {e : PagerError} (h : populate t = .ok (.error e, u)) :
    t.page.Fails e := by
  cases populate_populates hs h with
  | @unfilled page _ _ hk fills =>
    obtain ⟨v, hrun, -⟩ := fill_eq_ok.1 fills
    generalize hinit : page.initializer = init at hrun
    cases initFrame_initializes hrun with
    | homeless => exact .inr (.inl rfl)
    | sliced _ loads => exact .inr (.inr (load_error loads))
    | @failed byteAt _ computes => exact .inl ⟨page, byteAt, t.frame, hk, hinit, computes⟩
  | homeless hk _ becomes =>
    unfold Unpopulated.populated at becomes
    split at becomes <;> cases becomes
    exact .inr (.inl rfl)
  | unread => exact .inr (.inr ⟨_, rfl⟩)
  | unloaded _ loaded => exact .inr (.inr (load_error loaded))

/-- Nothing but the kind of a page is touched, and the kind keeps its type. A page that will be
anonymous forgets a mapping, which it has none of. -/
structure SamePage (p q : Page) : Prop where
  address : q.address = p.address
  writable : q.writable = p.writable
  stack : q.stack = p.stack
  frame : q.frame = p.frame
  type : q.type = p.type
  keeps : p.type = .fileBacked → q.mapping = p.mapping
  adds : q.mapping.isSome = true → q.mapping = p.mapping

theorem SamePage.refl {p : Page} : SamePage p p :=
  ⟨rfl, rfl, rfl, rfl, rfl, fun _ => rfl, fun _ => rfl⟩

/-- An anonymous page records another slot, or none. -/
theorem SamePage.slot {p : Page} {old : Option SwapSlot} (h : p.kind = .anonymous old)
    (new : Option SwapSlot) : SamePage p { p with kind := .anonymous new } := by
  refine ⟨rfl, rfl, rfl, rfl, ?_, fun hp => ?_, fun hp => ?_⟩
  · simp only [Page.type, h]
  · simp [Page.type, h] at hp
  · cases hp

theorem SamePage.mapping {p q : Page} (h : SamePage p q)
    (hp : p.mapping.isSome = true → p.type = .fileBacked) : q.mapping = p.mapping := by
  cases hm : p.mapping with
  | some id => rw [h.keeps (hp (by rw [hm]; rfl)), hm]
  | none =>
    cases hq : q.mapping with
    | none => rfl
    | some id =>
      have hsame := h.adds (by rw [hq]; rfl)
      rw [hq, hm] at hsame
      exact hsame

theorem SamePage.of_mapping {p q : Page} (h : SamePage p q) {mapping : MappingId}
    (hq : q.mapping = some mapping) : p.mapping = some mapping := by
  have hsame := h.adds (by rw [hq]; rfl)
  exact hsame.symm.trans hq

theorem populated_kind {page : Unpopulated} {kind : PageKind} (h : page.populated = .ok kind) :
    (page.target = .anonymous ∧ kind = .anonymous none) ∨
      page.target = .fileBacked ∧ ∃ file, page.slice.file = some file ∧ kind = .fileBacked {
        file
        offset := page.slice.offset
        readBytes := page.slice.readBytes
        mapping := page.mapping } := by
  unfold Unpopulated.populated at h
  cases ht : page.target with
  | anonymous =>
    rw [ht] at h
    cases h
    exact .inl ⟨rfl, rfl⟩
  | fileBacked =>
    rw [ht] at h
    cases hf : page.slice.file with
    | none =>
      rw [hf] at h
      cases h
    | some file =>
      rw [hf] at h
      cases h
      exact .inr ⟨rfl, file, rfl, rfl⟩

/-- A populated page is initialized and has given up its slot. -/
theorem Populated.spec (h : Populated t u) (hs : t.swap.Sound) (hf : t.frame.length = pageSize) :
    SamePage t.page u.page ∧ u.page.isInitialized = true ∧ u.page.slot = none ∧
      u.frame.length = pageSize ∧ FileStore.Fetches t.files u.files ∧
      ((t.page.slot = none ∧ u.swap = t.swap) ∨
        ∃ n, t.page.slot = some n ∧ t.swap.release n = .ok u.swap) := by
  cases h with
  | @first page filled kind hk hfill hkind =>
    have hd := fill_drafted hfill
    have hslot : t.page.slot = none := by simp [Page.slot, hk]
    refine ⟨?_, ?_, ?_, hd.length.trans hf, hd.files, .inl ⟨hslot, hd.swap⟩⟩
    · rw [hd.page]
      rcases populated_kind hkind with ⟨ht, rfl⟩ | ⟨ht, file, -, rfl⟩
      · refine ⟨rfl, rfl, rfl, rfl, by simp [Page.type, hk, ht], fun h => ?_, fun h => ?_⟩
        · simp [Page.type, hk, ht] at h
        · cases h
      · have hmapping : t.page.mapping = page.mapping := by simp [Page.mapping, hk]
        exact ⟨rfl, rfl, rfl, rfl, by simp [Page.type, hk, ht], fun _ => hmapping.symm,
          fun _ => hmapping.symm⟩
    · rcases populated_kind hkind with ⟨-, rfl⟩ | ⟨-, file, -, rfl⟩ <;> rfl
    · rcases populated_kind hkind with ⟨-, rfl⟩ | ⟨-, file, -, rfl⟩ <;> rfl
  | blank hk =>
    have hslot : t.page.slot = none := by simp [Page.slot, hk]
    exact ⟨.refl, by simp [Page.isInitialized, hk], hslot, by simpa using hf, .refl,
      .inl ⟨hslot, rfl⟩⟩
  | @back n swap hk hrel =>
    have hslot : t.page.slot = some n := by simp only [Page.slot, hk]
    have hlt := SwapTable.lt_of_isUsed (SwapTable.release_spec hs hrel).2.1
    exact ⟨.slot hk none, rfl, rfl, hs.length_stored hlt, .refl, .inr ⟨_, hslot, hrel⟩⟩
  | reload hk hload =>
    have hd := load_drafted hload
    have hslot : t.page.slot = none := by simp [Page.slot, hk]
    rw [hd.page]
    exact ⟨.refl, by simp [Page.isInitialized, hk], hslot, hd.length.trans hf, hd.files,
      .inl ⟨hslot, hd.swap⟩⟩

/-- Whether or not a page could be filled, it is the page of the same address. -/
theorem populate_address (hs : t.swap.Sound) (hf : t.frame.length = pageSize)
    (h : populate t = .ok (r, u)) : u.page.address = t.page.address := by
  rcases populate_eq_ok hs hf h with ⟨-, hpop⟩ | ⟨e, -, hdraft⟩
  · exact (hpop.spec hs hf).1.address
  · rw [hdraft.page]

/-- How an operation ends in which something may have gone wrong. -/
def ending (failure : Option PagerError) : Except PagerError Unit := failure.elim (.ok ()) .error

@[simp] theorem ending_eq_ok {failure : Option PagerError} :
    ending failure = .ok () ↔ failure = none := by
  cases failure <;> simp [ending]

@[simp] theorem ending_eq_error {failure : Option PagerError} {e : PagerError} :
    ending failure = .error e ↔ failure = some e := by
  cases failure <;> simp [ending]

/-- Writing back is one request for the part of the frame that belongs to the file. -/
theorem writeBack_spec {file : FileBacking} (h : writeBack file t = .ok (r, u)) :
    u = { t with files := u.files } ∧
      ∃ q, FileStore.writeAt file.file (t.frame.take file.readBytes) file.offset t.files =
        .ok (q, u.files) ∧ r = ending (FileStore.shortfall file.readBytes q) := by
  unfold writeBack at h
  rw [Action.get_bind] at h
  dsimp only at h
  split at h
  · cases h
  · rcases Action.bind_eq_ok.1 h with ⟨count, wrote, hwrite, h⟩ | ⟨e, hwrite, rfl⟩
    · obtain ⟨q, files, hq, hcount, rfl⟩ := onFiles_eq_ok.1 hwrite
      cases q with
      | error e => cases hcount
      | ok written =>
        cases hcount
        by_cases hall : count = file.readBytes
        · rw [if_neg (not_not.2 hall)] at h
          cases h
          exact ⟨rfl, .ok count, hq, by simp [hall, FileStore.shortfall, ending]⟩
        · rw [if_pos hall] at h
          cases h
          exact ⟨rfl, .ok count, hq, by simp [hall, FileStore.shortfall, ending]⟩
    · obtain ⟨q, files, hq, he, rfl⟩ := onFiles_eq_ok.1 hwrite
      cases q with
      | ok written => cases he
      | error e =>
        cases he
        exact ⟨rfl, .error e, hq, rfl⟩

/-- Nothing but the file can fail. -/
theorem writeBack_error {file : FileBacking} {e : PagerError}
    (h : writeBack file t = .ok (.error e, u)) : ∃ e', e = .store e' := by
  obtain ⟨-, q, -, hr⟩ := writeBack_spec h
  exact FileStore.shortfall_eq_some (ending_eq_error.1 hr.symm)

/-- Where the contents of a page went that was to leave its frame. -/
inductive Parting (t : Transfer) : Except PagerError Unit → Transfer → Prop
  | parked {slot : SwapSlot} {swap : SwapTable} (kind : t.page.kind = .anonymous none)
      (out : SwapTable.swapOut t.frame t.swap = .ok (.ok slot, swap)) :
      Parting t (.ok ()) { t with page := { t.page with kind := .anonymous (some slot) }, swap }
  | kept {e : PagerError} {swap : SwapTable} (kind : t.page.kind = .anonymous none)
      (out : SwapTable.swapOut t.frame t.swap = .ok (.error e, swap)) :
      Parting t (.error e) { t with swap }
  | filed {file : FileBacking} {r : Except PagerError Unit} {files : FileStore}
      (kind : t.page.kind = .fileBacked file) (traffic : FileStore.Traffic t.files files) :
      Parting t r { t with files }

theorem Parting.frame (h : Parting t r u) : u.frame = t.frame := by
  cases h <;> rfl

theorem Parting.inits (h : Parting t r u) : u.inits = t.inits := by
  cases h <;> rfl

theorem Parting.address (h : Parting t r u) : u.page.address = t.page.address := by
  cases h <;> rfl

theorem Parting.resident (h : Parting t r u) : u.page.frame = t.page.frame := by
  cases h <;> rfl

theorem Parting.page {e : PagerError} (h : Parting t (.error e) u) : u.page = t.page := by
  cases h <;> rfl

theorem evict_dirty {file : FileBacking} (h : t.page.kind = .fileBacked file) :
    evict true t = writeBack file t := by
  unfold evict
  rw [Action.get_bind, h]
  rfl

theorem evict_clean {file : FileBacking} (h : t.page.kind = .fileBacked file) :
    evict false t = .ok (.ok (), t) := by
  unfold evict
  rw [Action.get_bind, h]
  rfl

theorem evict_eq_ok {dirty : Bool} (h : evict dirty t = .ok (r, u)) : Parting t r u := by
  unfold evict at h
  rw [Action.get_bind] at h
  cases hk : t.page.kind with
  | unpopulated page =>
    rw [hk] at h
    cases h
  | anonymous slot =>
    rw [hk] at h
    cases slot with
    | some slot => cases h
    | none =>
      dsimp only at h
      rcases Action.bind_eq_ok.1 h with ⟨slot, out, hout, h⟩ | ⟨e, hout, rfl⟩
      · obtain ⟨swap, hrun, rfl⟩ := Action.within_eq_ok.1 hout
        cases h
        exact .parked hk hrun
      · obtain ⟨swap, hrun, rfl⟩ := Action.within_eq_ok.1 hout
        exact .kept hk hrun
  | fileBacked file =>
    rw [hk] at h
    dsimp only at h
    cases dirty with
    | false =>
      cases h
      exact .filed hk .refl
    | true =>
      obtain ⟨hu, q, hwrite, -⟩ := writeBack_spec h
      rw [hu]
      exact .filed hk (.of_writeAt hwrite)

/-- An anonymous page cannot be moved out if the swap table is full, and nothing is done then;
apart from that it is a device that fails. -/
theorem evict_cases {dirty : Bool} (h : evict dirty t = .ok (r, u)) :
    (r = .error .swapExhausted ∧ u = t ∧ t.page.type = .anonymous ∧
        ¬ t.swap.used < t.swap.capacity) ∨
      (t.page.type = .fileBacked ∨ t.swap.used < t.swap.capacity) ∧
        ∀ e, r = .error e → ∃ e', e = .store e' := by
  cases evict_eq_ok h with
  | parked kind out =>
    rcases SwapTable.swapOut_cases out with ⟨hr, -⟩ | ⟨hfree, -⟩
    · cases hr
    · exact .inr ⟨.inr hfree, fun e hr => by cases hr⟩
  | kept kind out =>
    rcases SwapTable.swapOut_cases out with ⟨hr, rfl, hfull⟩ | ⟨hfree, hstore⟩
    · cases hr
      exact .inl ⟨rfl, rfl, by simp only [Page.type, kind], hfull⟩
    · refine .inr ⟨.inr hfree, fun e hr => ?_⟩
      cases hr
      exact hstore _ rfl
  | filed kind =>
    refine .inr ⟨.inl (by simp only [Page.type, kind]), fun e hr => ?_⟩
    subst hr
    cases dirty with
    | false =>
      rw [evict_clean kind] at h
      cases h
    | true =>
      rw [evict_dirty kind] at h
      exact writeBack_error h

end Transfer

theorem Page.releaseSlot_eq_ok {page after : Page} {swap next : SwapTable}
    (h : page.releaseSlot swap = .ok (after, next)) :
    (∃ n, page.slot = some n ∧ swap.release n = .ok next ∧
        after = { page with kind := .anonymous none }) ∨
      page.slot = none ∧ next = swap ∧ after = page := by
  unfold Page.releaseSlot at h
  split at h
  · rename_i n hk
    obtain ⟨released, hr, h⟩ := except_bind_eq_ok.1 h
    cases h
    exact .inl ⟨n, by simp [Page.slot, hk], hr, rfl⟩
  · rename_i hk
    cases h
    refine .inr ⟨?_, rfl, rfl⟩
    unfold Page.slot
    split
    · rename_i slot hslot
      cases slot with
      | none => rfl
      | some n => exact absurd hslot (hk n)
    · rfl

/-- What a page gives up does not depend on where it lies. -/
theorem Page.releaseSlot_frame {page after : Page} {swap next : SwapTable}
    (h : page.releaseSlot swap = .ok (after, next)) (frame : Option FrameId) :
    ∃ other, ({ page with frame } : Page).releaseSlot swap = .ok (other, next) := by
  unfold Page.releaseSlot at h ⊢
  cases hk : page.kind with
  | unpopulated u =>
    rw [hk] at h
    cases h
    exact ⟨_, rfl⟩
  | fileBacked file =>
    rw [hk] at h
    cases h
    exact ⟨_, rfl⟩
  | anonymous slot =>
    rw [hk] at h
    cases slot with
    | none =>
      cases h
      exact ⟨_, rfl⟩
    | some n =>
      obtain ⟨released, hr, h⟩ := except_bind_eq_ok.1 h
      cases h
      exact ⟨_, except_bind_eq_ok.2 ⟨_, hr, rfl⟩⟩

end Pager
