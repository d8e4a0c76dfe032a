import Pager.Machine.View
import Pager.Proofs.Ageing
import Pager.Proofs.Reachability

/-!
Who refers to which handles. Callers lend theirs to the pages that they register, and
copies of pages that were never populated refer to what the originals do; a mapping has
a handle of its own, which its pages and its record share with nobody. Every handle that
is opened is a new one, so what is once in the custody of one space stays so.
-/
namespace Pager

/-- Which handles callers may refer to and may lend, and which the pages of a space, by their type
and mapping, and its records, by their number. -/
structure Custody where
  caller : Handle → Prop
  lent : Handle → Prop
  page : SpaceId → PageType → Option MappingId → Handle → Prop
  record : SpaceId → MappingId → Handle → Prop
  lends : ∀ {handle}, lent handle → ∀ id type, page id type none handle
  copies : ∀ {handle id}, page id .anonymous none handle → ∀ child, page child .anonymous none handle

/-- A page of a file belongs to the mapping that it belonged to before. -/
theorem Page.Ages.mapping {p q : Page} (h : p.Ages q) (hp : p.type = .fileBacked) :
    q.mapping = p.mapping := by
  rcases h.slice hp with hkind | ⟨u, hu, hkind⟩
  · rw [Page.mapping, Page.mapping, hkind]
  · rcases Transfer.populated_kind hkind with ⟨htarget, -⟩ | ⟨-, file, -, hfilled⟩
    · rw [Page.type, hu] at hp
      cases htarget.symm.trans hp
    · rw [Page.mapping, Page.mapping, hu, hfilled]

/-- So does every page that refers to a handle. -/
theorem Page.Ages.mapping_of_handle {p q : Page} (h : p.Ages q) {handle : Handle}
    (hq : q.handle = some handle) : q.mapping = p.mapping := by
  cases hk : q.kind with
  | unpopulated u => rw [Page.mapping, Page.mapping, hk, h.waits u hk]
  | anonymous slot =>
    rw [Page.handle, hk] at hq
    cases hq
  | fileBacked file => exact h.mapping (h.type.symm.trans (by rw [Page.type, hk]))

namespace Custody

structure Holds (c : Custody) (s : Machine) : Prop where
  callers : ∀ handle ∈ s.files.held, c.caller handle
  pages : ∀ {pl p handle}, pageAt s.spaces pl = some p → p.handle = some handle →
    c.page pl.space p.type p.mapping handle
  records : ∀ {id sp start record}, s.spaces.get? id = some sp →
    sp.mappings.get? start = some record → c.record id record.id record.file

/-- Pages and records come to refer to nothing but what they may. -/
def Allows (c : Custody) : Label → Prop
  | .register pl page =>
    ∀ handle, page.handle = some handle → c.page pl.space page.type page.mapping handle
  | .record id _ mapping => c.record id mapping.id mapping.file
  | .outside => False
  | _ => True

/-- Handles that were opened before the next one. -/
def dated (next : Nat) : Custody where
  caller handle := handle.serial < next
  lent handle := handle.serial < next
  page _ _ _ handle := handle.serial < next
  record _ _ handle := handle.serial < next
  lends h _ _ := h
  copies h _ := h

/-- The handle is for pages of files and for records of one space. -/
def reserving (own : Handle) (id : SpaceId) : Custody where
  caller handle := handle ≠ own
  lent handle := handle ≠ own
  page other type _ handle := handle = own → other = id ∧ type = .fileBacked
  record other _ handle := handle = own → other = id
  lends h _ _ he := absurd he h
  copies h _ he := absurd (h he).2 (by decide)

/-- Handles that lead to a file. -/
def filed (exist : Nat → Prop) : Custody where
  caller handle := exist handle.file
  lent handle := exist handle.file
  page _ _ _ handle := exist handle.file
  record _ _ handle := exist handle.file
  lends h _ _ := h
  copies h _ := h

/-- A machine that was just started has no pages and no records, only the handles of callers. -/
theorem Holds.of_boot {c : Custody} {frames sectors : Nat} {files : List Bytes} {s : Machine}
    (hboot : Machine.boot frames sectors files = .ok s) (hheld : ∀ handle ∈ s.files.held, c.caller handle) :
    c.Holds s where
  callers := hheld
  pages hp := by cases (Machine.boot_pages hboot _).symm.trans hp
  records hs := by cases (Machine.boot_spaces hboot _).symm.trans hs

end Custody

section

variable {m n : Moment} {l : Label} {id : SpaceId} {start : Nat} {sp : Space} {record : Mapping}

/-- A record that is there after a move was there before, unless the move makes it. -/
theorem Move.record_before (hmove : Move l m n) (hs : n.machine.spaces.get? id = some sp)
    (hrecord : sp.mappings.get? start = some record) :
    l = .record id start record ∨ ∃ before, m.machine.spaces.get? id = some before ∧
      before.mappings.get? start = some record := by
  -- a space that got no record
  have hput : ∀ {other : SpaceId} {old new : Space} {spaces : Table Space},
      spaces.get? other = some old → (spaces.insert other new).get? id = some sp →
        (∀ key v, new.mappings.get? key = some v → old.mappings.get? key = some v) →
          ∃ before, spaces.get? id = some before ∧ before.mappings.get? start = some record := by
    intro other old new spaces hold hnew hsub
    rw [Table.get?_insert] at hnew
    split at hnew
    · rename_i heq
      cases hnew
      exact ⟨old, heq ▸ hold, hsub start record hrecord⟩
    · exact ⟨sp, hnew, hrecord⟩
  cases hmove with
  | note | turn | take | giveBack | scribble | request | handles | outside | switch | pin | spare
  | attempt | store => exact .inr ⟨sp, hs, hrecord⟩
  | mark hold | soil hold | adjust hold | evict _ _ hold | populate _ hold | lose _ hold
  | seat _ hold | unseat _ hold | register hold | remove hold | number hold =>
    exact .inr (hput hold hs fun _ _ hv => hv)
  | @record _ _ other old hold key mapping =>
    rw [Table.get?_insert] at hs
    split at hs
    · rename_i heq
      subst heq
      cases hs
      have hrecord : (old.mappings.insert key mapping).get? start = some record := hrecord
      rw [Table.get?_insert] at hrecord
      split at hrecord
      · rename_i heq
        cases hrecord
        exact .inl (by rw [heq])
      · exact .inr ⟨old, hold, hrecord⟩
    · exact .inr ⟨sp, hs, hrecord⟩
  | unrecord hold key =>
    refine .inr (hput hold hs fun other v hv => ?_)
    have hv : (Table.erase _ key).get? other = some v := hv
    rw [Table.get?_erase] at hv
    split at hv
    · cases hv
    · exact hv
  | create =>
    rw [Table.get?_insert] at hs
    split at hs
    · cases hs
      cases hrecord
    · exact .inr ⟨sp, hs, hrecord⟩
  | drop =>
    rw [Table.get?_erase] at hs
    split at hs
    · cases hs
    · exact .inr ⟨sp, hs, hrecord⟩

variable {c : Custody}

/-- Which handles callers hold is changed from outside only. -/
theorem Coherent.held_still (h : Coherent m) (hmove : Move l m n) (hl : l ≠ .outside) :
    n.machine.files.held = m.machine.files.held := by
  by_cases hhandles : l = .handles
  · subst hhandles
    cases hmove
    rfl
  · exact (h.traffic hmove hhandles hl).handles.2

/-- Handles that come to be held were opened in between. -/
theorem Coherent.handles_moves {kinds : Label → Prop} (h : Coherent m) (hmoves : Moves kinds m n) :
    m.machine.files.nextSerial ≤ n.machine.files.nextSerial ∧
      ∀ handle ∈ n.machine.files.held, handle ∈ m.machine.files.held ∨
        m.machine.files.nextSerial ≤ handle.serial ∧
          handle.serial < n.machine.files.nextSerial := by
  refine h.preserves (P := fun n => m.machine.files.nextSerial ≤ n.machine.files.nextSerial ∧
    ∀ handle ∈ n.machine.files.held, handle ∈ m.machine.files.held ∨
      m.machine.files.nextSerial ≤ handle.serial ∧ handle.serial < n.machine.files.nextSerial)
    hmoves (fun _ h ⟨hle, hheld⟩ hmove => ?_) ⟨Nat.le_refl _, fun _ => .inl⟩
  obtain ⟨hserial, hnew⟩ := h.handles hmove
  refine ⟨Nat.le_trans hle hserial, fun handle hmem => ?_⟩
  rcases hnew handle hmem with hold | ⟨heq, hlt⟩
  · exact (hheld handle hold).imp_right fun hb => ⟨hb.1, Nat.lt_of_lt_of_le hb.2 hserial⟩
  · exact .inr ⟨heq ▸ hle, heq ▸ hlt⟩

/-- No file comes and none goes. -/
theorem Coherent.isSome_data? {kinds : Label → Prop} (h : Coherent m) (hmoves : Moves kinds m n)
    (file : Nat) : (n.machine.files.data? file).isSome = (m.machine.files.data? file).isSome :=
  h.keeps hmoves (fun m => (m.machine.files.data? file).isSome) fun _ h hmove => by
    rcases h.logs hmove with hlogs | ⟨_, hlogs, -⟩ <;> exact hlogs.isSome_data? file

/-- A handle that comes to be held leads to a file. -/
theorem Coherent.filed_moves {kinds : Label → Prop} (h : Coherent m) (hmoves : Moves kinds m n)
    {handle : Handle} (hmem : handle ∈ n.machine.files.held) :
    handle ∈ m.machine.files.held ∨ (m.machine.files.data? handle.file).isSome = true := by
  have hboth := h.preserves (P := fun o => Moves kinds m o ∧ ∀ handle ∈ o.machine.files.held,
    handle ∈ m.machine.files.held ∨ (m.machine.files.data? handle.file).isSome = true) hmoves
    (fun {l o o'} hl ho ⟨hbefore, hheld⟩ hmove => ?_) ⟨.refl, fun _ => .inl⟩
  · exact hboth.2 handle hmem
  · refine ⟨hbefore.tail hmove hl, fun handle hmem => ?_⟩
    by_cases houtside : l = .outside
    · subst houtside
      cases hmove with
      | outside hhandled =>
        rcases hhandled.filed hmem with hold | hnew
        · exact hheld handle hold
        · exact .inr ((h.isSome_data? hbefore handle.file).symm.trans hnew)
    · rw [ho.held_still hmove houtside] at hmem
      exact hheld handle hmem

theorem Custody.Holds.move (hc : c.Holds m.machine) (h : Coherent m) (hmove : Move l m n)
    (hl : c.Allows l) : c.Holds n.machine where
  callers handle hheld := by
    refine hc.callers handle ?_
    rw [← h.held_still hmove]
    · exact hheld
    · rintro rfl
      exact hl
  pages := by
    intro pl q handle hq hhandle
    rcases h.page_before hmove hq with rfl | ⟨p, hp, hages⟩
    · exact hl handle hhandle
    · rw [hages.type, hages.mapping_of_handle hhandle]
      exact hc.pages hp (hages.keeps handle hhandle)
  records := by
    intro id sp start record hs hrecord
    rcases hmove.record_before hs hrecord with rfl | ⟨before, hbefore, hsame⟩
    · exact hl
    · exact hc.records hbefore hsame

theorem Custody.Holds.moves {kinds : Label → Prop} (hc : c.Holds m.machine) (h : Coherent m)
    (hmoves : Moves kinds m n) (hl : ∀ l, kinds l → c.Allows l) : c.Holds n.machine :=
  h.preserves (P := fun n => c.Holds n.machine) hmoves
    (fun hkind h hc hmove => hc.move h hmove (hl _ hkind)) hc

end

theorem Custody.Holds.later {s : Machine} {next later : Nat} (h : (Custody.dated next).Holds s)
    (hle : next ≤ later) : (Custody.dated later).Holds s where
  callers handle hheld := Nat.lt_of_lt_of_le (h.callers handle hheld) hle
  pages hp hhandle := Nat.lt_of_lt_of_le (h.pages hp hhandle) hle
  records hs hrecord := Nat.lt_of_lt_of_le (h.records hs hrecord) hle

/-- A handle is referred to by a caller, by the record of a mapping or by a page. -/
theorem Machine.mem_references_iff {s : Machine} {handle : Handle} : handle ∈ s.references ↔
    handle ∈ s.files.held ∨
      (∃ id sp start record, s.spaces.get? id = some sp ∧ sp.mappings.get? start = some record ∧
        record.file = handle) ∨
      ∃ pl p, Pager.pageAt s.spaces pl = some p ∧ p.handle = some handle := by
  simp only [references, List.mem_append, List.mem_flatMap, List.mem_map, List.mem_filterMap,
    Table.mem_values_iff]
  refine or_congr_right ⟨?_, ?_⟩
  · rintro ⟨sp, ⟨id, hs⟩, ⟨record, ⟨start, hrecord⟩, hfile⟩ | ⟨p, ⟨key, hp⟩, hhandle⟩⟩
    · exact .inl ⟨id, sp, start, record, hs, hrecord, hfile⟩
    · exact .inr ⟨⟨id, key⟩, p, (pageAt_of_get? hs key).trans hp, hhandle⟩
  · rintro (⟨id, sp, start, record, hs, hrecord, hfile⟩ | ⟨pl, p, hp, hhandle⟩)
    · exact ⟨sp, ⟨id, hs⟩, .inl ⟨record, ⟨start, hrecord⟩, hfile⟩⟩
    · obtain ⟨sp, hs, hp⟩ := exists_space_of_pageAt hp
      exact ⟨sp, ⟨pl.space, hs⟩, .inr ⟨p, ⟨pl.key, hp⟩, hhandle⟩⟩

/-- Nothing refers to a handle whose space is gone. -/
theorem Custody.Holds.unreferenced {s : Machine} {id : SpaceId} {own : Handle}
    (hc : (Custody.reserving own id).Holds s)
    (hgone : s.spaces.get? id = none) : own ∉ s.references := by
  have hne : ∀ {other sp}, s.spaces.get? other = some sp → other ≠ id := by
    rintro other sp hs rfl
    cases hgone.symm.trans hs
  intro hmem
  rcases Machine.mem_references_iff.1 hmem with
    hheld | ⟨other, sp, start, record, hs, hrecord, hfile⟩ | ⟨pl, p, hp, hhandle⟩
  · exact hc.callers own hheld rfl
  · exact hne hs (hc.records hs hrecord hfile)
  · obtain ⟨sp, hs, -⟩ := exists_space_of_pageAt hp
    exact hne hs (hc.pages hp hhandle rfl).1

/-- A mapping that was made: the space it is in, its number there, and the handle that was opened
for it. -/
structure Tenancy where
  space : SpaceId
  number : MappingId
  handle : Handle
deriving DecidableEq, Repr

/-- The mapping that an operation makes. -/
def Op.maps? (s : Machine) (r : Except Failure Value) : Op → Option Tenancy
  | .onSpace id _ (.mmap _ _ file _) =>
    match r, s.spaces.get? id with
    | .ok _, some sp => some ⟨id, sp.nextMapping, s.files.opening file⟩
    | _, _ => none
  | _ => none

/-- The operation registers pages that are to refer to its caller's handle. -/
def Op.Borrows (handle : Handle) : Op → Prop
  | .onSpace _ _ (.register _ _ _ slice) => slice.file = some handle
  | .onSpace _ _ (.registerSegment file ..) => file = handle
  | _ => False

/-- The handle that is opened for a mapping, with the space that it is asked for in. -/
def Op.opens? (s t : Machine) : Op → Option (SpaceId × Handle)
  | .onSpace id _ (.mmap _ _ file _) =>
    if s.files.nextSerial < t.files.nextSerial then some (id, s.files.opening file) else none
  | _ => none

namespace Machine

variable {s t : Machine} {id : SpaceId} {a : VirtualAddress} {c : Custody}

/-- Pages that are added refer to what they may. -/
theorem Adds.custody {pages : List Page} (hadds : Adds id pages s t) (h : Coherent ⟨s, none⟩)
    (hc : c.Holds s) (hpages : ∀ p ∈ pages, p.Enters ∧
      ∀ handle, p.handle = some handle → c.page id p.type p.mapping handle) : c.Holds t := by
  have hmoves : Moves (fun l => ∃ p ∈ pages, l = .register (placeOf id p) p) ⟨s, none⟩ ⟨t, none⟩ := by
    refine .of_trace (hadds.trace fun p hp => (hpages p hp).1) fun l hl => ?_
    obtain ⟨p, hp, rfl⟩ := List.mem_map.1 hl
    exact ⟨p, hp, rfl⟩
  refine hc.moves h hmoves ?_
  rintro l ⟨p, hp, rfl⟩
  exact (hpages p hp).2

/-- A new page may refer to a handle that is lent to it. -/
theorem Adds.custody_of_lent {pages : List Page} (hadds : Adds id pages s t)
    (h : Coherent ⟨s, none⟩) (hc : c.Holds s) (hpages : ∀ p ∈ pages, p.IsNew ∧
      ∀ handle, p.handle = some handle → c.lent handle) : c.Holds t :=
  hadds.custody h hc fun p hp => ⟨(hpages p hp).1.toEnters, fun handle hhandle => by
    rw [(hpages p hp).1.unmapped]
    exact c.lends ((hpages p hp).2 handle hhandle) id p.type⟩

/-- What a mapping brings along refers to the handle that it opens. -/
theorem mmap_custody {length : Nat} {writable : Bool} {file : Handle} {offset : Nat}
    {r : Except PagerError VirtualAddress} (h : Coherent ⟨s, none⟩) (hc : c.Holds s)
    (hfresh : ∀ sp, r = .ok a → s.spaces.get? id = some sp →
      c.page id .fileBacked (some sp.nextMapping) (s.files.opening file) ∧
        c.record id sp.nextMapping (s.files.opening file))
    (run : mmap id a length writable file offset s = .ok (r, t)) : c.Holds t := by
  rcases mmap_cases run with ⟨e, -, rfl | htrace⟩ |
    ⟨hr, sp, pages, table, hs, -, -, -, hpages, -, -, -, htrace⟩
  · exact hc
  · have hmoves : Moves c.Allows ⟨s, none⟩ ⟨t, none⟩ := .of_trace htrace (by simp [Custody.Allows])
    exact hc.moves h hmoves fun _ hl => hl
  · obtain ⟨hpage, hrecord⟩ := hfresh sp hr hs
    have hpages : ∀ p ∈ pages, c.Allows (.register (placeOf id p) p) := by
      intro p hp handle hhandle
      obtain ⟨k, -, rfl⟩ := (mem_pageRun_iff hpages).1 hp
      cases hhandle
      exact hpage
    exact hc.moves h (moves_of_mapping htrace trivial trivial hpages hrecord trivial) fun _ hl => hl

/-- A copy of a page refers to what the page itself does. -/
theorem duplicatePage_custody {parent : SpaceId} {pl : Place} {r : Except PagerError Unit}
    (h : Coherent ⟨s, none⟩) (hc : c.Holds s) (hk : pl.key % pageSize = 0)
    (run : duplicatePage parent pl.space pl.address s = .ok (r, t)) : c.Holds t := by
  obtain ⟨sp, hs, ⟨-, rfl, -⟩ | ⟨p, hp, htype, ⟨e, -, rfl⟩ | ⟨u, hadds, hrest⟩⟩⟩ :=
    duplicatePage_cases hk run
  · exact hc
  · exact hc
  · have hpage : Pager.pageAt s.spaces ⟨parent, pl.key⟩ = some p :=
      (pageAt_of_get? hs pl.key).trans hp
    obtain ⟨hregister, hmapping, hrests⟩ := hadds.resting h hpage htype
    have hcu : c.Holds u := by
      refine hc.move h hregister fun handle hhandle => ?_
      have hsame : p.handle = some handle := by
        cases hkind : p.kind with
        | unpopulated v =>
          rw [Page.handle, Page.resting, hkind] at hhandle
          rw [Page.handle, hkind]
          exact hhandle
        | anonymous slot =>
          rw [Page.handle, Page.resting, hkind] at hhandle
          cases hhandle
        | fileBacked file =>
          rw [Page.type, hkind] at htype
          cases htype
      have hparent := hc.pages hpage hsame
      rw [htype, ← Page.mapping_resting, hmapping] at hparent
      rw [hrests, hmapping]
      exact c.copies hparent pl.space
    have hu := h.move hregister
    rcases hrest with ⟨-, -, rfl⟩ | ⟨hinit, hinherit⟩
    · exact hcu
    · obtain ⟨spc, hspc, hcopy, hkind, -⟩ := hadds.inherits (h.linked.keyed hpage).1 htype hinit
      exact hcu.moves hu (inherit_moves hu hspc hcopy rfl hkind hinherit).1 fun l hl => by
        cases l <;> first | exact hl.elim | trivial

theorem duplicatePages_custody {parent child : SpaceId} {addresses : List VirtualAddress}
    {r : Except PagerError Unit} (h : Coherent ⟨s, none⟩) (hc : c.Holds s)
    (haligned : ∀ a ∈ addresses, a.value % pageSize = 0)
    (run : duplicatePages parent child addresses s = .ok (r, t)) : c.Holds t := by
  refine (duplicatePages_keep (P := fun u => Coherent ⟨u, none⟩ ∧ c.Holds u)
    (fun {pl q u v} _ hk hu hpage => ?_) haligned ⟨h, hc⟩ run).2
  exact ⟨hu.1.moves (duplicatePage_moves hu.1 hk hpage),
    duplicatePage_custody hu.1 hu.2 hk hpage⟩

theorem duplicate_custody {parent : SpaceId} {refuses : Option PagerError}
    {r : Except PagerError SpaceId} (h : Coherent ⟨s, none⟩) (hc : c.Holds s)
    (run : duplicate parent refuses s = .ok (r, t)) : c.Holds t := by
  obtain ⟨sp, v, w, hs, hprepare, -, hcase⟩ := duplicate_cases h run
  have hprepared : Moves c.Allows ⟨s, none⟩ ⟨v, none⟩ := .of_trace hprepare (by simp [Custody.Allows])
  have hv := h.moves hprepared
  have hcv := hc.moves h hprepared fun _ hl => hl
  have haligned := aligned_addresses h hs
  rcases hcase with ⟨-, hpages, hlast, -⟩ | ⟨e, -, hpages, hteardown⟩
  · have hw := hv.moves (duplicatePages_moves hv haligned hpages)
    exact (duplicatePages_custody hv hcv haligned hpages).moves hw
      (.of_trace hlast (by simp [Custody.Allows]) : Moves c.Allows _ _) fun _ hl => hl
  · have hw := hv.moves (duplicatePages_moves hv haligned hpages)
    refine (duplicatePages_custody hv hcv haligned hpages).moves hw
      (teardown_moves hw hteardown).2.1 fun l hl => ?_
    cases l <;> first | exact hl.elim | trivial

/-- A page that is registered from outside refers to a handle that a caller holds. -/
theorem register_custody {writable : Bool} {type : PageType} {init : Option Initializer}
    {slice : LoadSlice} {r : Except PagerError Unit} (h : Coherent ⟨s, none⟩) (hc : c.Holds s)
    (hlent : r = .ok () → ∀ file, slice.file = some file → c.lent file)
    (run : register id a writable type init slice s = .ok (r, t)) : c.Holds t := by
  rcases register_cases run with ⟨hr, hadds⟩ | ⟨e, -, rfl⟩
  · refine hadds.custody_of_lent h hc fun p hp => ?_
    rw [List.mem_singleton.1 hp]
    exact ⟨Page.isNew_fresh .., hlent hr⟩
  · exact hc

theorem registerSegment_custody {file : Handle} {offset readBytes zeroBytes : Nat}
    {writable : Bool} {r : Except PagerError Unit} (h : Coherent ⟨s, none⟩) (hc : c.Holds s)
    (hlent : r = .ok () → c.lent file)
    (run : registerSegment id file offset a readBytes zeroBytes writable s = .ok (r, t)) :
    c.Holds t := by
  rcases registerSegment_cases run with ⟨hr, -, -, pages, hpages, hadds⟩ | ⟨e, -, rfl⟩
  · refine hadds.custody_of_lent h hc fun p hp => ?_
    obtain ⟨k, -, rfl⟩ := (mem_pageRun_iff hpages).1 hp
    refine ⟨Page.isNew_fresh .., fun handle hhandle => ?_⟩
    cases hhandle
    exact hlent hr
  · exact hc

theorem serveFault_custody {fault : PageFault} {r : Except PagerError Unit}
    (h : Coherent ⟨s, none⟩) (hc : c.Holds s) (run : serveFault id fault s = .ok (r, t)) :
    c.Holds t := by
  obtain ⟨u, hgrown, hclaims⟩ := serveFault_moves h run
  have hu : Coherent ⟨u, none⟩ ∧ c.Holds u := by
    rcases hgrown with rfl | ⟨_, hgrows⟩
    · exact ⟨h, hc⟩
    · refine ⟨hgrows.coherent h, hgrows.adds.custody_of_lent h hc fun p hp => ?_⟩
      rw [List.mem_singleton.1 hp]
      exact ⟨Page.isNew_ofStack _, fun handle hhandle => by cases hhandle⟩
  exact hu.2.moves hu.1 hclaims fun l hl => by
    cases l <;> first | exact hl.elim | trivial

/-- Every operation keeps to the custody, if the handles that it opens and borrows do. -/
theorem step_custody (h : Coherent ⟨s, none⟩) (hc : c.Holds s) {op : Op}
    {r : Except Failure Value} (run : step op s = .ok (r, t))
    (hheld : ∀ handle ∈ t.files.held, handle ∈ s.files.held ∨ c.caller handle)
    (hlent : ∀ v, r = .ok v → ∀ handle ∈ s.files.held, op.Borrows handle → c.lent handle)
    (hmaps : ∀ x, op.maps? s r = some x →
      c.page x.space .fileBacked (some x.number) x.handle ∧ c.record x.space x.number x.handle) :
    c.Holds t := by
  have hmoves := step_moves h run
  have hallowed : (∀ l, op.Makes s l → c.Allows l) → c.Holds t := hc.moves h hmoves
  cases op with
  | onSpace id address op =>
    rcases onSpace_cases run with ⟨-, -, hrun⟩ | ⟨-, rfl⟩
    · cases op with
      | registerAnonymous writable =>
        obtain ⟨q, hq, -⟩ := liftPager_eq_ok.1 hrun
        exact register_custody h hc (fun _ file hfile => by cases hfile) hq
      | register writable type init slice =>
        rcases performRegister_cases hrun with ⟨q, hmem, hq, rfl⟩ | ⟨-, rfl⟩
        · refine register_custody h hc (fun hr file hfile => ?_) hq
          subst hr
          exact hlent _ rfl file (hmem file hfile) hfile
        · exact hc
      | registerSegment file offset readBytes zeroBytes writable =>
        rcases requireHeld_bind_eq_ok.1 hrun with ⟨hmem, hrun⟩ | ⟨-, -, rfl⟩
        · obtain ⟨q, hq, rfl⟩ := liftPager_eq_ok.1 hrun
          refine registerSegment_custody h hc (fun hr => ?_) hq
          subst hr
          exact hlent _ rfl file hmem rfl
        · exact hc
      | mmap length writable file offset =>
        rcases held_cases hrun with ⟨q, hq, rfl⟩ | ⟨-, rfl⟩
        · refine mmap_custody h hc (fun sp hr hs => ?_) hq
          subst hr
          exact hmaps ⟨id, sp.nextMapping, s.files.opening file⟩
            (by simp only [Op.maps?, hs, Except.map, Except.mapError])
        · exact hc
      | fault write user notPresent stackPointer =>
        obtain ⟨sp, -, hrun⟩ := Action.liftM_bind_eq_ok.1 hrun
        obtain ⟨q, hq, -⟩ := liftPager_eq_ok.1 hrun
        exact serveFault_custody h hc hq
      | duplicate refuses =>
        obtain ⟨q, hq, -⟩ := liftPager_eq_ok.1 hrun
        exact duplicate_custody h hc hq
      | pin =>
        refine hallowed fun l hl => ?_
        cases l <;> first | trivial | simp [Op.Makes, SpaceOp.Makes, Label.Claims, Label.Pins] at hl
      | touch =>
        refine hallowed fun l hl => ?_
        rcases hl with rfl | rfl <;> trivial
      | remove =>
        refine hallowed ?_
        rintro l ⟨mapping, hl⟩
        cases l <;> first | exact hl.elim | trivial
      | _ =>
        refine hallowed fun l hl => ?_
        cases l <;> first | exact hl.elim | trivial
    · exact hc
  | createSpace =>
    refine hallowed fun l hl => ?_
    rcases hl with rfl | rfl <;> trivial
  | unlock =>
    refine hallowed fun l hl => ?_
    cases l <;> first | exact hl.elim | trivial
  | switchDisk =>
    refine hallowed fun l hl => ?_
    rw [hl]
    trivial
  | openFile | closeFile | writeFile | switchFile =>
    have hspaces : t.spaces = s.spaces :=
      h.keeps hmoves (fun m => m.machine.spaces) fun hl _ hmove => by
        subst hl
        cases hmove
        rfl
    refine ⟨fun handle hmem => (hheld handle hmem).elim (hc.callers handle) fun hnew => hnew, ?_, ?_⟩
    · rw [hspaces]
      exact hc.pages
    · rw [hspaces]
      exact hc.records

/-- What makes a mapping is a call for it that is granted. -/
theorem mmap_of_maps {op : Op} {x : Tenancy} {r : Except Failure Value}
    (hx : op.maps? s r = some x) (run : step op s = .ok (r, t)) :
    ∃ (address : Nat) (a : VirtualAddress) (length : Nat) (writable : Bool) (file : Handle)
      (offset : Nat) (sp : Space), op = .onSpace x.space address (.mmap length writable file offset) ∧
      s.spaces.get? x.space = some sp ∧ x.number = sp.nextMapping ∧
      x.handle = s.files.opening file ∧
      mmap x.space a length writable file offset s = .ok (.ok a, t) := by
  cases op with
  | onSpace id address op =>
    cases op with
    | mmap length writable file offset =>
      rcases onSpace_cases run with ⟨sp, hs, hrun⟩ | ⟨⟨reason, rfl⟩, -⟩
      · rcases held_cases hrun with ⟨q, hq, rfl⟩ | ⟨rfl, -⟩
        · rcases mmap_cases hq with ⟨e, rfl, -⟩ | ⟨rfl, -⟩
          · cases hx
          · simp only [Op.maps?, hs, Except.map, Except.mapError] at hx
            cases hx
            exact ⟨address, ⟨address⟩, length, writable, file, offset, sp, rfl, hs, rfl, rfl, hq⟩
        · cases hx
      · cases hx
    | _ => cases hx
  | _ => cases hx

/-- A mapping that is made has its handle opened. -/
theorem opens_of_maps {op : Op} {x : Tenancy} {r : Except Failure Value}
    (hx : op.maps? s r = some x) (run : step op s = .ok (r, t)) :
    op.opens? s t = some (x.space, x.handle) := by
  obtain ⟨address, a, length, writable, file, offset, sp, rfl, -, -, hhandle, hmmap⟩ :=
    mmap_of_maps hx run
  rcases mmap_cases hmmap with ⟨e, he, -⟩ | ⟨-, _, _, _, -, -, -, -, -, -, -, hfiles, -⟩
  · cases he
  · have hserial : s.files.nextSerial < t.files.nextSerial := by
      rw [hfiles]
      exact Nat.lt_succ_self _
    rw [Op.opens?, if_pos hserial, hhandle]

/-- The handles that the mappings of a space open while operations are carried out. -/
def opened (id : SpaceId) : List Op → Machine → List Handle
  | [], _ => []
  | op :: rest, s =>
    match step op s with
    | .ok (_, t) => ((op.opens? s t).filter (·.1 = id)).toList.map (·.2) ++ opened id rest t
    | .error _ => []

theorem opens_spec {op : Op} {own : Handle} (hop : op.opens? s t = some (id, own)) :
    own.serial = s.files.nextSerial ∧ s.files.nextSerial < t.files.nextSerial := by
  unfold Op.opens? at hop
  split at hop
  · split at hop
    · rename_i hserial
      cases hop
      exact ⟨rfl, hserial⟩
    · cases hop
  · cases hop

/-- Callers do not get the handle of a mapping. -/
theorem held_of_opens (h : Coherent ⟨s, none⟩) {op : Op} {own : Handle}
    (hop : op.opens? s t = some (id, own)) {r : Except Failure Value}
    (run : step op s = .ok (r, t)) : t.files.held = s.files.held := by
  have hkinds : ∀ l, op.Makes s l → l ≠ .outside := by
    rintro l hl rfl
    cases op with
    | onSpace other address op =>
      cases op with
      | mmap => exact hl
      | _ => cases hop
    | _ => cases hop
  exact h.keeps (step_moves h run) (fun m => m.machine.files.held) fun hl h hmove =>
    h.held_still hmove (hkinds _ hl)

theorem boot_custody {frames sectors : Nat} {files : List Bytes}
    (hboot : boot frames sectors files = .ok s) : (Custody.dated s.files.nextSerial).Holds s := by
  refine .of_boot hboot fun handle hheld => ?_
  obtain ⟨pool, disk, -, -, rfl⟩ := boot_eq_ok hboot
  obtain ⟨file, -, rfl⟩ := List.mem_map.1 hheld
  exact Nat.zero_lt_one

/-- All handles that are referred to were opened before the next one. -/
theorem step_dated (h : Coherent ⟨s, none⟩) (hc : (Custody.dated s.files.nextSerial).Holds s)
    {op : Op} {r : Except Failure Value} (run : step op s = .ok (r, t)) :
    (Custody.dated t.files.nextSerial).Holds t := by
  obtain ⟨hle, hheld⟩ := h.handles_moves (step_moves h run)
  refine step_custody h (hc.later hle) run (fun handle hmem => ?_)
    (fun _ _ handle hmem _ => (hc.later hle).callers handle hmem) fun x hx => ?_
  · exact (hheld handle hmem).imp_right And.right
  · obtain ⟨hserial, hlt⟩ := opens_spec (opens_of_maps hx run)
    rw [← hserial] at hlt
    exact ⟨hlt, hlt⟩

theorem run_dated {ops : List Op} {results : List (Except Failure Value)}
    (h : Coherent ⟨s, none⟩) (hc : (Custody.dated s.files.nextSerial).Holds s)
    (hrun : run ops s = .ok (results, t)) : (Custody.dated t.files.nextSerial).Holds t := by
  exact run_keep (P := fun u => (Custody.dated u.files.nextSerial).Holds u) h
    (fun _ _ {_ _ _} hu hcu hstep => step_dated hu hcu hstep) hc hrun

/-- A handle that one space has for itself stays so. -/
theorem step_reserving (h : Coherent ⟨s, none⟩) {own : Handle}
    (hc : (Custody.reserving own id).Holds s) (hold : own.serial < s.files.nextSerial) {op : Op}
    {r : Except Failure Value} (run : step op s = .ok (r, t)) :
    (Custody.reserving own id).Holds t := by
  obtain ⟨-, hheld⟩ := h.handles_moves (step_moves h run)
  refine step_custody h hc run (fun handle hmem => ?_)
    (fun _ _ handle hmem _ => hc.callers handle hmem) fun x hx => ?_
  · refine (hheld handle hmem).imp_right fun hnew he => ?_
    exact absurd (he ▸ hnew.1) (Nat.not_le.2 hold)
  · have hne : x.handle ≠ own := by
      rintro rfl
      exact absurd (opens_spec (opens_of_maps hx run)).1 (Nat.ne_of_lt hold)
    exact ⟨fun he => (hne he).elim, fun he => (hne he).elim⟩

/-- The handle that a mapping opens is its space's own from then on. -/
theorem step_opens (h : Coherent ⟨s, none⟩) (hc : (Custody.dated s.files.nextSerial).Holds s)
    {op : Op} {own : Handle} (hop : op.opens? s t = some (id, own)) {r : Except Failure Value}
    (run : step op s = .ok (r, t)) : (Custody.reserving own id).Holds t := by
  have hfresh : ∀ handle : Handle, handle.serial < s.files.nextSerial → handle ≠ own := by
    rintro _ hlt rfl
    exact absurd (opens_spec hop).1 (Nat.ne_of_lt hlt)
  have hreserved : (Custody.reserving own id).Holds s := {
    callers := fun handle hheld => hfresh handle (hc.callers handle hheld)
    pages := fun hp hhandle he => (hfresh _ (hc.pages hp hhandle) he).elim
    records := fun hs hrecord he => (hfresh _ (hc.records hs hrecord) he).elim }
  refine step_custody h hreserved run (fun handle hmem => .inl (held_of_opens h hop run ▸ hmem))
    (fun _ _ handle hmem _ => hreserved.callers handle hmem) fun x hx => ?_
  have hsame := (opens_of_maps hx run).symm.trans hop
  cases hsame
  exact ⟨fun _ => ⟨rfl, rfl⟩, fun _ => rfl⟩

/-- Every handle that a mapping of a space opened in the course of a run is that space's own. -/
theorem run_opened {ops : List Op} {results : List (Except Failure Value)}
    (h : Coherent ⟨s, none⟩) (hc : (Custody.dated s.files.nextSerial).Holds s)
    (hrun : run ops s = .ok (results, t)) :
    (∀ own, own.serial < s.files.nextSerial → (Custody.reserving own id).Holds s →
      (Custody.reserving own id).Holds t) ∧
    ∀ own ∈ opened id ops s, (Custody.reserving own id).Holds t := by
  induction ops generalizing s results with
  | nil =>
    cases hrun
    exact ⟨fun _ _ hown => hown, fun _ hmem => by cases hmem⟩
  | cons op rest ih =>
    obtain ⟨r, u, later, hstep, hrest, -⟩ := run_cons_eq_ok.1 hrun
    have hu := h.moves (step_moves h hstep)
    obtain ⟨hkeep, hlater⟩ := ih hu (step_dated h hc hstep) hrest
    have hserial := (h.handles_moves (step_moves h hstep)).1
    refine ⟨fun own hold hown => ?_, fun own hmem => ?_⟩
    · exact hkeep own (Nat.lt_of_lt_of_le hold hserial) (step_reserving h hown hold hstep)
    · rw [opened, hstep] at hmem
      rcases List.mem_append.1 hmem with hnow | hthen
      · obtain ⟨⟨other, opened⟩, hfound, rfl⟩ := List.mem_map.1 hnow
        obtain ⟨hop, hid⟩ := Option.filter_eq_some_iff.1 (Option.mem_toList.1 hfound)
        obtain rfl : other = id := of_decide_eq_true hid
        obtain ⟨hnumber, hlt⟩ := opens_spec hop
        exact hkeep opened (hnumber ▸ hlt) (step_opens h hc hop hstep)
      · exact hlater own hthen

/-- Every page of a file refers to one that there is. -/
def Sourced (s : Machine) : Prop := ∀ pl p handle, Pager.pageAt s.spaces pl = some p →
  p.handle = some handle → (s.files.data? handle.file).isSome = true

/-- The handle that a mapping opens leads to the file of one that a caller holds. -/
theorem opens_held {op : Op} {own : Handle} (hop : op.opens? s t = some (id, own))
    {r : Except Failure Value} (run : step op s = .ok (r, t)) :
    ∃ file ∈ s.files.held, own = s.files.opening file := by
  have hserial := (opens_spec hop).2
  cases op with
  | onSpace other address op =>
    cases op with
    | mmap length writable file offset =>
      rw [Op.opens?, if_pos hserial] at hop
      cases hop
      rcases onSpace_cases run with ⟨-, -, hrun⟩ | ⟨-, rfl⟩
      · rcases requireHeld_bind_eq_ok.1 hrun with ⟨hmem, -⟩ | ⟨-, -, rfl⟩
        · exact ⟨file, hmem, rfl⟩
        · exact absurd hserial (Nat.lt_irrefl _)
      · exact absurd hserial (Nat.lt_irrefl _)
    | _ => cases hop
  | _ => cases hop

/-- Callers hold handles that lead to files, and so does everything that comes to refer to one. -/
theorem step_filed {exist : Nat → Prop} (h : Coherent ⟨s, none⟩)
    (hexist : ∀ file, exist file ↔ (s.files.data? file).isSome = true)
    (hc : (Custody.filed exist).Holds s) {op : Op} {r : Except Failure Value}
    (run : step op s = .ok (r, t)) : (Custody.filed exist).Holds t := by
  refine step_custody h hc run (fun handle hmem => ?_)
    (fun _ _ handle hmem _ => hc.callers handle hmem) fun x hx => ?_
  · exact (h.filed_moves (step_moves h run) hmem).imp_right (hexist handle.file).2
  · obtain ⟨file, hmem, hopened⟩ := opens_held (opens_of_maps hx run) run
    rw [hopened]
    exact ⟨hc.callers file hmem, hc.callers file hmem⟩

theorem run_sourced {exist : Nat → Prop} {ops : List Op} {results : List (Except Failure Value)}
    (h : Coherent ⟨s, none⟩) (hexist : ∀ file, exist file ↔ (s.files.data? file).isSome = true)
    (hc : (Custody.filed exist).Holds s) (hrun : run ops s = .ok (results, t)) : t.Sourced := by
  have hlast : (∀ file, exist file ↔ (t.files.data? file).isSome = true) ∧
      (Custody.filed exist).Holds t := by
    refine run_keep (P := fun u => (∀ file, exist file ↔ (u.files.data? file).isSome = true) ∧
      (Custody.filed exist).Holds u) h (fun op _ {_ u v} hu hfiled hstep => ?_) ⟨hexist, hc⟩ hrun
    refine ⟨fun file => ?_, step_filed hu hfiled.1 hfiled.2 hstep⟩
    rw [hfiled.1, hu.isSome_data? (step_moves hu hstep)]
  exact fun pl p handle hp hhandle => (hlast.1 handle.file).1 (hlast.2.pages hp hhandle)

theorem Reachable.sourced (hr : Reachable s) : s.Sourced := by
  obtain ⟨frames, sectors, files, ops, start, results, hboot, hrun⟩ := hr
  refine run_sourced (boot_coherent hboot) (fun _ => Iff.rfl) (.of_boot hboot ?_) hrun
  intro handle hheld
  obtain ⟨pool, disk, -, -, rfl⟩ := boot_eq_ok hboot
  obtain ⟨file, hfile, rfl⟩ := List.mem_map.1 hheld
  simpa [Custody.filed, FileStore.data?, FileStore.ofContents, FileStore.firstHandle]
    using List.mem_range.1 hfile

end Machine
end Pager
