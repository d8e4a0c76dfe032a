import Pager.Proofs.Numbering
import Pager.Proofs.Teardown

/-!
How long the handle of a mapping stays open. The record of a mapping and its pages share one
handle, which nobody else has, and keep it for as long as one of them is left. So what is open of
a file that is used through mappings only is what callers hold and one handle for each mapping
that is not yet gone, whatever becomes of its pages on the way.
-/
namespace Pager

open Machine

/-- The operation makes pages refer to a handle of the file that its caller holds. -/
def Op.Lends (file : Nat) (r : Except Failure Value) (op : Op) : Prop :=
  ∃ handle v, op.Borrows handle ∧ handle.file = file ∧ r = .ok v

/-- Where mappings are nothing to an operation, no handle is opened and none changes hands. -/
theorem SpaceOp.Inert.handless {op : SpaceOp} {s : Machine} {id : SpaceId} {a : VirtualAddress}
    {l : Label} (h : op.Inert) (hl : op.Makes s id a l) : l ≠ .handles ∧ l ≠ .outside := by
  suffices hnot : ¬ (l = .handles ∨ l = .outside) from not_or.1 hnot
  rintro (rfl | rfl)
  all_goals
    cases op with
    | teardown | mmap | munmap | remove => exact h.elim
    | pin | fault | duplicate => exact hl.elim False.elim False.elim
    | touch => rcases hl with hl | hl <;> cases hl
    | _ => exact hl.elim

/-- Handles of the file are for callers and for the mappings that were made. -/
def Custody.letting (past : List Tenancy) (file : Nat) : Custody where
  caller handle := ∀ x ∈ past, x.handle ≠ handle
  lent handle := handle.file ≠ file
  page id _ mapping handle := match mapping with
    | none => handle.file ≠ file
    | some number => ⟨id, number, handle⟩ ∈ past
  record id number handle := ⟨id, number, handle⟩ ∈ past
  lends h _ _ := h
  copies h _ := h

namespace Machine

variable {s t u : Machine} {id : SpaceId} {a : VirtualAddress} {sp : Space} {file : Nat}
  {past : List Tenancy} {closed : List Handle} {handle : Handle} {x : Tenancy}

/-- A record or a page of the mapping is left. -/
def keeps (s : Machine) (x : Tenancy) : Bool := s.holds x.space x.number

/-- The mappings that operations make, in their order. -/
def mapped : List Op → Machine → List Tenancy
  | [], _ => []
  | op :: rest, s =>
    match step op s with
    | .ok (r, t) => (op.maps? s r).toList ++ mapped rest t
    | .error _ => []

/-- How many handles of the file callers hold. -/
def heldOf (s : Machine) (file : Nat) : Nat := (s.files.held.filter (·.file == file)).length

/-- How many of the mappings of the file are not gone. -/
def keptOf (s : Machine) (past : List Tenancy) (file : Nat) : Nat :=
  (past.filter fun x => x.handle.file == file && s.keeps x).length

/-- Which handles there are of a file that is used through mappings only: each mapping has one of
its own, which its record and its pages refer to. -/
structure Lets (s : Machine) (past : List Tenancy) (file : Nat) : Prop where
  held : s.files.held.Nodup
  handles : (past.map Tenancy.handle).Nodup
  numbers : (past.map fun x => (x.space, x.number)).Nodup
  callers : ∀ x ∈ past, x.handle ∉ s.files.held
  records : ∀ {id sp start record}, s.spaces.get? id = some sp →
    sp.mappings.get? start = some record → ⟨id, record.id, record.file⟩ ∈ past
  pages : ∀ {pl p number}, Pager.pageAt s.spaces pl = some p → p.mapping = some number →
    ∃ handle, p.handle = some handle ∧ ⟨pl.space, number, handle⟩ ∈ past
  others : ∀ {pl p handle}, Pager.pageAt s.spaces pl = some p → p.mapping = none →
    p.handle = some handle → handle.file ≠ file

/-- No more than the handles told were closed of the file, and none was opened. -/
structure Closes (s t : Machine) (file : Nat) (closed : List Handle) : Prop where
  mem_iff : ∀ handle, handle.file = file →
    (handle ∈ t.references ↔ handle ∈ s.references ∧ handle ∉ closed)
  count : t.openHandles file + (closed.filter (·.file == file)).length = s.openHandles file

theorem nodup_eraseDups (l : List Handle) : l.eraseDups.Nodup := by
  match l with
  | [] => exact .nil
  | handle :: rest =>
    rw [List.eraseDups_cons, List.nodup_cons, List.mem_eraseDups]
    refine ⟨fun hmem => ?_, nodup_eraseDups _⟩
    simp at hmem
termination_by l.length
decreasing_by exact Nat.lt_succ_of_le (List.length_filter_le ..)

/-- Handles are counted by a list of them. -/
theorem openHandles_eq_length {handles : List Handle} (hnodup : handles.Nodup)
    (hmem : ∀ handle, handle ∈ handles ↔ handle ∈ s.references ∧ handle.file = file) :
    s.openHandles file = handles.length := by
  refine List.Perm.length_eq ((List.perm_ext_iff_of_nodup ?_ hnodup).2 fun handle => ?_)
  · exact (nodup_eraseDups _).filter _
  · rw [List.mem_filter, List.mem_eraseDups, beq_iff_eq, hmem]

theorem Closes.of_mem_iff (hnodup : closed.Nodup)
    (hopen : ∀ handle ∈ closed, handle.file = file → handle ∈ s.references)
    (hmem : ∀ handle, handle.file = file →
      (handle ∈ t.references ↔ handle ∈ s.references ∧ handle ∉ closed)) :
    s.Closes t file closed := by
  refine ⟨hmem, ?_⟩
  have hboth : (t.references.eraseDups.filter (·.file == file) ++
      closed.filter (·.file == file)).Nodup := by
    refine List.nodup_append.2 ⟨(nodup_eraseDups _).filter _, hnodup.filter _, ?_⟩
    rintro handle hleft _ hgone rfl
    obtain ⟨hleft, hfile⟩ := List.mem_filter.1 hleft
    have hleft := (hmem handle (beq_iff_eq.1 hfile)).1 (List.mem_eraseDups.1 hleft)
    exact hleft.2 (List.mem_filter.1 hgone).1
  rw [openHandles_eq_length (s := s) hboth, List.length_append]
  · rfl
  · intro handle
    rw [List.mem_append, List.mem_filter, List.mem_filter, List.mem_eraseDups, beq_iff_eq]
    constructor
    · rintro (⟨hleft, hfile⟩ | ⟨hgone, hfile⟩)
      · exact ⟨((hmem handle hfile).1 hleft).1, hfile⟩
      · exact ⟨hopen handle hgone hfile, hfile⟩
    · rintro ⟨hthere, hfile⟩
      by_cases hgone : handle ∈ closed
      · exact .inr ⟨hgone, hfile⟩
      · exact .inl ⟨(hmem handle hfile).2 ⟨hthere, hgone⟩, hfile⟩

namespace Lets

variable {y : Tenancy}

theorem eq_of_handle (h : s.Lets past file) (hx : x ∈ past) (hy : y ∈ past)
    (he : x.handle = y.handle) : x = y := List.inj_on_of_nodup_map h.handles hx hy he

theorem eq_of_number (h : s.Lets past file) (hx : x ∈ past) (hy : y ∈ past)
    (hspace : x.space = y.space) (hnumber : x.number = y.number) : x = y :=
  List.inj_on_of_nodup_map h.numbers hx hy (Prod.ext hspace hnumber)

/-- What is left of a mapping refers to its handle. -/
theorem mem_references_of_keeps (h : s.Lets past file) (hx : x ∈ past) (hk : s.keeps x = true) :
    x.handle ∈ s.references := by
  obtain ⟨sp, hs, hk⟩ := (Option.any_eq_true ..).1 hk
  rcases Space.holds_iff.1 hk with ⟨start, record, hrecord, hid⟩ | ⟨key, p, hp, hmapping⟩
  · have hsame := h.eq_of_number hx (h.records hs hrecord) rfl hid.symm
    exact mem_references_iff.2
      (.inr (.inl ⟨x.space, sp, start, record, hs, hrecord, (congrArg Tenancy.handle hsame).symm⟩))
  · have hplace : Pager.pageAt s.spaces ⟨x.space, key⟩ = some p := (pageAt_of_get? hs key).trans hp
    obtain ⟨handle, hhandle, hmem⟩ := h.pages hplace hmapping
    have hsame := h.eq_of_number hx hmem rfl rfl
    exact mem_references_iff.2
      (.inr (.inr ⟨_, p, hplace, hhandle.trans (congrArg (some ·.handle) hsame).symm⟩))

/-- The open handles of the file are those of callers and of mappings that are not gone. -/
theorem mem_references_iff (h : s.Lets past file) (hfile : handle.file = file) :
    handle ∈ s.references ↔ handle ∈ s.files.held ∨
      ∃ x ∈ past, s.keeps x = true ∧ x.handle = handle := by
  constructor
  · intro hmem
    rcases Machine.mem_references_iff.1 hmem with
      hheld | ⟨id, sp, start, record, hs, hrecord, rfl⟩ | ⟨pl, p, hp, hhandle⟩
    · exact .inl hheld
    · refine .inr ⟨_, h.records hs hrecord, ?_, rfl⟩
      exact (holds_of_get? hs).trans (Space.holds_iff.2 (.inl ⟨start, record, hrecord, rfl⟩))
    · cases hmapping : p.mapping with
      | none => exact absurd hfile (h.others hp hmapping hhandle)
      | some number =>
        obtain ⟨sp, hs, hget⟩ := exists_space_of_pageAt hp
        obtain ⟨own, hown, hpast⟩ := h.pages hp hmapping
        cases hhandle.symm.trans hown
        refine .inr ⟨_, hpast, ?_, rfl⟩
        exact (holds_of_get? hs).trans (Space.holds_iff.2 (.inr ⟨pl.key, p, hget, hmapping⟩))
  · rintro (hheld | ⟨x, hx, hk, rfl⟩)
    · exact Machine.mem_references_iff.2 (.inl hheld)
    · exact h.mem_references_of_keeps hx hk

/-- The handle of a mapping is open for as long as a record or a page of the mapping is left. -/
theorem open_iff (h : s.Lets past file) (hx : x ∈ past) (hfile : x.handle.file = file) :
    x.handle ∈ s.references ↔ s.keeps x = true := by
  refine ⟨fun hmem => ?_, h.mem_references_of_keeps hx⟩
  rcases (h.mem_references_iff hfile).1 hmem with hheld | ⟨y, hy, hk, he⟩
  · exact absurd hheld (h.callers x hx)
  · rwa [h.eq_of_handle hx hy he.symm]

/-- Handles are open for callers, and one for each mapping that is not gone. -/
theorem openHandles_eq (h : s.Lets past file) :
    s.openHandles file = s.heldOf file + s.keptOf past file := by
  have hboth : (s.files.held.filter (·.file == file) ++
      (past.filter fun x => x.handle.file == file && s.keeps x).map Tenancy.handle).Nodup := by
    refine List.nodup_append.2 ⟨h.held.filter _, h.handles.sublist (.map _ List.filter_sublist), ?_⟩
    rintro handle hheld _ hkept rfl
    obtain ⟨x, hx, rfl⟩ := List.mem_map.1 hkept
    exact h.callers x (List.mem_filter.1 hx).1 (List.mem_filter.1 hheld).1
  rw [openHandles_eq_length hboth, List.length_append, List.length_map]
  · rfl
  · intro handle
    simp only [List.mem_append, List.mem_filter, List.mem_map, Bool.and_eq_true, beq_iff_eq]
    constructor
    · rintro (⟨hheld, hfile⟩ | ⟨x, ⟨hx, hfile, hk⟩, rfl⟩)
      · exact ⟨(h.mem_references_iff hfile).2 (.inl hheld), hfile⟩
      · exact ⟨h.mem_references_of_keeps hx hk, hfile⟩
    · rintro ⟨hmem, hfile⟩
      rcases (h.mem_references_iff hfile).1 hmem with hheld | ⟨x, hx, hk, rfl⟩
      · exact .inl ⟨hheld, hfile⟩
      · exact .inr ⟨x, ⟨hx, hfile, hk⟩, rfl⟩

/-- Mappings that go take their handles with them, and nothing else does. -/
theorem closes (hs : s.Lets past file) (ht : t.Lets past file)
    (hheld : t.files.held = s.files.held) (hnodup : closed.Nodup)
    (hclosed : ∀ handle ∈ closed, ∃ x ∈ past, s.keeps x = true ∧ x.handle = handle)
    (hkeeps : ∀ x ∈ past, t.keeps x = true ↔ s.keeps x = true ∧ x.handle ∉ closed) :
    s.Closes t file closed := by
  refine .of_mem_iff hnodup (fun handle hmem _ => ?_) fun handle hfile => ?_
  · obtain ⟨x, hx, hk, rfl⟩ := hclosed handle hmem
    exact hs.mem_references_of_keeps hx hk
  · rw [hs.mem_references_iff hfile, ht.mem_references_iff hfile, hheld]
    constructor
    · rintro (hmem | ⟨x, hx, hk, rfl⟩)
      · refine ⟨.inl hmem, fun hgone => ?_⟩
        obtain ⟨x, hx, -, rfl⟩ := hclosed handle hgone
        exact hs.callers x hx hmem
      · obtain ⟨hk, hleft⟩ := (hkeeps x hx).1 hk
        exact ⟨.inr ⟨x, hx, hk, rfl⟩, hleft⟩
    · rintro ⟨hmem | ⟨x, hx, hk, rfl⟩, hleft⟩
      · exact .inl hmem
      · exact .inr ⟨x, hx, (hkeeps x hx).2 ⟨hk, hleft⟩, rfl⟩

end Lets

/-- The mappings of a run: each has the handle that was opened for it, and a number that its space
goes past. -/
structure Letting (s : Machine) (past : List Tenancy) (file : Nat) : Prop where
  custody : (Custody.letting past file).Holds s
  dated : (Custody.dated s.files.nextSerial).Holds s
  held : s.files.held.Nodup
  handles : (past.map Tenancy.handle).Nodup
  numbers : (past.map fun x => (x.space, x.number)).Nodup
  opened : ∀ x ∈ past, x.handle.serial < s.files.nextSerial
  housed : ∀ x ∈ past, x.space < s.nextSpace
  counted : ∀ x ∈ past, ∀ sp, s.spaces.get? x.space = some sp → x.number < sp.nextMapping

/-- A page of a mapping is to have the handle of the mapping. -/
theorem Lets.of_custody (h : Coherent ⟨s, none⟩) (ha : s.Accounted)
    (hc : (Custody.letting past file).Holds s) (hheld : s.files.held.Nodup)
    (hhandles : (past.map Tenancy.handle).Nodup)
    (hnumbers : (past.map fun x => (x.space, x.number)).Nodup) : s.Lets past file where
  held := hheld
  handles := hhandles
  numbers := hnumbers
  callers x hx hmem := hc.callers x.handle hmem x hx rfl
  records hs hrecord := hc.records hs hrecord
  pages := by
    intro pl p number hp hmapping
    obtain ⟨handle, hhandle⟩ := ha.named pl p hp (h.typed pl p hp (by rw [hmapping]; rfl))
    have hpast := hc.pages hp hhandle
    rw [hmapping] at hpast
    exact ⟨handle, hhandle, hpast⟩
  others := by
    intro pl p handle hp hmapping hhandle
    have hother := hc.pages hp hhandle
    rw [hmapping] at hother
    exact hother

/-- A mapping that is made comes under the next number of its space. -/
theorem maps_of_step {op : Op} {r : Except Failure Value} (hx : op.maps? s r = some x)
    (run : step op s = .ok (r, t)) : ∃ sp start count opened after,
      s.spaces.get? x.space = some sp ∧ x.number = sp.nextMapping ∧
      sp.Maps start count opened after ∧ t.spaces = s.spaces.insert x.space after := by
  obtain ⟨_, a, _, _, _, _, sp, -, hs, hnumber, -, hmmap⟩ := mmap_of_maps hx run
  rcases mmap_maps hmmap with ⟨e, he, -⟩ | ⟨-, sp', count, opened, after, hs', hmaps, ht⟩
  · cases he
  · cases hs.symm.trans hs'
    exact ⟨sp, a.value, count, opened, after, hs, hnumber, hmaps, ht⟩

/-- Of a mapping that was just made there is its record. -/
theorem keeps_of_maps {op : Op} {r : Except Failure Value} (hx : op.maps? s r = some x)
    (run : step op s = .ok (r, t)) : t.keeps x = true := by
  obtain ⟨sp, start, count, opened, after, -, hnumber, hmaps, ht⟩ := maps_of_step hx run
  rw [keeps, holds_insert ht, if_pos rfl, hnumber]
  exact hmaps.holds_next

namespace Letting

variable {op : Op} {r : Except Failure Value}

theorem lets (h : s.Letting past file) (hc : Coherent ⟨s, none⟩) (ha : s.Accounted) :
    s.Lets past file := .of_custody hc ha h.custody h.held h.handles h.numbers

theorem held_step (h : s.Letting past file) (hc : Coherent ⟨s, none⟩)
    (run : step op s = .ok (r, t)) : t.files.held.Nodup := by
  have hboth := hc.preserves (P := fun n => n.machine.files.held.Nodup ∧
    ∀ handle ∈ n.machine.files.held, handle.serial < n.machine.files.nextSerial) (step_moves hc run)
    (fun {l m n} _ hm ⟨hheld, hdated⟩ hmove => ?_) ⟨h.held, h.dated.callers⟩
  · exact hboth.1
  · refine ⟨?_, fun handle hmem => ?_⟩
    · by_cases houtside : l = .outside
      · subst houtside
        cases hmove with
        | outside hhandled => exact hhandled.nodup hheld hdated
      · rw [hm.held_still hmove houtside]
        exact hheld
    · obtain ⟨hle, hnew⟩ := hm.handles hmove
      rcases hnew handle hmem with hold | ⟨heq, hlt⟩
      · exact Nat.lt_of_lt_of_le (hdated handle hold) hle
      · exact heq ▸ hlt

/-- A handle that is opened for a mapping is new to everybody. -/
theorem custody_step (h : s.Letting past file) (hc : Coherent ⟨s, none⟩)
    (run : step op s = .ok (r, t)) (hlends : ¬ op.Lends file r) :
    (Custody.letting (past ++ (op.maps? s r).toList) file).Holds t := by
  have hnew : ∀ x ∈ (op.maps? s r).toList, x.handle.serial = s.files.nextSerial := fun x hx =>
    (opens_spec (opens_of_maps (Option.mem_toList.1 hx) run)).1
  have hwider : (Custody.letting (past ++ (op.maps? s r).toList) file).Holds s := {
    callers := fun handle hheld x hx => by
      rcases List.mem_append.1 hx with hx | hx
      · exact h.custody.callers handle hheld x hx
      · rintro rfl
        exact absurd (hnew x hx) (Nat.ne_of_lt (h.dated.callers _ hheld))
    pages := fun {pl p handle} hp hhandle => by
      have hpage := h.custody.pages hp hhandle
      unfold Custody.letting at hpage ⊢
      cases hmapping : p.mapping with
      | none =>
        rw [hmapping] at hpage
        exact hpage
      | some number =>
        rw [hmapping] at hpage
        exact List.mem_append_left _ hpage
    records := fun hs hrecord => List.mem_append_left _ (h.custody.records hs hrecord) }
  refine step_custody hc hwider run (fun handle hmem => ?_) (fun v hr handle _ hborrows hfile => ?_)
    fun x hx => ?_
  · cases hx : op.maps? s r with
    | some x => exact .inl (held_of_opens hc (opens_of_maps hx run) run ▸ hmem)
    | none =>
      refine ((hc.handles_moves (step_moves hc run)).2 handle hmem).imp_right ?_
      rintro ⟨hle, -⟩ x hx rfl
      rw [Option.toList_none, List.append_nil] at hx
      exact absurd hle (Nat.not_le.2 (h.opened x hx))
  · exact hlends ⟨handle, v, hborrows, hfile, hr⟩
  · have hmem : x ∈ past ++ (op.maps? s r).toList := by
      rw [hx]
      exact List.mem_append_right _ (List.mem_singleton_self x)
    exact ⟨hmem, hmem⟩

/-- An operation lets what it lets to a mapping that it makes, and leaves the others theirs. -/
theorem step (h : s.Letting past file) (hc : Coherent ⟨s, none⟩) (hn : s.Numbered)
    (run : step op s = .ok (r, t)) (hlends : ¬ op.Lends file r) :
    t.Letting (past ++ (op.maps? s r).toList) file := by
  have hmoves := step_moves hc run
  have hserial := (hc.handles_moves hmoves).1
  have hspaces := hc.nextSpace_moves hmoves
  have hpasses := step_passes hc hn run
  have hold : ∀ x ∈ past, x.handle.serial < t.files.nextSerial ∧ x.space < t.nextSpace ∧
      ∀ after, t.spaces.get? x.space = some after → x.number < after.nextMapping := by
    intro x hx
    refine ⟨Nat.lt_of_lt_of_le (h.opened x hx) hserial, Nat.lt_of_lt_of_le (h.housed x hx) hspaces,
      fun after hafter => ?_⟩
    rcases hpasses x.space after hafter with ⟨sp, hs, hpasses⟩ | ⟨hnew, -⟩
    · exact Nat.lt_of_lt_of_le (h.counted x hx sp hs) hpasses.next_le
    · exact absurd (h.housed x hx) (Nat.not_lt.2 hnew)
  have hcustody := h.custody_step hc run hlends
  have hdated := step_dated hc h.dated run
  have hheld := h.held_step hc run
  cases hx : op.maps? s r with
  | none =>
    rw [hx, Option.toList_none, List.append_nil] at hcustody
    rw [Option.toList_none, List.append_nil]
    exact ⟨hcustody, hdated, hheld, h.handles, h.numbers, fun x hx => (hold x hx).1,
      fun x hx => (hold x hx).2.1, fun x hx => (hold x hx).2.2⟩
  | some x =>
    rw [hx, Option.toList_some] at hcustody
    rw [Option.toList_some]
    obtain ⟨hnew, hlt⟩ := opens_spec (opens_of_maps hx run)
    obtain ⟨sp, start, count, opened, after, hs, hnumber, hmaps, ht⟩ := maps_of_step hx run
    have hhoused : x.space < s.nextSpace := by
      refine Nat.lt_of_not_le fun hle => ?_
      cases hs.symm.trans (hc.fresh x.space hle)
    refine ⟨hcustody, hdated, hheld, ?_, ?_, ?_, ?_, ?_⟩
    · rw [List.map_append, List.nodup_append]
      refine ⟨h.handles, List.nodup_singleton _, ?_⟩
      rintro handle hmem _ hlast rfl
      obtain ⟨y, hy, rfl⟩ := List.mem_map.1 hmem
      rw [List.map_singleton, List.mem_singleton] at hlast
      exact absurd (hlast ▸ hnew) (Nat.ne_of_lt (h.opened y hy))
    · rw [List.map_append, List.nodup_append]
      refine ⟨h.numbers, List.nodup_singleton _, ?_⟩
      rintro pair hmem _ hlast rfl
      obtain ⟨y, hy, rfl⟩ := List.mem_map.1 hmem
      rw [List.map_singleton, List.mem_singleton, Prod.mk.injEq] at hlast
      obtain ⟨hspace, hsame⟩ := hlast
      exact absurd (hsame.trans hnumber) (Nat.ne_of_lt (h.counted y hy sp (hspace ▸ hs)))
    all_goals
      intro y hy
      rcases List.mem_append.1 hy with hy | hy
    · exact (hold y hy).1
    · rw [List.mem_singleton.1 hy, hnew]
      exact hlt
    · exact (hold y hy).2.1
    · rw [List.mem_singleton.1 hy]
      exact Nat.lt_of_lt_of_le hhoused hspaces
    · exact (hold y hy).2.2
    · intro last hget
      rw [List.mem_singleton.1 hy] at hget ⊢
      rw [ht, Table.get?_insert_self] at hget
      cases hget
      rw [hnumber, hmaps.next]
      exact Nat.lt_succ_self _

theorem run {ops : List Op} {results : List (Except Failure Value)} (h : s.Letting past file)
    (hc : Coherent ⟨s, none⟩) (hn : s.Numbered) (hrun : run ops s = .ok (results, t))
    (hlends : ∀ x ∈ ops.zip results, ¬ x.1.Lends file x.2) :
    t.Letting (past ++ mapped ops s) file := by
  induction ops generalizing s past results with
  | nil =>
    cases hrun
    rw [mapped, List.append_nil]
    exact h
  | cons op rest ih =>
    obtain ⟨r, u, later, hstep, hrest, rfl⟩ := run_cons_eq_ok.1 hrun
    rw [List.zip_cons_cons, List.forall_mem_cons] at hlends
    have hlast := ih (h.step hc hn hstep hlends.1) (hc.moves (step_moves hc hstep))
      (step_reckons hc hstep hn).1 hrest hlends.2
    rw [mapped, hstep]
    rwa [List.append_assoc] at hlast

end Letting

theorem boot_letting {frames sectors : Nat} {files : List Bytes}
    (hboot : boot frames sectors files = .ok s) : s.Letting [] file := by
  refine ⟨.of_boot hboot fun _ _ x hx => (by cases hx), boot_custody hboot, ?_, .nil, .nil,
    fun x hx => (by cases hx), fun x hx => (by cases hx), fun x hx => (by cases hx)⟩
  obtain ⟨pool, disk, -, -, rfl⟩ := boot_eq_ok hboot
  exact List.nodup_range.map fun _ _ he => congrArg Handle.file he

/-- Where no mapping comes or goes, no handle of the file does. -/
theorem Letting.closes_nothing {op : Op} {r : Except Failure Value} (h : s.Letting past file)
    (hr : Reachable s) (run : Machine.step op s = .ok (r, t)) (hlends : ¬ op.Lends file r)
    (hmaps : op.maps? s r = none) (hheld : t.files.held = s.files.held)
    (hkeeps : ∀ x, t.keeps x = s.keeps x) : s.Closes t file [] := by
  have hc := hr.coherent
  have ht := h.step hc hr.numbered run hlends
  rw [hmaps, Option.toList_none, List.append_nil] at ht
  have hlets := ht.lets (hc.moves (step_moves hc run)) (step_accounted hc hr.accounted run)
  refine (h.lets hc hr.accounted).closes hlets hheld .nil (fun handle hmem => by cases hmem)
    fun x _ => ?_
  rw [hkeeps x]
  simp

/-- Pages are populated, moved and copied without a handle being opened or closed. -/
theorem Letting.still {address : Nat} {op : SpaceOp} {r : Except Failure Value}
    (h : s.Letting past file) (hr : Reachable s)
    (run : Machine.step (.onSpace id address op) s = .ok (r, t)) (hop : op.Inert)
    (hlends : ¬ (Op.onSpace id address op).Lends file r) :
    t.files.nextSerial = s.files.nextSerial ∧ s.Closes t file [] := by
  have hc := hr.coherent
  have hinert : (Op.onSpace id address op).Inert := hop
  have hhandles : (t.files.nextSerial, t.files.held) = (s.files.nextSerial, s.files.held) :=
    hc.keeps (step_moves hc run) (fun m => (m.machine.files.nextSerial, m.machine.files.held))
      fun hl hm hmove => by
        obtain ⟨hopen, hout⟩ := hop.handless hl
        obtain ⟨hserial, hheld⟩ := (hm.traffic hmove hopen hout).handles
        rw [hserial, hheld]
  obtain ⟨hserial, hheld⟩ := Prod.mk.inj hhandles
  refine ⟨hserial, h.closes_nothing hr run hlends ?_ hheld fun x => ?_⟩
  · cases op with
    | mmap => exact hop.elim
    | _ => rfl
  · exact step_holds_still hc hinert run x.space x.number

/-- The handle that a mapping opens is closed again if the mapping fails. -/
theorem Letting.failed {address : Nat} {op : SpaceOp} {e : Failure} (h : s.Letting past file)
    (hr : Reachable s) (run : Machine.step (.onSpace id address op) s = .ok (.error e, t))
    (hop : op.maps = true) : s.Closes t file [] := by
  have hc := hr.coherent
  cases op with
  | mmap length writable handle offset =>
    have hopens : Moves (Label.Opens id) ⟨s, none⟩ ⟨t, none⟩ := by
      rcases onSpace_cases run with ⟨-, -, hrun⟩ | ⟨-, rfl⟩
      · rcases held_cases hrun with ⟨q, hq, hr⟩ | ⟨-, rfl⟩
        · rcases mmap_maps hq with ⟨e, rfl, hmoves⟩ | ⟨rfl, -⟩
          · exact hmoves
          · cases hr
        · exact .refl
      · exact .refl
    refine h.closes_nothing hr run ?_ rfl ?_ fun x => ?_
    · rintro ⟨_, _, hborrows, -⟩
      exact hborrows
    · exact hc.keeps hopens (fun m => m.machine.files.held) fun hl hm hmove =>
        hm.held_still hmove (by
          rintro rfl
          exact hl)
    · exact holds_moves hc hopens (fun l hl => by cases l <;> trivial) x.space x.number
  | _ => cases hop

/-- What takes pages and records away and registers none leaves the handles as they were let. -/
theorem Letting.lets_moves {kinds : Label → Prop} (h : s.Letting past file) (hr : Reachable s)
    (hmoves : Moves kinds ⟨s, none⟩ ⟨t, none⟩) (hl : ∀ l, kinds l → l.Clears id) :
    t.Lets past file ∧ t.files.held = s.files.held := by
  have hc := hr.coherent
  have hheld : t.files.held = s.files.held :=
    hc.keeps hmoves (fun m => m.machine.files.held) fun hkind hm hmove =>
      hm.held_still hmove (by
        rintro rfl
        exact hl _ hkind)
  have hcustody : (Custody.letting past file).Holds t := h.custody.moves hc hmoves fun l hkind => by
    have hclears := hl l hkind
    cases l <;> first | exact hclears.elim | trivial
  have haccounted : t.Accounted := hc.preserves (P := fun n => n.machine.Accounted) hmoves
    (fun {l _ _} hkind hm ha hmove => hm.accounted_move hmove (by
      have hclears := hl l hkind
      cases l <;> first | exact hclears.elim | trivial) ha) hr.accounted
  refine ⟨.of_custody (hc.moves hmoves) haccounted hcustody ?_ h.handles h.numbers, hheld⟩
  rw [hheld]
  exact h.held

/-- Unmapping closes the handle of the mapping, however writing back its pages ends. -/
theorem Letting.munmap (h : s.Letting past file) (hr : Reachable s)
    (hs : s.spaces.get? id = some sp) {r : Except PagerError Unit}
    (run : Machine.munmap id a s = .ok (r, t)) :
    s.Closes t file ((sp.mappings.get? a.value).map Mapping.file).toList := by
  have hc := hr.coherent
  have hlets := h.lets hc hr.accounted
  obtain ⟨ht, hheld⟩ := h.lets_moves hr (munmap_moves hc run).1 fun l hl => hl.clears
  cases hrecord : sp.mappings.get? a.value with
  | none =>
    obtain ⟨sp', hs', ⟨-, -, rfl⟩ | ⟨record, after, hunmaps, -⟩⟩ := munmap_unmaps hc hr.numbered run
    · refine hlets.closes ht rfl .nil (fun handle hmem => by cases hmem) fun x _ => ?_
      simp
    · cases hs.symm.trans hs'
      cases hrecord.symm.trans hunmaps.recorded
  | some record =>
    have hpast := hlets.records hs hrecord
    have hkept : s.keeps ⟨id, record.id, record.file⟩ = true :=
      (holds_of_get? hs).trans (Space.holds_iff.2 (.inl ⟨a.value, record, hrecord, rfl⟩))
    refine hlets.closes ht hheld (List.nodup_singleton _) (fun handle hmem => ?_) fun x hx => ?_
    · exact ⟨_, hpast, hkept, (List.mem_singleton.1 hmem).symm⟩
    · rw [keeps, keeps, munmap_holds hc hr.numbered hr.ranged hs hrecord run, Option.map_some,
        Option.toList_some, List.mem_singleton]
      refine and_congr_right fun _ => not_congr ⟨fun ⟨hspace, hnumber⟩ => ?_, fun hhandle => ?_⟩
      · exact congrArg Tenancy.handle (hlets.eq_of_number hx hpast hspace hnumber)
      · have hsame := hlets.eq_of_handle hx hpast hhandle
        exact ⟨congrArg Tenancy.space hsame, congrArg Tenancy.number hsame⟩

/-- Tearing a space down closes the handle of each of its mappings that is not gone yet. -/
theorem Letting.teardown (h : s.Letting past file) (hr : Reachable s)
    {r : Except PagerError Unit} (run : Machine.teardown id s = .ok (r, t)) :
    s.Closes t file ((past.filter fun x => x.space == id && s.keeps x).map Tenancy.handle) := by
  obtain ⟨-, hmoves, hspaces⟩ := teardown_moves hr.coherent run
  have hlets := h.lets hr.coherent hr.accounted
  obtain ⟨ht, hheld⟩ := h.lets_moves hr hmoves fun l hl => hl
  refine hlets.closes ht hheld (hlets.handles.sublist (.map _ List.filter_sublist))
    (fun handle hmem => ?_) fun x hx => ?_
  · obtain ⟨x, hx, rfl⟩ := List.mem_map.1 hmem
    obtain ⟨hx, hcond⟩ := List.mem_filter.1 hx
    exact ⟨x, hx, (Bool.and_eq_true_iff.1 hcond).2, rfl⟩
  · rw [keeps, holds_erase hspaces, Bool.and_eq_true_iff, decide_eq_true_iff]
    refine and_congr_right fun hk => ⟨fun hne hmem => ?_, fun hleft he => hleft ?_⟩
    · obtain ⟨y, hy, hsame⟩ := List.mem_map.1 hmem
      obtain ⟨hy, hcond⟩ := List.mem_filter.1 hy
      rw [hlets.eq_of_handle hy hx hsame, Bool.and_eq_true_iff, beq_iff_eq] at hcond
      exact hne hcond.1
    · refine List.mem_map_of_mem (List.mem_filter.2 ⟨hx, ?_⟩)
      rw [he, beq_self_eq_true]
      exact hk

/-- A caller that gives up its handle takes it from no mapping. -/
theorem Letting.close (h : s.Letting past file) (hr : Reachable s) (handle : Handle) :
    s.Closes { s with files := s.files.drop handle } file
      (s.files.held.filter (· == handle)) := by
  have hc := hr.coherent
  have run : Machine.step (.closeFile handle) s =
    .ok (.ok .unit, { s with files := s.files.drop handle }) := rfl
  have hlets := h.lets hc hr.accounted
  have hnone : (Op.closeFile handle).maps? s (.ok .unit) = none := rfl
  have ht := h.step hc hr.numbered run fun ⟨_, _, hborrows, _⟩ => hborrows
  rw [hnone, Option.toList_none, List.append_nil] at ht
  have hafter := ht.lets (hc.moves (step_moves hc run)) (step_accounted hc hr.accounted run)
  have herase : ∀ own, own ∈ (s.files.drop handle).held ↔ own ≠ handle ∧ own ∈ s.files.held :=
    fun own => h.held.mem_erase_iff
  refine .of_mem_iff (h.held.filter _) (fun own hmem _ => ?_) fun own hfile => ?_
  · exact Machine.mem_references_iff.2 (.inl (List.mem_filter.1 hmem).1)
  · rw [hlets.mem_references_iff hfile, hafter.mem_references_iff hfile, herase, List.mem_filter,
      beq_iff_eq]
    constructor
    · rintro (⟨hne, hheld⟩ | ⟨x, hx, hk, rfl⟩)
      · exact ⟨.inl hheld, fun hgone => hne hgone.2⟩
      · exact ⟨.inr ⟨x, hx, hk, rfl⟩, fun hgone => hlets.callers x hx hgone.1⟩
    · rintro ⟨hheld | hkept, hleft⟩
      · exact .inl ⟨fun he => hleft ⟨hheld, he⟩, hheld⟩
      · exact .inr hkept

/-- Unmapping does not fail either way. -/
theorem Reachable.munmap_ok (hr : Reachable s) (hs : s.spaces.get? id = some sp)
    (a : VirtualAddress) : ∃ r t, munmap id a s = .ok (r, t) := by
  obtain ⟨hlies, hfits⟩ := hr.mapsFit
  cases hrun : munmap id a s with
  | ok last => exact ⟨last.1, last.2, rfl⟩
  | error b =>
    refine absurd (munmap_halts hr.coherent hs (hlies id sp hs) hrun)
      (hfits.not_halts hr.coherent fun l hl => ?_)
    cases l <;> first | exact hl.elim | trivial

/-- The handle of a mapping lives as long as the mapping. Of a file that is used through mappings
only there are open what callers hold and one handle for each mapping that was made and of which
a record or a page is left; only what ends a mapping closes its handle. -/
theorem run_lets {frames sectors : Nat} {files : List Bytes} {ops : List Op} {start : Machine}
    {results : List (Except Failure Value)} (hboot : boot frames sectors files = .ok start)
    (hrun : run ops start = .ok (results, s))
    (honly : ∀ x ∈ ops.zip results, ¬ x.1.Lends file x.2) :
    s.Lets (mapped ops start) file ∧
    s.openHandles file = s.heldOf file + s.keptOf (mapped ops start) file ∧
    (∀ x ∈ mapped ops start, x.handle.file = file →
      (x.handle ∈ s.references ↔ s.keeps x = true)) ∧
    (∀ handle, step (.closeFile handle) s =
        .ok (.ok .unit, { s with files := s.files.drop handle }) ∧
      s.Closes { s with files := s.files.drop handle } file
        (s.files.held.filter (· == handle))) ∧
    (∀ id address op r t, step (.onSpace id address op) s = .ok (r, t) →
      ¬ (Op.onSpace id address op).Lends file r →
      (op.Inert → t.files.nextSerial = s.files.nextSerial ∧ s.Closes t file []) ∧
      (op.maps = true → ∀ e, r = .error e → s.Closes t file []) ∧
      ∀ x, (Op.onSpace id address op).maps? s r = some x → t.keeps x = true) ∧
    ∀ id sp, s.spaces.get? id = some sp →
      (∀ a, ∃ r t, munmap id a s = .ok (r, t) ∧
        s.Closes t file ((sp.mappings.get? a.value).map Mapping.file).toList) ∧
      ∃ t, teardown id s = .ok (.ok (), t) ∧ s.Closes t file
        (((mapped ops start).filter fun x => x.space == id && s.keeps x).map Tenancy.handle) := by
  have hr : Reachable s := ⟨frames, sectors, files, ops, start, results, hboot, hrun⟩
  have hstart : start.Numbered := fun id sp hs => by
    rw [boot_spaces hboot] at hs
    cases hs
  have hletting := (boot_letting hboot).run (boot_coherent hboot) hstart hrun honly
  rw [List.nil_append] at hletting
  have hlets := hletting.lets hr.coherent hr.accounted
  refine ⟨hlets, hlets.openHandles_eq, fun x hx => hlets.open_iff hx, fun handle => ?_,
    fun id address op r t hstep hlends => ?_, fun id sp hs => ?_⟩
  · exact ⟨rfl, hletting.close hr handle⟩
  · refine ⟨fun hop => hletting.still hr hstep hop hlends, ?_, fun x hx => keeps_of_maps hx hstep⟩
    rintro hop e rfl
    exact hletting.failed hr hstep hop
  · obtain ⟨hlies, hfits⟩ := hr.mapsFit
    obtain ⟨t, hteardown⟩ := teardown_ok hr.coherent hs (hlies id sp hs) hfits
    refine ⟨fun a => ?_, t, hteardown, hletting.teardown hr hteardown⟩
    obtain ⟨r, u, hmunmap⟩ := hr.munmap_ok hs a
    exact ⟨r, u, hmunmap, hletting.munmap hr hs hmunmap⟩

/-- A file is mapped through a handle that its caller closes at once; the first page of the mapping
is stored to, and the second removed. Another mapping loses its only page and then its record to a
third one. Then the file takes nothing any more. -/
def lodging : List Op := [.createSpace, .openFile ⟨0, 0⟩,
  .onSpace 1 0x10000 (.mmap 8192 true ⟨0, 1⟩ 0), .closeFile ⟨0, 1⟩,
  .onSpace 1 0x10000 (.copyTo [7]), .onSpace 1 0x11000 .remove,
  .onSpace 1 0x20000 (.mmap 4096 false ⟨0, 0⟩ 0), .onSpace 1 0x20000 .remove,
  .onSpace 1 0x20000 (.mmap 4096 false ⟨0, 0⟩ 0),
  .onSpace 1 0x30000 (.registerSegment ⟨1, 0⟩ 0 1 0 false), .onSpace 1 0 (.duplicate none),
  .switchFile ⟨0, 0⟩ { failWrites := some fun _ => true }]

set_option synthInstance.maxSize 1024 in
/-- Of the three mappings the second is gone, so that with the caller's there are three handles.
Unmapping the first one fails to write its page back, and closes its handle all the same. -/
theorem run_lets_of_lodging : ∃ start results s t,
    boot 2 16 [List.replicate 4097 1, [5]] = .ok start ∧ run lodging start = .ok (results, s) ∧
    mapped lodging start = [⟨1, 1, ⟨0, 2⟩⟩, ⟨1, 2, ⟨0, 3⟩⟩, ⟨1, 3, ⟨0, 4⟩⟩] ∧
    s.Lets (mapped lodging start) 0 ∧ s.openHandles 0 = 3 ∧ s.heldOf 0 = 1 ∧
    munmap 1 ⟨0x10000⟩ s = .ok (.error (.store .device), t) ∧ s.Closes t 0 [⟨0, 2⟩] ∧
    t.openHandles 0 = 2 := by
  have hend : (boot 2 16 [List.replicate 4097 1, [5]] >>= fun start => run lodging start >>=
      fun last => munmap 1 ⟨0x10000⟩ last.2 >>= fun gone => .ok (mapped lodging start,
        last.2.openHandles 0, last.2.heldOf 0,
        (last.2.spaces.get? 1).bind fun sp => (sp.mappings.get? 0x10000).map Mapping.file,
        gone.1)) =
      .ok ([⟨1, 1, ⟨0, 2⟩⟩, ⟨1, 2, ⟨0, 3⟩⟩, ⟨1, 3, ⟨0, 4⟩⟩], 3, 1, some ⟨0, 2⟩,
        .error (.store .device)) := by
    decide +kernel
  obtain ⟨start, hboot, hend⟩ := except_bind_eq_ok.1 hend
  obtain ⟨⟨results, s⟩, hrun, hend⟩ := except_bind_eq_ok.1 hend
  obtain ⟨⟨r, t⟩, hgone, hend⟩ := except_bind_eq_ok.1 hend
  obtain ⟨hmapped, hrest⟩ := Prod.mk.inj (Except.ok.inj hend)
  obtain ⟨hopen, hrest⟩ := Prod.mk.inj hrest
  obtain ⟨hheld, hrest⟩ := Prod.mk.inj hrest
  obtain ⟨hfile, hr⟩ := Prod.mk.inj hrest
  obtain rfl : r = .error (.store .device) := hr
  obtain ⟨sp, hs, hfile⟩ := Option.bind_eq_some_iff.1 hfile
  have hborrows : ∀ op ∈ lodging, ∀ handle, op.Borrows handle → handle.file ≠ 0 := by
    simp [lodging, Op.Borrows]
  have honly : ∀ x ∈ lodging.zip results, ¬ x.1.Lends 0 x.2 :=
    fun x hx ⟨handle, _, hlent, hzero, _⟩ =>
      hborrows x.1 (List.of_mem_zip hx).1 handle hlent hzero
  obtain ⟨hlets, -, -, -, -, hends⟩ := run_lets hboot hrun honly
  obtain ⟨_, u, hmunmap, hcloses⟩ := (hends 1 sp hs).1 ⟨0x10000⟩
  cases hgone.symm.trans hmunmap
  rw [hfile, Option.toList_some] at hcloses
  have hcount := hcloses.count
  rw [hopen] at hcount
  exact ⟨start, results, s, t, hboot, hrun, hmapped, hlets, hopen, hheld, hgone, hcloses,
    Nat.succ.inj hcount⟩

end Machine
end Pager
