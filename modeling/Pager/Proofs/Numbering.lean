import Pager.Proofs.Custody
import Pager.Proofs.Initializing
import Pager.Proofs.Reckoning

/-!
What is left of a mapping. An operation lets a space fade, takes one mapping out of it with all
that belongs to it, or brings a new one under the next number; so a number stands for one mapping
as long as its space lives, and what is left of a mapping only becomes less.
-/
namespace Pager

namespace Space

/-- A record or a page of the mapping is left. -/
def holds (sp : Space) (mapping : MappingId) : Bool :=
  sp.mappings.values.any (·.id == mapping) ||
    sp.pages.pages.values.any (·.mapping == some mapping)

/-- The pages of a recorded mapping lie in the range of the record. -/
def Ranged (sp : Space) : Prop := ∀ start record key p, sp.mappings.get? start = some record →
  sp.pages.pages.get? key = some p → p.mapping = some record.id →
    start ≤ key ∧ key < start + record.pages * pageSize

/-- What an operation makes of a space. -/
inductive Passes (sp : Space) : Space → Prop
  | fades {after : Space} (fades : sp.Fades after) : Passes sp after
  | unmaps {after : Space} {start : Nat} {record : Mapping} (unmaps : sp.Unmaps start record after) :
      Passes sp after
  | maps {after : Space} {start count : Nat} {file : Handle}
      (maps : sp.Maps start count file after) : Passes sp after

variable {sp after last : Space} {start count : Nat} {record : Mapping} {file : Handle}
  {mapping : MappingId}

theorem holds_iff : sp.holds mapping = true ↔
    (∃ start record, sp.mappings.get? start = some record ∧ record.id = mapping) ∨
      ∃ key p, sp.pages.pages.get? key = some p ∧ p.mapping = some mapping := by
  simp only [holds, Bool.or_eq_true, List.any_eq_true, Table.mem_values_iff, beq_iff_eq]
  constructor
  · rintro (⟨record, ⟨start, hrecord⟩, hid⟩ | ⟨p, ⟨key, hp⟩, hmapping⟩)
    · exact .inl ⟨start, record, hrecord, hid⟩
    · exact .inr ⟨key, p, hp, hmapping⟩
  · rintro (⟨start, record, hrecord, hid⟩ | ⟨key, p, hp, hmapping⟩)
    · exact .inl ⟨record, ⟨start, hrecord⟩, hid⟩
    · exact .inr ⟨p, ⟨key, hp⟩, hmapping⟩

theorem Fades.trans (h : sp.Fades after) (h' : after.Fades last) : sp.Fades last where
  mappings := h'.mappings.trans h.mappings
  next := Nat.le_trans h.next h'.next
  pages key q mapping hq hmapping := by
    obtain ⟨p, hp, hmapping⟩ := h'.pages key q mapping hq hmapping
    exact h.pages key p mapping hp hmapping

theorem Fades.holds (h : sp.Fades after) (hk : after.holds mapping = true) :
    sp.holds mapping = true := by
  rw [holds_iff, h.mappings] at hk
  refine holds_iff.2 (hk.imp_right ?_)
  rintro ⟨key, q, hq, hmapping⟩
  exact ⟨key, h.pages key q mapping hq hmapping⟩

/-- Unmapping leaves nothing of a mapping, and all of the others. -/
theorem Unmaps.holds_iff (h : sp.Unmaps start record after) (hn : sp.Numbered) (hr : sp.Ranged) :
    after.holds mapping = true ↔ sp.holds mapping = true ∧ mapping ≠ record.id := by
  rw [Space.holds_iff, Space.holds_iff]
  constructor
  · rintro (⟨other, record', hrecord, rfl⟩ | ⟨key, p, hp, hmapping⟩)
    · obtain ⟨hne, hrecord⟩ := h.get?_mappings.1 hrecord
      refine ⟨.inl ⟨other, record', hrecord, rfl⟩, fun hid => hne ?_⟩
      exact hn.unique other start record' record hrecord h.recorded hid
    · obtain ⟨hp, hleft⟩ := (h.pages key p).1 hp
      refine ⟨.inr ⟨key, p, hp, hmapping⟩, fun hid => hleft ?_⟩
      rw [hid] at hmapping
      exact ⟨hmapping, hr start record key p h.recorded hp hmapping⟩
  · rintro ⟨⟨other, record', hrecord, rfl⟩ | ⟨key, p, hp, hmapping⟩, hne⟩
    · refine .inl ⟨other, record', h.get?_mappings.2 ⟨?_, hrecord⟩, rfl⟩
      rintro rfl
      cases hrecord.symm.trans h.recorded
      exact hne rfl
    · refine .inr ⟨key, p, (h.pages key p).2 ⟨hp, fun hgone => hne ?_⟩, hmapping⟩
      exact Option.some.inj (hmapping.symm.trans hgone.1)

theorem Maps.holds_next (h : sp.Maps start count file after) :
    after.holds sp.nextMapping = true := by
  refine holds_iff.2 (.inl ⟨start, ⟨sp.nextMapping, count, file⟩, ?_, rfl⟩)
  rw [h.get?_mappings, if_pos rfl]

theorem ranged_empty : ({} : Space).Ranged := by
  intro start record key p hrecord
  cases hrecord

/-- Pages stay in the ranges of their records. -/
theorem Passes.ranged (h : sp.Passes after) (hn : sp.Numbered) (hr : sp.Ranged) :
    after.Ranged := by
  intro start record key q hrecord hq hmapping
  cases h with
  | fades h =>
    obtain ⟨p, hp, hmapping⟩ := h.pages key q record.id hq hmapping
    rw [h.mappings] at hrecord
    exact hr start record key p hrecord hp hmapping
  | unmaps h =>
    exact hr start record key q (h.get?_mappings.1 hrecord).2 ((h.pages key q).1 hq).1 hmapping
  | maps h =>
    rcases h.pages key q hq with hold | ⟨hnew, hrange⟩
    · rcases h.record_cases hrecord with ⟨-, hid⟩ | ⟨-, hrecord⟩
      · rw [hid] at hmapping
        exact absurd (hn.page_lt key q _ hold hmapping) (Nat.lt_irrefl _)
      · exact hr start record key q hrecord hold hmapping
    · have hid : record.id = sp.nextMapping := Option.some.inj (hmapping.symm.trans hnew)
      rw [h.get?_mappings] at hrecord
      split at hrecord
      · rename_i hstart
        cases hrecord
        rwa [hstart]
      · exact absurd hid (Nat.ne_of_lt (hn.record_lt start record hrecord))

theorem Passes.next_le (h : sp.Passes after) : sp.nextMapping ≤ after.nextMapping := by
  cases h with
  | fades h => exact h.next
  | unmaps h => exact Nat.le_of_eq h.next.symm
  | maps h =>
    rw [h.next]
    exact Nat.le_succ _

end Space

namespace Label

/-- Nothing that belongs to a mapping comes or goes. -/
def Inert : Label → Prop
  | register _ page => page.mapping = none
  | record .. | unrecord .. | remove .. | drop _ => False
  | _ => True

variable {l : Label}

theorem Inert.sparing (h : l.Inert) : l.Sparing := by
  cases l <;> first | exact h | exact h.elim

theorem Inert.not_drop (h : l.Inert) {id : SpaceId} : l ≠ .drop id := by
  rintro rfl
  exact h

theorem Founds.inert {child : SpaceId} {refuses : Option PagerError} (h : l.Founds child refuses) :
    l.Inert := by
  cases l <;> first | exact h.2.1 | exact h.elim | trivial

end Label

section

variable {m n : Moment} {l : Label} {id : SpaceId} {sp after : Space}

theorem Move.created_le (hmove : Move (.create id) m n) : m.machine.nextSpace ≤ id := by
  cases hmove
  exact Nat.le_refl _

/-- A space is there until it goes as a whole. -/
theorem Move.space_after (hmove : Move l m n) (hs : m.machine.spaces.get? id = some sp)
    (hl : l ≠ .drop id) : ∃ after, n.machine.spaces.get? id = some after := by
  have hinsert : ∀ (other : SpaceId) (next : Space),
      ∃ after, (m.machine.spaces.insert other next).get? id = some after := by
    intro other next
    rw [Table.get?_insert]
    split
    · exact ⟨next, rfl⟩
    · exact ⟨sp, hs⟩
  cases hmove with
  | note | turn | take | giveBack | scribble | request | handles | outside | switch | pin | spare
  | attempt | store => exact ⟨sp, hs⟩
  | @drop s _ other =>
    refine ⟨sp, ?_⟩
    rw [Table.get?_erase, if_neg, hs]
    rintro rfl
    exact hl rfl
  | _ => exact hinsert _ _

theorem Coherent.nextSpace_moves {kinds : Label → Prop} (h : Coherent m)
    (hmoves : Moves kinds m n) : m.machine.nextSpace ≤ n.machine.nextSpace :=
  h.preserves (P := fun n => m.machine.nextSpace ≤ n.machine.nextSpace) hmoves
    (fun _ _ hle hmove => Nat.le_trans hle hmove.nextSpace_le) (Nat.le_refl _)

/-- Moves to which mappings are nothing leave what there is of each of them. -/
theorem Coherent.holds_still (h : Coherent m) (hmove : Move l m n) (hl : l.Inert)
    (mapping : MappingId) : (n.machine.spaces.get? id).any (·.holds mapping) =
      (m.machine.spaces.get? id).any (·.holds mapping) := by
  rw [Bool.eq_iff_iff, Option.any_eq_true, Option.any_eq_true]
  constructor
  · rintro ⟨after, hs, hk⟩
    rcases h.space_before hmove hl.sparing hs with ⟨sp, hold, hfades⟩ | ⟨-, rfl⟩
    · exact ⟨sp, hold, hfades.holds hk⟩
    · cases hk
  · rintro ⟨sp, hs, hk⟩
    obtain ⟨after, hafter⟩ := hmove.space_after hs hl.not_drop
    refine ⟨after, hafter, ?_⟩
    rcases h.space_before hmove hl.sparing hafter with ⟨sp', hs', hfades⟩ | ⟨rfl, -⟩
    · cases hs.symm.trans hs'
      rw [Space.holds_iff, hfades.mappings]
      refine (Space.holds_iff.1 hk).imp_right ?_
      rintro ⟨key, p, hp, hmapping⟩
      have hplace : pageAt m.machine.spaces ⟨id, key⟩ = some p := (pageAt_of_get? hs key).trans hp
      rcases h.page_after hmove hplace with rfl | ⟨q, hq, hages⟩
      · exact hl.elim
      · have hfile := h.typed _ p hplace (by rw [hmapping]; rfl)
        exact ⟨key, q, (pageAt_of_get? hafter key).symm.trans hq,
          (hages.mapping hfile).trans hmapping⟩
    · have hnew := h.fresh _ hmove.created_le
      cases hs.symm.trans hnew

end

/-- Operations to which mappings are nothing. -/
def SpaceOp.Inert : SpaceOp → Prop
  | teardown | mmap .. | munmap | remove => False
  | _ => True

def Op.Inert : Op → Prop
  | onSpace _ _ op => op.Inert
  | _ => True

/-- A copy of a space that fails is torn down; all else is inert at every move. -/
theorem Op.Inert.makes {op : Op} {s : Machine} {l : Label} (h : op.Inert) (hl : op.Makes s l)
    (hcopies : ∀ id address refuses, op ≠ .onSpace id address (.duplicate refuses)) :
    l.Inert := by
  cases op with
  | createSpace =>
    rcases hl with rfl | rfl
    · trivial
    · trivial
  | onSpace id address op =>
    cases op with
    | teardown | mmap | munmap | remove => exact h.elim
    | registerAnonymous | register | registerSegment =>
      cases l <;> first | exact hl.2.1 | exact hl.elim
    | fault =>
      rcases hl with hl | hl
      · cases l <;> first | exact hl.2.1 | exact hl.elim
      · cases l <;> trivial
    | pin =>
      rcases hl with hl | hl
      · cases l <;> trivial
      · cases l <;> trivial
    | touch =>
      rcases hl with rfl | rfl
      · trivial
      · trivial
    | duplicate refuses => exact absurd rfl (hcopies id address refuses)
    | _ => cases l <;> trivial
  | unlock => cases l <;> trivial
  | openFile | closeFile | writeFile | switchFile | switchDisk =>
    obtain rfl := hl
    trivial

namespace Machine

/-- Each space has passed from what it was, or is new and nothing was mapped in it. -/
def Passes (s t : Machine) : Prop := ∀ id after, t.spaces.get? id = some after →
  (∃ sp, s.spaces.get? id = some sp ∧ sp.Passes after) ∨
    s.nextSpace ≤ id ∧ Space.Fades {} after

/-- A record or a page of the mapping is left in a space that is still there. -/
def holds (s : Machine) (id : SpaceId) (mapping : MappingId) : Bool :=
  (s.spaces.get? id).any (·.holds mapping)

variable {s t w : Machine} {id : SpaceId} {a : VirtualAddress} {sp after : Space}
  {mapping : MappingId}

theorem holds_of_get? (hs : s.spaces.get? id = some sp) : s.holds id mapping = sp.holds mapping := by
  rw [holds, hs, Option.any_some]

theorem holds_insert (ht : t.spaces = s.spaces.insert id after) (other : SpaceId) :
    t.holds other mapping = if other = id then after.holds mapping else s.holds other mapping := by
  rw [holds, ht, Table.get?_insert]
  split
  · exact Option.any_some
  · rfl

theorem holds_erase (ht : t.spaces = s.spaces.erase id) (other : SpaceId) :
    t.holds other mapping = (s.holds other mapping && decide (other ≠ id)) := by
  rw [holds, ht, Table.get?_erase]
  by_cases he : other = id
  · simp [he]
  · simp [he, holds]

namespace Passes

theorem refl : s.Passes s := fun _ after hs => .inl ⟨after, hs, .fades .refl⟩

theorem insert (hs : s.spaces.get? id = some sp) (hpasses : sp.Passes after)
    (ht : t.spaces = s.spaces.insert id after) : s.Passes t := by
  intro other last hget
  rw [ht, Table.get?_insert] at hget
  split at hget
  · rename_i he
    cases hget
    exact .inl ⟨sp, he ▸ hs, hpasses⟩
  · exact .inl ⟨last, hget, .fades .refl⟩

theorem erase (h : s.Passes w) (ht : t.spaces = w.spaces.erase id) : s.Passes t := by
  intro other last hget
  rw [ht, Table.get?_erase] at hget
  split at hget
  · cases hget
  · exact h other last hget

theorem of_moves {kinds : Label → Prop} (h : Coherent ⟨s, none⟩)
    (hmoves : Moves kinds ⟨s, none⟩ ⟨t, none⟩) (hl : ∀ l, kinds l → l.Sparing) : s.Passes t := by
  -- along the moves a space has done nothing but fade
  have hfades := h.preserves (P := fun n => s.nextSpace ≤ n.machine.nextSpace ∧
    ∀ id after, n.machine.spaces.get? id = some after →
      (∃ sp, s.spaces.get? id = some sp ∧ sp.Fades after) ∨
        s.nextSpace ≤ id ∧ Space.Fades {} after) hmoves ?_
    ⟨Nat.le_refl _, fun _ after hs => .inl ⟨after, hs, .refl⟩⟩
  · intro id after hget
    refine (hfades.2 id after hget).imp_left ?_
    rintro ⟨sp, hs, hfades⟩
    exact ⟨sp, hs, .fades hfades⟩
  · intro l m n hkind hm ⟨hle, hbefore⟩ hmove
    refine ⟨Nat.le_trans hle hmove.nextSpace_le, fun id after hget => ?_⟩
    rcases hm.space_before hmove (hl l hkind) hget with ⟨mid, hmid, hlast⟩ | ⟨rfl, rfl⟩
    · rcases hbefore id mid hmid with ⟨sp, hs, hfirst⟩ | ⟨hnew, hfirst⟩
      · exact .inl ⟨sp, hs, hfirst.trans hlast⟩
      · exact .inr ⟨hnew, hfirst.trans hlast⟩
    · exact .inr ⟨Nat.le_trans hle hmove.created_le, .refl⟩

theorem ranged (h : s.Passes t) (hn : s.Numbered) (hr : s.Each Space.Ranged) :
    t.Each Space.Ranged := by
  intro id after hget
  rcases h id after hget with ⟨sp, hs, hpasses⟩ | ⟨-, hfades⟩
  · exact hpasses.ranged (hn id sp hs) (hr id sp hs)
  · exact (Space.Passes.fades hfades).ranged Space.numbered_empty Space.ranged_empty

end Passes

theorem munmap_passes (h : Coherent ⟨s, none⟩) (hn : s.Numbered) {r : Except PagerError Unit}
    (run : munmap id a s = .ok (r, t)) : s.Passes t := by
  obtain ⟨sp, hs, ⟨-, -, rfl⟩ | ⟨record, after, hunmaps, ht⟩⟩ := munmap_unmaps h hn run
  · exact .refl
  · exact .insert hs (.unmaps hunmaps) ht

theorem mmap_passes {length : Nat} {writable : Bool} {file : Handle} {offset : Nat}
    {r : Except PagerError VirtualAddress} (h : Coherent ⟨s, none⟩)
    (run : mmap id a length writable file offset s = .ok (r, t)) : s.Passes t := by
  rcases mmap_maps run with ⟨e, rfl, hmoves⟩ | ⟨rfl, sp, count, opened, after, hs, hmaps, ht⟩
  · exact .of_moves h hmoves fun l hl => hl.sparing
  · exact .insert hs (.maps hmaps) ht

/-- So does each space in every operation. -/
theorem step_passes (h : Coherent ⟨s, none⟩) (hn : s.Numbered) {op : Op}
    {r : Except Failure Value} (run : step op s = .ok (r, t)) : s.Passes t := by
  have hmoves := step_moves h run
  by_cases hop : op.Inert ∧
      ∀ id address refuses, op ≠ .onSpace id address (.duplicate refuses)
  · exact .of_moves h hmoves fun l hl => (hop.1.makes hl hop.2).sparing
  · cases op with
    | onSpace id address op =>
      rcases onSpace_cases run with ⟨-, -, hrun⟩ | ⟨-, rfl⟩
      · cases op with
        | teardown =>
          obtain ⟨q, hq, -⟩ := liftPager_eq_ok.1 hrun
          exact Passes.refl.erase (teardown_moves h hq).2.2
        | mmap =>
          rcases held_cases hrun with ⟨q, hq, -⟩ | ⟨-, rfl⟩
          · exact mmap_passes h hq
          · exact .refl
        | munmap =>
          obtain ⟨q, hq, -⟩ := liftPager_eq_ok.1 hrun
          exact munmap_passes h hn hq
        | remove => exact .of_moves h hmoves fun l ⟨_, hl⟩ => hl.sparing
        | duplicate refuses =>
          obtain ⟨q, hq, -⟩ := liftPager_eq_ok.1 hrun
          obtain ⟨w, hfound, ⟨-, rfl, -⟩ | ⟨-, -, ht, -⟩⟩ := duplicate_moves h hq
          · exact .of_moves h hfound fun l hl => hl.sparing
          · exact (Passes.of_moves h hfound fun l hl => hl.sparing).erase ht
        | _ => exact absurd ⟨trivial, by simp⟩ hop
      · exact .refl
    | _ => exact absurd ⟨trivial, by simp⟩ hop

theorem step_ranged (h : Coherent ⟨s, none⟩) (hn : s.Numbered) (hr : s.Each Space.Ranged) {op : Op}
    {r : Except Failure Value} (run : step op s = .ok (r, t)) : t.Each Space.Ranged :=
  (step_passes h hn run).ranged hn hr

theorem run_ranged {ops : List Op} {results : List (Except Failure Value)} (h : Coherent ⟨s, none⟩)
    (hn : s.Numbered) (hr : s.Each Space.Ranged) (hrun : run ops s = .ok (results, t)) :
    t.Each Space.Ranged := by
  exact (run_keep (P := fun u => u.Numbered ∧ u.Each Space.Ranged) h (fun _ _ {_ _ _} hu hnr hstep =>
    ⟨(step_reckons hu hstep hnr.1).1, step_ranged hu hnr.1 hnr.2 hstep⟩) ⟨hn, hr⟩ hrun).2

theorem Reachable.ranged (hr : Reachable s) : s.Each Space.Ranged := by
  obtain ⟨frames, sectors, files, ops, start, results, hboot, hrun⟩ := hr
  exact run_ranged (boot_coherent hboot) (boot_each hboot) (boot_each hboot) hrun

theorem holds_moves {kinds : Label → Prop} (h : Coherent ⟨s, none⟩)
    (hmoves : Moves kinds ⟨s, none⟩ ⟨t, none⟩) (hl : ∀ l, kinds l → l.Inert) (id : SpaceId)
    (mapping : MappingId) : t.holds id mapping = s.holds id mapping :=
  h.keeps hmoves (fun m => m.machine.holds id mapping) fun hkind h hmove =>
    h.holds_still hmove (hl _ hkind) mapping

/-- An operation to which mappings are nothing leaves what there is of each of them. -/
theorem step_holds_still (h : Coherent ⟨s, none⟩) {op : Op} (hop : op.Inert)
    {r : Except Failure Value} (run : step op s = .ok (r, t)) (id : SpaceId)
    (mapping : MappingId) : t.holds id mapping = s.holds id mapping := by
  by_cases hcopies : ∀ id address refuses, op ≠ .onSpace id address (.duplicate refuses)
  · exact holds_moves h (step_moves h run) (fun l hl => hop.makes hl hcopies) id mapping
  · push Not at hcopies
    obtain ⟨parent, address, refuses, rfl⟩ := hcopies
    rcases onSpace_cases run with ⟨-, -, hrun⟩ | ⟨-, rfl⟩
    · obtain ⟨q, hq, -⟩ := liftPager_eq_ok.1 hrun
      obtain ⟨w, hfound, ⟨-, rfl, -⟩ | ⟨-, -, ht, -⟩⟩ := duplicate_moves h hq
      · exact holds_moves h hfound (fun l hl => hl.inert) id mapping
      · rw [holds_erase ht, holds_moves h hfound (fun l hl => hl.inert)]
        -- nothing was mapped in the copy that failed
        by_cases hid : id = s.nextSpace
        · rw [holds, hid, h.fresh _ (Nat.le_refl _)]
          rfl
        · simp [hid]
    · rfl

/-- Unmapping ends the recorded mapping and no other. -/
theorem munmap_holds (h : Coherent ⟨s, none⟩) (hn : s.Numbered) (hr : s.Each Space.Ranged)
    (hs : s.spaces.get? id = some sp) {record : Mapping}
    (hrecord : sp.mappings.get? a.value = some record) {r : Except PagerError Unit}
    (run : munmap id a s = .ok (r, t)) (other : SpaceId) (mapping : MappingId) :
    t.holds other mapping = true ↔
      s.holds other mapping = true ∧ ¬ (other = id ∧ mapping = record.id) := by
  obtain ⟨sp', hs', ⟨hnone, -, -⟩ | ⟨record', after, hunmaps, ht⟩⟩ := munmap_unmaps h hn run
  · cases hs.symm.trans hs'
    cases hnone.symm.trans hrecord
  · cases hs.symm.trans hs'
    cases hunmaps.recorded.symm.trans hrecord
    rw [holds_insert ht]
    split
    · rename_i he
      rw [he, holds_of_get? hs, hunmaps.holds_iff (hn id sp hs) (hr id sp hs)]
      simp
    · rename_i hne
      simp [hne]

end Machine

end Pager
