import Pager.Proofs.Accounting
import Pager.Proofs.Operations

/-!
Mappings and the pages that belong to them. A record is kept under the start of its
mapping, and a mapping that starts where an older one did takes the place of its
record: only registered pages count as an overlap, and single pages of a mapping can
be removed. As long as no record is displaced that pages still refer to, each page
of a mapping lies in the range of the one record that carries the mapping's number.
-/
namespace Pager

namespace Space

/-- The record at `start` carries the number of the mapping, and its range contains the page. -/
def Leads (sp : Space) (start key : Nat) (mapping : MappingId) : Prop :=
  ∃ record, sp.mappings.get? start = some record ∧ record.id = mapping ∧
    start ≤ key ∧ key < start + record.pages * pageSize

/-- To each page of a mapping leads the one record with the mapping's number. -/
def Recorded (sp : Space) : Prop :=
  ∀ key p mapping, sp.pages.pages.get? key = some p → p.mapping = some mapping →
    ∃ start, sp.Leads start key mapping ∧
      ∀ other record, sp.mappings.get? other = some record → record.id = mapping → other = start

/-- Mappings have numbers of their own, and the next one has not been used. -/
structure Numbered (sp : Space) : Prop where
  page_lt : ∀ key p mapping, sp.pages.pages.get? key = some p → p.mapping = some mapping →
    mapping < sp.nextMapping
  record_lt : ∀ start record, sp.mappings.get? start = some record → record.id < sp.nextMapping
  unique : ∀ start other record record', sp.mappings.get? start = some record →
    sp.mappings.get? other = some record' → record.id = record'.id → start = other
  aligned : ∀ start record, sp.mappings.get? start = some record → start % pageSize = 0

theorem recorded_empty : ({} : Space).Recorded := by
  intro key p mapping hp
  cases hp

theorem numbered_empty : ({} : Space).Numbered := by
  constructor
  all_goals
    intros
    contradiction

/-- Records and numbers stay, and no page has come to a mapping. -/
structure Fades (sp after : Space) : Prop where
  mappings : after.mappings = sp.mappings
  next : sp.nextMapping ≤ after.nextMapping
  pages : ∀ key q mapping, after.pages.pages.get? key = some q → q.mapping = some mapping →
    ∃ p, sp.pages.pages.get? key = some p ∧ p.mapping = some mapping

/-- The pages of `record` are gone, and the record itself. -/
structure Unmaps (sp : Space) (start : Nat) (record : Mapping) (after : Space) : Prop where
  recorded : sp.mappings.get? start = some record
  mappings : after.mappings = sp.mappings.erase start
  next : after.nextMapping = sp.nextMapping
  pages : ∀ key p, after.pages.pages.get? key = some p ↔ sp.pages.pages.get? key = some p ∧
    ¬ (p.mapping = some record.id ∧ start ≤ key ∧ key < start + record.pages * pageSize)

/-- A mapping of `count` pages has come, under the next number. -/
structure Maps (sp : Space) (start count : Nat) (file : Handle) (after : Space) : Prop where
  aligned : start % pageSize = 0
  mappings : after.mappings = sp.mappings.insert start ⟨sp.nextMapping, count, file⟩
  next : after.nextMapping = sp.nextMapping + 1
  old : ∀ key p, sp.pages.pages.get? key = some p → after.pages.pages.get? key = some p
  pages : ∀ key p, after.pages.pages.get? key = some p → sp.pages.pages.get? key = some p ∨
    p.mapping = some sp.nextMapping ∧ start ≤ key ∧ key < start + count * pageSize

/-- Some page belongs to the mapping that is recorded at `start`. -/
def occupied (sp : Space) (start : Nat) : Bool :=
  match sp.mappings.get? start with
  | none => false
  | some record => sp.pages.pages.values.any fun p => p.mapping == some record.id

variable {sp after : Space} {start count : Nat} {record : Mapping} {file : Handle}

theorem occupied_iff : sp.occupied start = true ↔ ∃ record key p,
    sp.mappings.get? start = some record ∧ sp.pages.pages.get? key = some p ∧
      p.mapping = some record.id := by
  unfold occupied
  cases hrecord : sp.mappings.get? start with
  | none => simp
  | some record =>
    simp only [List.any_eq_true, Table.mem_values_iff, beq_iff_eq, Option.some.injEq]
    constructor
    · rintro ⟨p, ⟨key, hp⟩, hm⟩
      exact ⟨record, key, p, rfl, hp, hm⟩
    · rintro ⟨_, key, p, rfl, hp, hm⟩
      exact ⟨p, ⟨key, hp⟩, hm⟩

theorem Fades.refl : sp.Fades sp := ⟨rfl, Nat.le_refl _, fun _ q _ hq hm => ⟨q, hq, hm⟩⟩

/-- One page is put in, which belongs to no mapping but that of the old one. -/
theorem Fades.put {key : Nat} {q : Page} (hmappings : after.mappings = sp.mappings)
    (hnext : after.nextMapping = sp.nextMapping)
    (hpages : after.pages = ⟨sp.pages.pages.insert key q⟩)
    (hq : ∀ mapping, q.mapping = some mapping →
      ∃ p, sp.pages.pages.get? key = some p ∧ p.mapping = some mapping) : sp.Fades after := by
  refine ⟨hmappings, Nat.le_of_eq hnext.symm, fun other r mapping hr hm => ?_⟩
  rw [hpages, Table.get?_insert] at hr
  by_cases hkey : other = key
  · rw [if_pos hkey] at hr
    cases hr
    rw [hkey]
    exact hq mapping hm
  · rw [if_neg hkey] at hr
    exact ⟨r, hr, hm⟩

theorem Fades.numbered (h : sp.Fades after) (hsp : sp.Numbered) : after.Numbered where
  page_lt := by
    intro key q mapping hq hm
    obtain ⟨p, hp, hm⟩ := h.pages key q mapping hq hm
    exact Nat.lt_of_lt_of_le (hsp.page_lt key p mapping hp hm) h.next
  record_lt := by
    intro start record hrecord
    rw [h.mappings] at hrecord
    exact Nat.lt_of_lt_of_le (hsp.record_lt start record hrecord) h.next
  unique := by
    rw [h.mappings]
    exact hsp.unique
  aligned := by
    rw [h.mappings]
    exact hsp.aligned

theorem Fades.recorded (h : sp.Fades after) (hsp : sp.Recorded) : after.Recorded := by
  intro key q mapping hq hm
  obtain ⟨p, hp, hm⟩ := h.pages key q mapping hq hm
  unfold Leads
  rw [h.mappings]
  exact hsp key p mapping hp hm

/-- The number says which record leads to a page. -/
theorem Numbered.eq_of_leads (hsp : sp.Numbered) {key : Nat} {mapping : MappingId}
    (h : sp.Leads start key mapping) {other : Nat} (hrecord : sp.mappings.get? other = some record)
    (hid : record.id = mapping) : other = start := by
  obtain ⟨record', hrecord', hid', -⟩ := h
  exact hsp.unique other start record record' hrecord hrecord' (hid.trans hid'.symm)

/-- What is left of the records was there before. -/
theorem Unmaps.get?_mappings (h : sp.Unmaps start record after) {other : Nat}
    {record' : Mapping} : after.mappings.get? other = some record' ↔
      other ≠ start ∧ sp.mappings.get? other = some record' := by
  rw [h.mappings, Table.get?_erase]
  by_cases hother : other = start
  · simp [hother]
  · simp [hother]

theorem Unmaps.leads (h : sp.Unmaps start record after) {other key : Nat} {mapping : MappingId}
    (hne : other ≠ start) (hleads : sp.Leads other key mapping) : after.Leads other key mapping := by
  obtain ⟨record', hrecord, hrest⟩ := hleads
  exact ⟨record', h.get?_mappings.2 ⟨hne, hrecord⟩, hrest⟩

theorem Unmaps.numbered (h : sp.Unmaps start record after) (hsp : sp.Numbered) :
    after.Numbered where
  page_lt := by
    intro key p mapping hp hm
    rw [h.next]
    exact hsp.page_lt key p mapping ((h.pages key p).1 hp).1 hm
  record_lt := by
    intro other record' hrecord
    rw [h.next]
    exact hsp.record_lt other record' (h.get?_mappings.1 hrecord).2
  unique := by
    intro first second _ _ hfirst hsecond
    exact hsp.unique first second _ _ (h.get?_mappings.1 hfirst).2 (h.get?_mappings.1 hsecond).2
  aligned := by
    intro other record' hrecord
    exact hsp.aligned other record' (h.get?_mappings.1 hrecord).2

theorem Unmaps.recorded_after (h : sp.Unmaps start record after) (hsp : sp.Recorded) :
    after.Recorded := by
  intro key p mapping hp hm
  obtain ⟨hp, hleft⟩ := (h.pages key p).1 hp
  obtain ⟨other, hleads, hunique⟩ := hsp key p mapping hp hm
  have hne : other ≠ start := by
    rintro rfl
    obtain ⟨record', hrecord, rfl, hrange⟩ := hleads
    have hsame := h.recorded
    rw [hrecord] at hsame
    cases hsame
    exact hleft ⟨hm, hrange⟩
  refine ⟨other, h.leads hne hleads, ?_⟩
  intro third record'' hthird
  exact hunique third record'' (h.get?_mappings.1 hthird).2

theorem Maps.get?_mappings (h : sp.Maps start count file after) (other : Nat) :
    after.mappings.get? other =
      if other = start then some ⟨sp.nextMapping, count, file⟩ else sp.mappings.get? other := by
  rw [h.mappings, Table.get?_insert]

/-- A record has the new number, or it is an old one at another start. -/
theorem Maps.record_cases (h : sp.Maps start count file after) {other : Nat}
    (hrecord : after.mappings.get? other = some record) :
    (other = start ∧ record.id = sp.nextMapping) ∨
      other ≠ start ∧ sp.mappings.get? other = some record := by
  rw [h.get?_mappings] at hrecord
  by_cases hother : other = start
  · rw [if_pos hother] at hrecord
    cases hrecord
    exact .inl ⟨hother, rfl⟩
  · rw [if_neg hother] at hrecord
    exact .inr ⟨hother, hrecord⟩

theorem Maps.numbered (h : sp.Maps start count file after) (hsp : sp.Numbered) :
    after.Numbered where
  page_lt := by
    intro key p mapping hp hm
    rw [h.next]
    rcases h.pages key p hp with hold | ⟨hnew, -⟩
    · exact Nat.lt_succ_of_lt (hsp.page_lt key p mapping hold hm)
    · rw [hm] at hnew
      cases hnew
      exact Nat.lt_succ_self _
  record_lt := by
    intro other record hrecord
    rw [h.next]
    rcases h.record_cases hrecord with ⟨-, hid⟩ | ⟨-, hold⟩
    · rw [hid]
      exact Nat.lt_succ_self _
    · exact Nat.lt_succ_of_lt (hsp.record_lt other record hold)
  unique := by
    intro first second record record' hfirst hsecond hid
    rcases h.record_cases hfirst with ⟨hstart, hnew⟩ | ⟨-, hold⟩
    · rcases h.record_cases hsecond with ⟨hstart', -⟩ | ⟨-, hold'⟩
      · rw [hstart, hstart']
      · exact absurd (hid.symm.trans hnew) (Nat.ne_of_lt (hsp.record_lt second record' hold'))
    · rcases h.record_cases hsecond with ⟨-, hnew⟩ | ⟨-, hold'⟩
      · exact absurd (hid.trans hnew) (Nat.ne_of_lt (hsp.record_lt first record hold))
      · exact hsp.unique first second record record' hold hold' hid
  aligned := by
    intro other record hrecord
    rcases h.record_cases hrecord with ⟨rfl, -⟩ | ⟨-, hold⟩
    · exact h.aligned
    · exact hsp.aligned other record hold

/-- A new mapping keeps pages and records together, unless it takes a record from its pages. -/
theorem Maps.recorded_iff (h : sp.Maps start count file after) (hnumbered : sp.Numbered)
    (hsp : sp.Recorded) : after.Recorded ↔ sp.occupied start = false := by
  rw [← Bool.not_eq_true, occupied_iff]
  constructor
  · rintro hafter ⟨record, key, p, hrecord, hp, hm⟩
    obtain ⟨other, ⟨record', hother, hid, -⟩, -⟩ := hafter key p record.id (h.old key p hp) hm
    rcases h.record_cases hother with ⟨-, hnew⟩ | ⟨hne, hold⟩
    · exact absurd (hid.symm.trans hnew) (Nat.ne_of_lt (hnumbered.record_lt start record hrecord))
    · exact hne (hnumbered.unique other start record' record hold hrecord hid)
  · intro hfree key p mapping hp hm
    rcases h.pages key p hp with hold | ⟨hnew, hlow, hhigh⟩
    · obtain ⟨other, ⟨record, hrecord, rfl, hlow, hhigh⟩, hunique⟩ := hsp key p mapping hold hm
      have hne : other ≠ start := by
        rintro rfl
        exact hfree ⟨record, key, p, hrecord, hold, hm⟩
      have hkept : after.mappings.get? other = some record := by
        rw [h.get?_mappings, if_neg hne]
        exact hrecord
      refine ⟨other, ⟨record, hkept, rfl, hlow, hhigh⟩, fun third record' hthird hid => ?_⟩
      rcases h.record_cases hthird with ⟨-, hid'⟩ | ⟨-, hthird⟩
      · exact absurd (hid.symm.trans hid') (Nat.ne_of_lt (hnumbered.record_lt other record hrecord))
      · exact hunique third record' hthird hid
    · rw [hm] at hnew
      cases hnew
      have hrecord : after.mappings.get? start = some ⟨sp.nextMapping, count, file⟩ := by
        rw [h.get?_mappings, if_pos rfl]
      refine ⟨start, ⟨_, hrecord, rfl, hlow, hhigh⟩, fun third record' hthird hid => ?_⟩
      rcases h.record_cases hthird with ⟨hstart, -⟩ | ⟨-, hold⟩
      · exact hstart
      · exact absurd hid (Nat.ne_of_lt (hnumbered.record_lt third record' hold))

end Space
end Pager
