/-!
Tables keyed by numbers, kept in ascending order of their keys. The order is part
of the type, so a table is determined by what `get?` finds in it (`Table.ext_get?`)
and its keys come out sorted.
-/
namespace Pager

structure Table (α : Type) where
  entries : List (Nat × α)
  sorted : entries.Pairwise (·.1 < ·.1)

namespace Table

variable {α β : Type}

def empty : Table α := ⟨[], .nil⟩

instance : Inhabited (Table α) := ⟨empty⟩

def size (t : Table α) : Nat := t.entries.length

def keys (t : Table α) : List Nat := t.entries.map (·.1)

def values (t : Table α) : List α := t.entries.map (·.2)

def get? (t : Table α) (key : Nat) : Option α :=
  (t.entries.find? (·.1 == key)).map (·.2)

def contains (t : Table α) (key : Nat) : Bool := (t.get? key).isSome

/-- The least key that is at least `bound`. -/
def firstFrom (t : Table α) (bound : Nat) : Option Nat := t.keys.find? (bound ≤ ·)

/-- Stores `value` at `key`, in place of what was there. -/
def insert (t : Table α) (key : Nat) (value : α) : Table α where
  entries := t.entries.filter (·.1 < key) ++ (key, value) :: t.entries.filter (key < ·.1)
  sorted := by
    refine List.pairwise_append.2 ⟨t.sorted.filter _, ?_, ?_⟩
    · refine List.pairwise_cons.2 ⟨fun e he => ?_, t.sorted.filter _⟩
      simpa using (List.mem_filter.1 he).2
    · intro e he f hf
      have below : e.1 < key := by simpa using (List.mem_filter.1 he).2
      rcases List.mem_cons.1 hf with rfl | hf
      · exact below
      · have above : key < f.1 := by simpa using (List.mem_filter.1 hf).2
        exact Nat.lt_trans below above

def erase (t : Table α) (key : Nat) : Table α where
  entries := t.entries.filter (·.1 != key)
  sorted := t.sorted.filter _

/-- Changes the value at `key`, if there is one. -/
def modify (t : Table α) (key : Nat) (f : α → α) : Table α where
  entries := t.entries.map fun e => if e.1 = key then (e.1, f e.2) else e
  sorted := by
    refine List.pairwise_map.2 (t.sorted.imp ?_)
    intro a b h
    split <;> split <;> exact h

theorem mem_entries_unique (t : Table α) {key : Nat} {v w : α}
    (hv : (key, v) ∈ t.entries) (hw : (key, w) ∈ t.entries) : v = w := by
  have hs := t.sorted
  generalize t.entries = l at hv hw hs
  induction l with
  | nil => simp at hv
  | cons e rest ih =>
    obtain ⟨first, tail⟩ := List.pairwise_cons.1 hs
    rcases List.mem_cons.1 hv with ev | mv <;> rcases List.mem_cons.1 hw with ew | mw
    · exact (Prod.mk.inj (ev.trans ew.symm)).2
    · exact absurd (first _ mw) (ev ▸ Nat.lt_irrefl _)
    · exact absurd (first _ mv) (ew ▸ Nat.lt_irrefl _)
    · exact ih mv mw tail

theorem get?_eq_some_iff (t : Table α) {key : Nat} {v : α} :
    t.get? key = some v ↔ (key, v) ∈ t.entries := by
  constructor
  · intro h
    obtain ⟨⟨k, w⟩, found, rfl⟩ := Option.map_eq_some_iff.1 h
    have hk : k = key := by simpa using List.find?_some found
    subst hk
    exact List.mem_of_find?_eq_some found
  · intro h
    cases found : t.entries.find? (·.1 == key) with
    | none =>
      have := List.find?_eq_none.1 found _ h
      simp at this
    | some e =>
      obtain ⟨k, w⟩ := e
      have hk : k = key := by simpa using List.find?_some found
      subst hk
      have hw := List.mem_of_find?_eq_some found
      simp [get?, found, t.mem_entries_unique hw h]

theorem get?_eq_none_iff (t : Table α) {key : Nat} :
    t.get? key = none ↔ key ∉ t.keys := by
  constructor
  · intro h hk
    obtain ⟨⟨k, v⟩, he, rfl⟩ := List.mem_map.1 hk
    rw [t.get?_eq_some_iff.2 he] at h
    cases h
  · intro h
    cases found : t.get? key with
    | none => rfl
    | some v => exact absurd (List.mem_map.2 ⟨_, t.get?_eq_some_iff.1 found, rfl⟩) h

theorem contains_iff (t : Table α) {key : Nat} : t.contains key = true ↔ key ∈ t.keys := by
  rw [contains, Option.isSome_iff_ne_none, ne_eq, get?_eq_none_iff, Decidable.not_not]

theorem sorted_keys (t : Table α) : t.keys.Pairwise (· < ·) :=
  List.pairwise_map.2 t.sorted

@[simp] theorem get?_empty (key : Nat) : (empty : Table α).get? key = none := rfl

theorem get?_insert (t : Table α) (key : Nat) (value : α) (other : Nat) :
    (t.insert key value).get? other = if other = key then some value else t.get? other := by
  by_cases h : other = key
  · subst h
    rw [if_pos rfl, get?_eq_some_iff]
    simp [insert]
  · rw [if_neg h]
    apply Option.ext
    intro v
    rw [get?_eq_some_iff, get?_eq_some_iff]
    simp only [insert, List.mem_append, List.mem_cons, List.mem_filter, Prod.mk.injEq,
      decide_eq_true_eq]
    constructor
    · rintro (⟨hm, -⟩ | ⟨he, -⟩ | ⟨hm, -⟩)
      · exact hm
      · exact absurd he h
      · exact hm
    · intro hm
      rcases Nat.lt_or_gt_of_ne h with hlt | hgt
      · exact .inl ⟨hm, hlt⟩
      · exact .inr (.inr ⟨hm, hgt⟩)

theorem get?_erase (t : Table α) (key other : Nat) :
    (t.erase key).get? other = if other = key then none else t.get? other := by
  apply Option.ext
  intro v
  rw [get?_eq_some_iff]
  by_cases h : other = key
  · simp [erase, h]
  · simp [erase, h, get?_eq_some_iff]

theorem get?_modify (t : Table α) (key : Nat) (f : α → α) (other : Nat) :
    (t.modify key f).get? other =
      if other = key then (t.get? other).map f else t.get? other := by
  apply Option.ext
  intro v
  rw [get?_eq_some_iff]
  simp only [modify, List.mem_map]
  by_cases h : other = key
  · subst h
    rw [if_pos rfl, Option.map_eq_some_iff]
    constructor
    · rintro ⟨⟨k, w⟩, hm, he⟩
      by_cases hk : k = other
      · subst hk
        simp only [if_true, Prod.mk.injEq, true_and] at he
        exact ⟨w, t.get?_eq_some_iff.2 hm, he⟩
      · rw [if_neg hk, Prod.mk.injEq] at he
        exact absurd he.1 hk
    · rintro ⟨w, hw, rfl⟩
      exact ⟨(other, w), t.get?_eq_some_iff.1 hw, by simp⟩
  · rw [if_neg h, get?_eq_some_iff]
    constructor
    · rintro ⟨⟨k, w⟩, hm, he⟩
      by_cases hk : k = key
      · rw [if_pos hk, Prod.mk.injEq] at he
        exact absurd (he.1.symm.trans hk) h
      · rw [if_neg hk] at he
        exact he ▸ hm
    · intro hm
      exact ⟨_, hm, if_neg h⟩

@[simp] theorem keys_modify (t : Table α) (key : Nat) (f : α → α) :
    (t.modify key f).keys = t.keys := by
  simp only [keys, modify, List.map_map]
  refine List.map_congr_left fun e _ => ?_
  dsimp only [Function.comp]
  split <;> rfl

@[simp] theorem size_modify (t : Table α) (key : Nat) (f : α → α) :
    (t.modify key f).size = t.size := by
  simp [size, modify]

private theorem entries_eq_of_mem_iff {l m : List (Nat × α)}
    (hl : l.Pairwise (·.1 < ·.1)) (hm : m.Pairwise (·.1 < ·.1))
    (h : ∀ e, e ∈ l ↔ e ∈ m) : l = m := by
  induction l generalizing m with
  | nil =>
    cases m with
    | nil => rfl
    | cons e _ => exact absurd ((h e).2 (List.mem_cons_self ..)) (List.not_mem_nil)
  | cons e rest ih =>
    cases m with
    | nil => exact absurd ((h e).1 (List.mem_cons_self ..)) (List.not_mem_nil)
    | cons f others =>
      obtain ⟨le, restSorted⟩ := List.pairwise_cons.1 hl
      obtain ⟨lf, othersSorted⟩ := List.pairwise_cons.1 hm
      have same : e = f := by
        rcases List.mem_cons.1 ((h e).1 (List.mem_cons_self ..)) with he | he
        · exact he
        rcases List.mem_cons.1 ((h f).2 (List.mem_cons_self ..)) with hf | hf
        · exact hf.symm
        · exact absurd (Nat.lt_trans (le _ hf) (lf _ he)) (Nat.lt_irrefl _)
      subst same
      congr 1
      refine ih restSorted othersSorted fun x => ?_
      constructor
      · intro hx
        rcases List.mem_cons.1 ((h x).1 (List.mem_cons_of_mem _ hx)) with rfl | hx'
        · exact absurd (le _ hx) (Nat.lt_irrefl _)
        · exact hx'
      · intro hx
        rcases List.mem_cons.1 ((h x).2 (List.mem_cons_of_mem _ hx)) with rfl | hx'
        · exact absurd (lf _ hx) (Nat.lt_irrefl _)
        · exact hx'

/-- Two tables in which every look-up agrees are the same table. -/
theorem ext_get? {t u : Table α} (h : ∀ key, t.get? key = u.get? key) : t = u := by
  have : t.entries = u.entries := entries_eq_of_mem_iff t.sorted u.sorted fun ⟨key, v⟩ => by
    rw [← get?_eq_some_iff, ← get?_eq_some_iff, h]
  cases t
  cases u
  congr

/-- Some key lies in `[bound, stop)` exactly when the first key from `bound` on does. -/
theorem firstFrom_lt_iff (t : Table α) (bound stop : Nat) :
    (∃ key, t.firstFrom bound = some key ∧ key < stop) ↔
      ∃ key ∈ t.keys, bound ≤ key ∧ key < stop := by
  unfold firstFrom
  have hs := t.sorted_keys
  generalize t.keys = l at hs
  induction l with
  | nil => simp
  | cons k rest ih =>
    obtain ⟨first, restSorted⟩ := List.pairwise_cons.1 hs
    by_cases h : bound ≤ k
    · simp only [List.find?_cons_of_pos (p := (bound ≤ ·)) (by simpa using h), Option.some.injEq,
        exists_eq_left']
      constructor
      · intro hk
        exact ⟨k, List.mem_cons_self .., h, hk⟩
      · rintro ⟨x, hx, -, hlt⟩
        rcases List.mem_cons.1 hx with rfl | hx
        · exact hlt
        · exact Nat.lt_trans (first _ hx) hlt
    · rw [List.find?_cons_of_neg (by simpa using h)]
      refine (ih restSorted).trans ⟨?_, ?_⟩
      · rintro ⟨x, hx, hb⟩
        exact ⟨x, List.mem_cons_of_mem _ hx, hb⟩
      · rintro ⟨x, hx, hb, hlt⟩
        rcases List.mem_cons.1 hx with rfl | hx
        · exact absurd hb h
        · exact ⟨x, hx, hb, hlt⟩

end Table
end Pager
