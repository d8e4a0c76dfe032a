import Pager.Proofs.Touching

/-!
Registered pages as cells. Pages that are added to a space bring their cells to
places where there were none, and nothing else changes in memory. A segment's
pages lie side by side, so what its cell at a place is told to read follows from
how far the place is from the start.
-/
namespace Pager

open Machine

/-- The cell of a page that was never populated. -/
def Page.firstCell (p : Page) : Option Cell :=
  match p.kind with
  | .unpopulated u => if u.target = .anonymous then some (.waiting u) else none
  | _ => none

namespace Flat

/-- The cells that pages of a space start out with. -/
def ofPages (id : SpaceId) (pages : List Page) : Flat := fun pl =>
  pages.findSome? fun p => if placeOf id p = pl then p.firstCell else none

variable {id : SpaceId} {pages : List Page} {pl : Place} {p : Page}

theorem ofPages_of_mem (hp : p ∈ pages) (hpl : placeOf id p = pl)
    (hsame : ∀ q ∈ pages, placeOf id q = pl → q.firstCell = p.firstCell) :
    ofPages id pages pl = p.firstCell := by
  unfold ofPages
  cases hfound : pages.findSome? _ with
  | none =>
    have hnone := List.findSome?_eq_none_iff.1 hfound p hp
    rw [if_pos hpl] at hnone
    exact hnone.symm
  | some c =>
    obtain ⟨q, hq, hc⟩ := List.exists_of_findSome?_eq_some hfound
    by_cases hplace : placeOf id q = pl
    · rw [if_pos hplace] at hc
      rw [← hc]
      exact hsame q hq hplace
    · rw [if_neg hplace] at hc
      cases hc

theorem ofPages_of_not_mem (h : ∀ p ∈ pages, placeOf id p ≠ pl) : ofPages id pages pl = none := by
  apply List.findSome?_eq_none_iff.2
  intro p hp
  exact if_neg (h p hp)

theorem ofPages_cons {rest : List Page} : ofPages id (p :: rest) =
    fun pl => (single (placeOf id p) p.firstCell pl).or (ofPages id rest pl) := by
  funext pl
  unfold ofPages single
  rw [List.findSome?_cons]
  by_cases hpl : placeOf id p = pl
  · rw [if_pos hpl, hpl, Function.update_self]
    cases p.firstCell <;> rfl
  · rw [if_neg hpl, Function.update_of_ne (Ne.symm hpl), Option.none_or]

theorem ofPages_single : ofPages id [p] = single (placeOf id p) p.firstCell := by
  rw [ofPages_cons]
  funext pl
  exact Option.or_none

end Flat

namespace Machine

variable {s t : Machine} {id : SpaceId} {p : Page}

theorem cell_of_unpopulated (h : p.isInitialized = false) : s.cell p = p.firstCell := by
  unfold cell Page.firstCell
  cases hk : p.kind with
  | unpopulated u => rfl
  | anonymous slot => simp [Page.isInitialized, hk] at h
  | fileBacked file => rfl

theorem Adds.gains {pages : List Page} (h : Adds id pages s t) (hp : ∀ p ∈ pages, p.IsNew) :
    s.ideal.Gains (.ofPages id pages) t.ideal := by
  induction pages generalizing s with
  | nil =>
    rw [h.nil]
    exact ⟨fun _ => .inr rfl, funext fun pl => (Option.or_none).symm⟩
  | cons p rest ih =>
    obtain ⟨sp, u, hs, hvacant, hu, hrest⟩ := h.cons
    have hnew := hp p (List.mem_cons_self ..)
    have hmove : Move (.register (placeOf id p) p) ⟨s, none⟩ ⟨u, none⟩ := by
      rw [hu]
      exact .register hs hvacant rfl hnew.aligned hnew.absent hnew.slotless hnew.typed
    have hflat : u.flat = Function.update s.flat (placeOf id p) p.firstCell := by
      rw [← cell_of_unpopulated (s := s) hnew.unpopulated]
      exact Coherent.flat_register hmove
    have hnone : s.flat (placeOf id p) = none := flat_of_none ((pageAt_of_get? hs _).trans hvacant)
    have hfirst : s.ideal.Gains (.single (placeOf id p) p.firstCell) u.ideal :=
      .of_update hnone hflat
    rw [Flat.ofPages_cons]
    exact hfirst.trans (ih hrest fun q hq => hp q (List.mem_cons_of_mem _ hq))

theorem Adds.files {pages : List Page} (h : Adds id pages s t) : t.files = s.files := by
  obtain ⟨sp, table, -, -, rfl⟩ := h
  rfl

section Fresh

variable (a : VirtualAddress) (writable : Bool) (type : PageType) (init : Option Initializer)
  (slice : LoadSlice)

theorem placeOf_fresh :
    placeOf id (Page.fresh a writable type init slice) = .containing id a.value :=
  Place.ext rfl a.pageBase_value

theorem firstCell_fresh :
    (Page.fresh a writable type init slice).firstCell = Cell.first type init slice := by
  cases type <;> rfl

variable {a writable type init slice}

/-- The cell of a page that is registered, at the place of its address. -/
theorem Adds.gains_fresh (h : Adds id [.fresh a writable type init slice] s t) :
    s.ideal.Gains (.single (.containing id a.value) (Cell.first type init slice)) t.ideal := by
  have hgains := h.gains fun p hp => by
    rw [List.mem_singleton.1 hp]
    apply Page.isNew_fresh
  rw [Flat.ofPages_single, placeOf_fresh, firstCell_fresh] at hgains
  exact hgains

theorem Adds.gains_ofStack (h : Adds id [.ofStack a] s t) :
    s.ideal.Gains (.single (.containing id a.value) (Cell.first .anonymous none {})) t.ideal := by
  have hgains := h.gains fun p hp => by
    rw [List.mem_singleton.1 hp]
    apply Page.isNew_ofStack
  have hplace : placeOf id (Page.ofStack a) = .containing id a.value :=
    placeOf_fresh a true .anonymous none {}
  rw [Flat.ofPages_single, hplace] at hgains
  exact hgains

end Fresh

section Segment

variable {start : VirtualAddress} {file : Handle} {offset readBytes total : Nat} {writable : Bool}
  {pages : List Page}

/-- The pages of a segment cover its range, page by page. -/
theorem ofPages_segment (haligned : start.isPageAligned = true) (htotal : total % pageSize = 0)
    (h : pageRun start file offset readBytes (total / pageSize)
      (fun a slice => .fresh a writable .anonymous (some .fileSlice) slice) = .ok pages) :
    Flat.ofPages id pages = .segment id start.value file offset readBytes total := by
  have hstart : start.value % pageSize = 0 := by
    simpa [Address.isPageAligned, Address.pageOffset] using haligned
  have hplace : ∀ k, (start.value + k * pageSize) / pageSize * pageSize =
      start.value + k * pageSize := by
    intro k
    unfold pageSize at *
    omega
  funext pl
  unfold Flat.segment
  by_cases hin : pl.space = id ∧ start.value ≤ pl.key ∧ pl.key < start.value + total ∧
      pl.key % pageSize = 0
  · rw [if_pos hin]
    obtain ⟨rfl, hlow, hhigh, hkey⟩ := hin
    obtain ⟨k, hk, hcount⟩ : ∃ k, pl.key - start.value = k * pageSize ∧ k < total / pageSize := by
      refine ⟨(pl.key - start.value) / pageSize, ?_, ?_⟩
      all_goals
        unfold pageSize at *
        omega
    have hmem := (mem_pageRun_iff h).2 ⟨k, hcount, rfl⟩
    have hpl : Place.containing pl.space (start.value + k * pageSize) = pl := by
      refine Place.ext rfl ?_
      refine (hplace k).trans ?_
      omega
    refine (Flat.ofPages_of_mem hmem ((placeOf_fresh ..).trans hpl) ?_).trans ?_
    · intro q hq hqpl
      obtain ⟨k', -, rfl⟩ := (mem_pageRun_iff h).1 hq
      rw [placeOf_fresh, ← hpl] at hqpl
      have hkeys := congrArg Place.key hqpl
      have hsame : start.value + k' * pageSize = start.value + k * pageSize :=
        (hplace k').symm.trans (hkeys.trans (hplace k))
      have hk' : k' = k := Nat.eq_of_mul_eq_mul_right pageSize_pos (Nat.add_left_cancel hsame)
      rw [hk']
    · rw [firstCell_fresh, hk]
      rfl
  · rw [if_neg hin]
    apply Flat.ofPages_of_not_mem
    rintro p hp rfl
    obtain ⟨k, hk, rfl⟩ := (mem_pageRun_iff h).1 hp
    refine hin ?_
    rw [placeOf_fresh]
    refine ⟨rfl, ?_⟩
    dsimp only [Place.containing]
    rw [hplace k]
    unfold pageSize at *
    omega

theorem Adds.gains_segment (haligned : start.isPageAligned = true) (htotal : total % pageSize = 0)
    (hpages : pageRun start file offset readBytes (total / pageSize)
      (fun a slice => .fresh a writable .anonymous (some .fileSlice) slice) = .ok pages)
    (h : Adds id pages s t) :
    s.ideal.Gains (.segment id start.value file offset readBytes total) t.ideal := by
  rw [← ofPages_segment haligned htotal hpages]
  apply h.gains
  intro p hp
  obtain ⟨k, -, rfl⟩ := (mem_pageRun_iff hpages).1 hp
  apply Page.isNew_fresh

end Segment

end Machine
end Pager
