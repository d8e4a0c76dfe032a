import Pager.Proofs.Paging
import Mathlib.Data.List.Rotate

/-!
The clock. The live frames stand in a ring, in the order in which the hand comes to them,
and passing over the first of them moves it to the end. A page that is passed over loses
its accessed bit, and nothing else of the machine changes by it, so what the hand will
find at the other frames can be told beforehand.
-/
namespace Pager

open Function

namespace FrameTable

variable {t : FrameTable} {f : FrameId} {rest : List FrameId}

/-- The live frames in the order in which the hand comes to them. -/
def ring (t : FrameTable) : List FrameId := t.order.filter fun f => (t.get? f).isSome

theorem order_eq_rotate (t : FrameTable) :
    t.order = (List.range t.slots.length).rotate t.hand := by
  unfold order
  refine List.ext_getElem (by simp) fun i _ _ => ?_
  simp [List.getElem_rotate, Nat.add_comm]

theorem mem_ring : f ∈ t.ring ↔ (t.get? f).isSome = true := by
  unfold ring
  rw [order_eq_rotate, List.mem_filter, List.mem_rotate, List.mem_range, and_iff_right_iff_imp]
  intro h
  obtain ⟨fr, hf⟩ := Option.isSome_iff_exists.1 h
  exact lt_length_of_get? hf

theorem nodup_ring (t : FrameTable) : t.ring.Nodup := by
  unfold ring
  rw [order_eq_rotate]
  exact (List.nodup_rotate.2 List.nodup_range).filter _

/-- The ring has as many places as frames are live. -/
theorem Sound.length_ring (h : t.Sound) : t.ring.length = t.live := by
  have hslots : (List.range t.slots.length).map t.get? = t.slots := by
    refine List.ext_getElem (by simp) fun i _ hi => ?_
    simp [get?, List.getElem?_eq_getElem hi]
  unfold ring
  rw [order_eq_rotate, ((List.rotate_perm _ _).filter _).length_eq, ← List.countP_eq_length_filter,
    h.live_eq]
  conv_rhs => rw [← hslots, List.countP_map]
  rfl

theorem advance_of_ring_nil (h : t.ring = []) : t.advance = (none, t) := by
  unfold advance
  rw [← List.head?_filter, show t.order.filter _ = [] from h]
  rfl

/-- The hand stops at the first frame of the ring, which goes to the end. -/
theorem advance_of_ring_cons (h : t.ring = f :: rest) :
    t.advance = (some f, { t with hand := f + 1 }) ∧
      ({ t with hand := f + 1 } : FrameTable).ring = rest ++ [f] := by
  have hfind : t.order.find? (fun f => (t.get? f).isSome) = some f := by
    rw [← List.head?_filter, show t.order.filter _ = f :: rest from h]
    rfl
  refine ⟨by rw [advance, hfind], ?_⟩
  obtain ⟨hlive, before, after, horder, hdead⟩ := List.find?_eq_some_iff_append.1 hfind
  have hbefore : before.filter (fun f => (t.get? f).isSome) = [] :=
    List.filter_eq_nil_iff.2 fun g hg => by simpa using hdead g hg
  have hrest : after.filter (fun f => (t.get? f).isSome) = rest := by
    have hring : t.order.filter (fun f => (t.get? f).isSome) = f :: rest := h
    rw [horder, List.filter_append, hbefore, List.nil_append, List.filter_cons, if_pos hlive] at hring
    exact (List.cons.inj hring).2
  have hf : f = (before.length + t.hand) % t.slots.length := by
    have hget : t.order[before.length]? = some f := by simp [horder]
    rw [order_eq_rotate] at hget
    obtain ⟨hlt, hget⟩ := List.getElem?_eq_some_iff.1 hget
    rw [← hget, List.getElem_rotate]
    simp
  -- the hand is turned by the frames before `f` and by `f` itself
  have hturned : ({ t with hand := f + 1 } : FrameTable).order = after ++ (before ++ [f]) := by
    have hsum : (f + 1) % (List.range t.slots.length).length =
        (t.hand + (before ++ [f]).length) % (List.range t.slots.length).length := by
      rw [List.length_range, hf, List.length_append, Nat.mod_add_mod]
      congr 1
      simp only [List.length_singleton]
      omega
    calc ({ t with hand := f + 1 } : FrameTable).order
        = (List.range t.slots.length).rotate (f + 1) := order_eq_rotate _
      _ = (List.range t.slots.length).rotate (t.hand + (before ++ [f]).length) := by
          rw [← List.rotate_mod, hsum, List.rotate_mod]
      _ = t.order.rotate (before ++ [f]).length := by rw [← List.rotate_rotate, ← order_eq_rotate]
      _ = ((before ++ [f]) ++ after).rotate (before ++ [f]).length := by rw [horder]; simp
      _ = after ++ (before ++ [f]) := List.rotate_append_length_eq ..
  have hlast : [f].filter (fun f => (t.get? f).isSome) = [f] := by simp [hlive]
  calc ({ t with hand := f + 1 } : FrameTable).ring
      = (after ++ (before ++ [f])).filter (fun f => (t.get? f).isSome) := by
        rw [← hturned]
        rfl
    _ = rest ++ [f] := by
        rw [List.filter_append, List.filter_append, hbefore, hrest, hlast, List.nil_append]

end FrameTable

namespace PageEntry

/-- The entry with its accessed bit clear. -/
def unaccessed (e : PageEntry .emulated) : PageEntry .emulated :=
  if e.flags.has .accessed then e.setFlags (e.flags.set .accessed false) else e

theorem has_accessed_unaccessed (e : PageEntry .emulated) :
    e.unaccessed.flags.has .accessed = false := by
  unfold unaccessed
  by_cases h : e.flags.has .accessed = true
  · rw [if_pos h, has_flags_setFlags, PageFlags.has_set, if_pos rfl]
  · rw [if_neg h]
    simpa using h

@[simp] theorem unaccessed_unaccessed (e : PageEntry .emulated) :
    e.unaccessed.unaccessed = e.unaccessed := by
  conv_lhs => rw [unaccessed]
  rw [has_accessed_unaccessed, if_neg (by decide)]

end PageEntry

namespace Machine

variable {s t : Machine} {id : SpaceId} {sp : Space} {pl pl' : Place} {p : Page} {f g : FrameId}
  {fs rest : List FrameId}

/-- The space is there and nobody else is working on it. -/
def free (s : Machine) (id : SpaceId) : Bool := (s.spaces.get? id).any fun sp => !sp.busy

/-- Where the page lies that may be taken out of the frame: the frame is not pinned, and the
page's space is free. -/
def candidate (s : Machine) (f : FrameId) : Option Place :=
  (s.frames.get? f).bind fun fr =>
    if fr.pinned then none
    else fr.owner.bind fun owner =>
      if s.free owner.space then some ⟨owner.space, owner.page.value⟩ else none

def accessed (s : Machine) (pl : Place) : Bool :=
  (s.entryAt pl).any fun e => e.flags.has .accessed

/-- There is a place for the contents of the page outside memory. -/
def movable (s : Machine) (pl : Place) : Bool :=
  (s.pageAt pl).any fun p => p.type = .fileBacked || s.swap.used < s.swap.capacity

/-- The page in the frame is one that can be moved out. -/
def evictable (s : Machine) (f : FrameId) : Bool := (s.candidate f).any s.movable

/-- The hand takes the frame when it comes to it. -/
def due (s : Machine) (f : FrameId) : Bool :=
  (s.candidate f).any fun pl => s.movable pl && !s.accessed pl

/-- The page in the frame would be moved out if there was a slot for it. -/
def blocked (s : Machine) (f : FrameId) : Bool :=
  (s.candidate f).any fun pl => !s.movable pl && !s.accessed pl

theorem candidate_eq_some_iff : s.candidate f = some pl ↔ ∃ fr, s.frames.get? f = some fr ∧
    fr.pinned = false ∧ fr.owner = some pl.owner ∧ s.free pl.space = true := by
  unfold candidate
  rw [Option.bind_eq_some_iff]
  refine exists_congr fun fr => and_congr_right fun _ => ?_
  cases hp : fr.pinned with
  | true => simp
  | false =>
    rw [if_neg (by decide), Option.bind_eq_some_iff]
    constructor
    · rintro ⟨owner, ho, h⟩
      split at h
      · rename_i hfree
        cases h
        exact ⟨rfl, ho, hfree⟩
      · cases h
    · rintro ⟨-, ho, hfree⟩
      exact ⟨pl.owner, ho, if_pos hfree⟩

theorem exists_space_of_free (h : s.free id = true) :
    ∃ sp, s.spaces.get? id = some sp ∧ sp.busy = false := by
  unfold free at h
  cases hs : s.spaces.get? id with
  | none => simp [hs] at h
  | some sp => exact ⟨sp, rfl, by simpa [hs] using h⟩

theorem accessed_eq (hs : s.spaces.get? pl.space = some sp) :
    s.accessed pl = sp.directory.has pl.address .accessed := by
  have hentry : s.entryAt pl = sp.directory.get? pl.address := entryAt_of_get? hs pl.key
  unfold accessed Directory.has Directory.flags
  rw [hentry]
  cases sp.directory.get? pl.address with
  | none => decide
  | some e => rfl

theorem movable_eq (hp : s.pageAt pl = some p) :
    s.movable pl = (decide (p.type = .fileBacked) || decide (s.swap.used < s.swap.capacity)) := by
  rw [movable, hp, Option.any_some]

theorem candidate_congr (hframes : t.frames.get? = s.frames.get?) (hfree : t.free = s.free) :
    t.candidate = s.candidate := by
  funext f
  unfold candidate
  rw [hframes, hfree]

theorem movable_congr (hpages : t.pageAt = s.pageAt) (hswap : t.swap = s.swap) :
    t.movable = s.movable := by
  funext pl
  unfold movable
  rw [hpages, hswap]

/-- The hand passes over a frame: the page loses its accessed bit, if it may be taken. -/
def passOver (s : Machine) (f : FrameId) : Machine :=
  { s with
    frames := { s.frames with hand := f + 1 }
    spaces := match s.candidate f with
      | none => s.spaces
      | some pl =>
        if s.accessed pl then
          s.spaces.modify pl.space fun sp =>
            { sp with directory := sp.directory.set pl.address .accessed false }
        else s.spaces }

theorem spaces_passOver (s : Machine) (f : FrameId) :
    ((∀ pl, s.candidate f = some pl → s.accessed pl = false) ∧ (s.passOver f).spaces = s.spaces) ∨
      ∃ pl sp, s.candidate f = some pl ∧ s.accessed pl = true ∧ s.spaces.get? pl.space = some sp ∧
        (s.passOver f).spaces = s.spaces.insert pl.space
          { sp with directory := sp.directory.set pl.address .accessed false } := by
  unfold passOver
  cases hc : s.candidate f with
  | none => exact .inl ⟨fun pl h => by (cases h), rfl⟩
  | some pl =>
    dsimp only
    cases ha : s.accessed pl with
    | true =>
      obtain ⟨fr, -, -, -, hfree⟩ := candidate_eq_some_iff.1 hc
      obtain ⟨sp, hs, -⟩ := exists_space_of_free hfree
      exact .inr ⟨pl, sp, rfl, ha, hs, (if_pos rfl).trans (Table.modify_eq_insert hs _)⟩
    | false =>
      refine .inl ⟨fun other h => ?_, rfl⟩
      cases h
      exact ha

theorem pageAt_passOver (s : Machine) (f : FrameId) : (s.passOver f).pageAt = s.pageAt := by
  unfold pageAt
  rcases spaces_passOver s f with ⟨-, h⟩ | ⟨pl, sp, -, -, hs, h⟩
  · rw [h]
  · rw [h]
    exact pageAt_insert_of_eq hs rfl

theorem free_passOver (s : Machine) (f : FrameId) : (s.passOver f).free = s.free := by
  funext id
  unfold free
  rcases spaces_passOver s f with ⟨-, h⟩ | ⟨pl, sp, -, -, hs, h⟩
  · rw [h]
  · rw [h, Table.get?_insert]
    split
    · rename_i hid
      rw [hid, hs]
      rfl
    · rfl

theorem candidate_passOver (s : Machine) (f : FrameId) :
    (s.passOver f).candidate = s.candidate :=
  candidate_congr rfl (free_passOver s f)

theorem movable_passOver (s : Machine) (f : FrameId) : (s.passOver f).movable = s.movable :=
  movable_congr (pageAt_passOver s f) rfl

/-- An entry whose accessed bit is clear is left as it is. -/
theorem map_unaccessed (h : s.accessed pl = false) :
    (s.entryAt pl).map PageEntry.unaccessed = s.entryAt pl := by
  unfold accessed at h
  cases he : s.entryAt pl with
  | none => rfl
  | some e =>
    have hclear : ¬ e.flags.has .accessed = true := by simpa [he] using h
    rw [Option.map_some, PageEntry.unaccessed, if_neg hclear]

/-- Only the entry of the page that is passed over may change, and only in its accessed bit. -/
theorem entryAt_passOver (s : Machine) (f : FrameId) (pl : Place) :
    (s.passOver f).entryAt pl =
      if s.candidate f = some pl then (s.entryAt pl).map PageEntry.unaccessed
      else s.entryAt pl := by
  rcases spaces_passOver s f with ⟨hclear, h⟩ | ⟨other, sp, hc, ha, hs, h⟩
  · have hsame : (s.passOver f).entryAt pl = s.entryAt pl := by
      unfold entryAt
      rw [h]
    rw [hsame]
    split
    · rename_i hc
      rw [map_unaccessed (hclear pl hc)]
    · rfl
  · have hentry : s.entryAt other = sp.directory.entries.get? other.key := entryAt_of_get? hs other.key
    have hupdate : (s.passOver f).entryAt =
        update s.entryAt other ((s.entryAt other).map PageEntry.unaccessed) := by
      unfold entryAt at hentry ⊢
      rw [h]
      refine entryAt_insert hs fun key => ?_
      show (Table.modify _ _ _).get? key = _
      rw [Table.get?_modify, Place.value_address, hentry]
      by_cases hkey : key = other.key
      · subst hkey
        rw [if_pos rfl, if_pos rfl]
        unfold accessed entryAt at ha
        rw [hentry] at ha
        cases he : sp.directory.entries.get? other.key with
        | none => rfl
        | some e =>
          have hset : e.flags.has .accessed = true := by simpa [he] using ha
          rw [Option.map_some, Option.map_some, PageEntry.unaccessed, if_pos hset]
      · rw [if_neg hkey, if_neg hkey]
    rw [hupdate, update_apply, hc]
    by_cases hpl : pl = other
    · rw [if_pos hpl, if_pos (congrArg some hpl.symm), hpl]
    · rw [if_neg hpl, if_neg fun he => hpl (Option.some.inj he).symm]

/-- The hand passes over frames one after the other. -/
def sweep (s : Machine) (fs : List FrameId) : Machine := fs.foldl passOver s

theorem sweep_cons (s : Machine) (f : FrameId) (fs : List FrameId) :
    s.sweep (f :: fs) = (s.passOver f).sweep fs := rfl

theorem sweep_append (s : Machine) (fs gs : List FrameId) :
    s.sweep (fs ++ gs) = (s.sweep fs).sweep gs := List.foldl_append

/-- What no step of a sweep changes is as before. -/
theorem sweep_keeps {α : Type} (view : Machine → α) (h : ∀ s f, view (passOver s f) = view s)
    (s : Machine) (fs : List FrameId) : view (s.sweep fs) = view s := by
  induction fs generalizing s with
  | nil => rfl
  | cons f fs ih => rw [sweep_cons, ih, h]

@[simp] theorem candidate_sweep (s : Machine) (fs : List FrameId) :
    (s.sweep fs).candidate = s.candidate := sweep_keeps candidate candidate_passOver s fs

@[simp] theorem movable_sweep (s : Machine) (fs : List FrameId) :
    (s.sweep fs).movable = s.movable := sweep_keeps movable movable_passOver s fs

@[simp] theorem pageAt_sweep (s : Machine) (fs : List FrameId) :
    (s.sweep fs).pageAt = s.pageAt := sweep_keeps pageAt pageAt_passOver s fs

@[simp] theorem frames_sweep (s : Machine) (fs : List FrameId) :
    (s.sweep fs).frames.get? = s.frames.get? :=
  sweep_keeps (fun s => s.frames.get?) (fun _ _ => rfl) s fs

@[simp] theorem evictions_sweep (s : Machine) (fs : List FrameId) :
    (s.sweep fs).evictions = s.evictions := sweep_keeps evictions (fun _ _ => rfl) s fs

/-- A sweep clears the accessed bits of the pages that it passes over, and changes no other. -/
theorem entryAt_sweep (s : Machine) (fs : List FrameId) (pl : Place) :
    (s.sweep fs).entryAt pl =
      if pl ∈ fs.filterMap s.candidate then (s.entryAt pl).map PageEntry.unaccessed
      else s.entryAt pl := by
  induction fs generalizing s with
  | nil => rfl
  | cons f fs ih =>
    have htwice : ∀ e : Option (PageEntry .emulated), (e.map PageEntry.unaccessed).map
        PageEntry.unaccessed = e.map PageEntry.unaccessed := by
      intro e
      cases e <;> simp
    have hmem : pl ∈ (f :: fs).filterMap s.candidate ↔
        s.candidate f = some pl ∨ pl ∈ fs.filterMap s.candidate := by
      simp [List.mem_filterMap]
    rw [sweep_cons, ih, candidate_passOver, entryAt_passOver, if_congr hmem rfl rfl]
    by_cases hfirst : s.candidate f = some pl
    · rw [if_pos hfirst, htwice, ite_self, if_pos (.inl hfirst)]
    · rw [if_neg hfirst]
      exact if_congr (by simp [hfirst]) rfl rfl

theorem accessed_sweep (s : Machine) (fs : List FrameId) (pl : Place) :
    (s.sweep fs).accessed pl = (s.accessed pl && decide (pl ∉ fs.filterMap s.candidate)) := by
  unfold accessed
  rw [entryAt_sweep]
  by_cases hpl : pl ∈ fs.filterMap s.candidate
  · rw [if_pos hpl]
    cases s.entryAt pl with
    | none => rfl
    | some e => simp [hpl, PageEntry.has_accessed_unaccessed]
  · rw [if_neg hpl]
    simp [hpl]

/-- The frames that were swept stand at the end of the ring. -/
theorem ring_sweep (h : s.frames.ring = fs ++ rest) : (s.sweep fs).frames.ring = rest ++ fs := by
  induction fs generalizing s rest with
  | nil => simpa [sweep] using h
  | cons f fs ih =>
    have hfirst : (s.passOver f).frames.ring = fs ++ (rest ++ [f]) := by
      rw [← List.append_assoc]
      exact (FrameTable.advance_of_ring_cons h).2
    rw [sweep_cons, ih hfirst]
    simp

/-- Passing over the first frame of the ring is a turn of the hand, and a mark at most. -/
theorem passOver_moves (h : s.frames.ring = f :: rest) :
    Moves Label.Seeks ⟨s, none⟩ ⟨s.passOver f, none⟩ := by
  have hturn : Moves Label.Seeks ⟨s, none⟩
      ⟨{ s with frames := { s.frames with hand := f + 1 } }, none⟩ := by
    have hmove : Move .turn ⟨s, none⟩ ⟨{ s with frames := s.frames.advance.2 }, none⟩ := .turn
    rw [(FrameTable.advance_of_ring_cons h).1] at hmove
    exact .single hmove trivial
  rcases spaces_passOver s f with ⟨-, hspaces⟩ | ⟨pl, sp, -, -, hs, hspaces⟩
  · rw [show s.passOver f = { s with frames := { s.frames with hand := f + 1 } } from
      congrArg (fun spaces => ({ s with
        frames := { s.frames with hand := f + 1 }, spaces } : Machine)) hspaces]
    exact hturn
  · rw [show s.passOver f = { s with
        frames := { s.frames with hand := f + 1 }
        spaces := s.spaces.insert pl.space
          { sp with directory := sp.directory.set pl.address .accessed false } } from
      congrArg (fun spaces => ({ s with
        frames := { s.frames with hand := f + 1 }, spaces } : Machine)) hspaces]
    have hs : ({ s with frames := { s.frames with hand := f + 1 } } : Machine).spaces.get?
      pl.space = some sp := hs
    exact hturn.tail (.mark hs pl.address .accessed false (by decide) (by decide) (by decide))
      trivial

theorem sweep_moves (h : s.frames.ring = fs ++ rest) :
    Moves Label.Seeks ⟨s, none⟩ ⟨s.sweep fs, none⟩ := by
  induction fs generalizing s rest with
  | nil => exact .refl
  | cons f fs ih =>
    have hfirst : (s.passOver f).frames.ring = fs ++ (rest ++ [f]) := by
      rw [← List.append_assoc]
      exact (FrameTable.advance_of_ring_cons h).2
    exact (passOver_moves h).trans (ih hfirst)

end Machine
end Pager
