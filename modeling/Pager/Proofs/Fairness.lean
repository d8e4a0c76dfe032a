import Pager.Proofs.Clock

/-!
The frame table over its whole life. Whatever frames are tracked, linked, pinned and given up
in between, the arena keeps account of its empty slots, and the hand comes to every live frame
in turn: until it is back at a frame that stays, it passes no other frame twice.
-/
namespace Pager

open Function

/-- What can be asked of a frame table. -/
inductive FrameRequest where
  | insert (address : PhysicalAddress)
  | remove (id : FrameId)
  | bind (id : FrameId) (owner : Owner) (page : Page)
  | unbind (id : FrameId) (page : Page)
  | setPinned (id : FrameId) (b : Bool)
  | advance

inductive FrameAnswer where
  | inserted (id : FrameId)
  | removed (address : PhysicalAddress)
  | linked (page : Page)
  | done
  | passed (id : Option FrameId)

namespace FrameRequest

def perform (t : FrameTable) : FrameRequest → Except Bug (FrameAnswer × FrameTable)
  | insert address => .ok (.inserted (t.insert address).1, (t.insert address).2)
  | remove id => do
    let (address, next) ← t.remove id
    return (.removed address, next)
  | bind id owner page => do
    let (next, linked) ← t.bind id owner page
    return (.linked linked, next)
  | unbind id page => do
    let (next, unlinked) ← t.unbind id page
    return (.linked unlinked, next)
  | setPinned id b => do
    return (.done, ← t.setPinned id b)
  | advance => .ok (.passed t.advance.1, t.advance.2)

/-- The same frames are tracked afterwards. -/
def Steady : FrameRequest → Prop
  | insert _ | remove _ => False
  | _ => True

def isAdvance : FrameRequest → Bool
  | advance => true
  | _ => false

end FrameRequest

namespace FrameTable

-- indices are compared, so they are taken as the numbers that they are
variable {t u : FrameTable} {f g id : Nat} {requests : List FrameRequest}
  {answers : List FrameAnswer}

def run : List FrameRequest → FrameTable → Except Bug (List FrameAnswer × FrameTable)
  | [], t => .ok ([], t)
  | request :: rest, t => do
    let (answer, t) ← request.perform t
    let (answers, t) ← run rest t
    return (answer :: answers, t)

/-- The frames that the hand passed over, in this order. -/
def passes (answers : List FrameAnswer) : List FrameId :=
  answers.filterMap fun
    | .passed id => id
    | _ => none

theorem passes_cons {answer : FrameAnswer} :
    passes (answer :: answers) = passes [answer] ++ passes answers :=
  List.filterMap_append (l := [answer])

theorem run_cons_eq_ok {request : FrameRequest} {rest : List FrameRequest} :
    run (request :: rest) t = .ok (answers, u) ↔ ∃ answer middle later,
      request.perform t = .ok (answer, middle) ∧ run rest middle = .ok (later, u) ∧
        answers = answer :: later := by
  rw [run, except_bind_eq_ok]
  constructor
  · rintro ⟨⟨answer, middle⟩, hfirst, hrest⟩
    obtain ⟨⟨later, last⟩, hrun, hlast⟩ := except_bind_eq_ok.1 hrest
    cases hlast
    exact ⟨answer, middle, later, hfirst, hrun, rfl⟩
  · rintro ⟨answer, middle, later, hfirst, hrun, rfl⟩
    exact ⟨_, hfirst, except_bind_eq_ok.2 ⟨_, hrun, rfl⟩⟩

/-- The frame that a request changes is put back in its slot. -/
theorem perform_put {request : FrameRequest} {answer : FrameAnswer} (hsteady : request.Steady)
    (h : request.perform t = .ok (answer, u)) :
    (request = .advance ∧ answer = .passed t.advance.1 ∧ u = t.advance.2) ∨
      request ≠ .advance ∧ passes [answer] = [] ∧
        ∃ id frame, (t.get? id).isSome = true ∧ u = t.put id frame := by
  cases request with
  | insert => exact hsteady.elim
  | remove => exact hsteady.elim
  | advance =>
    cases h
    exact .inl ⟨rfl, rfl, rfl⟩
  | bind id owner page =>
    obtain ⟨⟨next, linked⟩, hbind, hlast⟩ := except_bind_eq_ok.1 h
    cases hlast
    obtain ⟨-, -, frame, hf, -, rfl, -⟩ := bind_eq_ok.1 hbind
    exact .inr ⟨nofun, rfl, id, _, Option.isSome_of_eq_some hf, rfl⟩
  | unbind id page =>
    obtain ⟨⟨next, unlinked⟩, hunbind, hlast⟩ := except_bind_eq_ok.1 h
    cases hlast
    obtain ⟨-, frame, owner, hf, -, -, rfl, -⟩ := unbind_eq_ok.1 hunbind
    exact .inr ⟨nofun, rfl, id, _, Option.isSome_of_eq_some hf, rfl⟩
  | setPinned id b =>
    obtain ⟨next, hpin, hlast⟩ := except_bind_eq_ok.1 h
    cases hlast
    obtain ⟨frame, hf, rfl⟩ := setPinned_eq_ok.1 hpin
    exact .inr ⟨nofun, rfl, id, _, Option.isSome_of_eq_some hf, rfl⟩

/-- Putting a live frame back leaves the ring as it is. -/
theorem ring_put {frame : Frame} (hlive : (t.get? id).isSome = true) :
    (t.put id frame).ring = t.ring := by
  have horder : (t.put id frame).order = t.order := by simp [order, put]
  unfold ring
  rw [horder]
  refine List.filter_congr fun other _ => ?_
  rw [get?_put]
  split
  · rename_i he
    rw [he.1, hlive]
    rfl
  · rfl

/-- An arena in order, with the hand on it or just behind it. -/
structure Turning (t : FrameTable) : Prop extends t.Sound where
  hand_le : t.hand ≤ t.slots.length

theorem turning_empty : Turning empty := ⟨sound_empty, Nat.le_refl 0⟩

theorem hand_advance (h : t.advance = (some id, u)) :
    (t.get? id).isSome = true ∧ u = { t with hand := id + 1 } ∧ id < t.slots.length := by
  obtain ⟨hlive, rfl⟩ := advance_eq_some h
  obtain ⟨frame, hf⟩ := Option.isSome_iff_exists.1 hlive
  exact ⟨hlive, rfl, lt_length_of_get? hf⟩

theorem advance_none (h : t.advance.1 = none) : t.advance.2 = t := by
  cases hring : t.ring with
  | nil => rw [advance_of_ring_nil hring]
  | cons f rest =>
    rw [(advance_of_ring_cons hring).1] at h
    cases h

theorem Turning.advance (h : t.Turning) : t.advance.2.Turning where
  toSound := sound_advance h.toSound
  hand_le := by
    cases hid : t.advance.1 with
    | none =>
      rw [advance_none hid]
      exact h.hand_le
    | some id =>
      obtain ⟨-, hnext, hlt⟩ := hand_advance (u := t.advance.2) (Prod.ext hid rfl)
      exact hnext ▸ hlt

theorem Turning.perform {request : FrameRequest} {answer : FrameAnswer} (h : t.Turning)
    (hrun : request.perform t = .ok (answer, u)) : u.Turning := by
  by_cases hsteady : request.Steady
  · obtain ⟨-, -, rfl⟩ | ⟨-, -, id, frame, hlive, rfl⟩ := perform_put hsteady hrun
    · exact h.advance
    · refine ⟨(put_spec h.toSound hlive frame).2, ?_⟩
      have hle := h.hand_le
      simpa [put] using hle
  · cases request with
    | insert address =>
      cases hrun
      refine ⟨(insert_spec h.toSound address).2.2, ?_⟩
      have hle := h.hand_le
      unfold insert
      split
      · simpa using hle
      · simp only [List.length_append, List.length_singleton]
        omega
    | remove id =>
      obtain ⟨⟨address, next⟩, hremove, hlast⟩ := except_bind_eq_ok.1 hrun
      cases hlast
      refine ⟨(remove_spec h.toSound hremove).2.2, ?_⟩
      obtain ⟨_, -, -, -, rfl⟩ := remove_eq_ok.1 hremove
      have hle := h.hand_le
      simpa using hle
    | _ => exact (hsteady trivial).elim

theorem Turning.run (h : t.Turning) (hrun : run requests t = .ok (answers, u)) : u.Turning := by
  induction requests generalizing t answers with
  | nil =>
    cases hrun
    exact h
  | cons request rest ih =>
    obtain ⟨answer, middle, later, hfirst, hrest, -⟩ := run_cons_eq_ok.1 hrun
    exact ih (h.perform hfirst) hrest

/-- One turn of the hand: the slot it stands at, and the table with the hand behind that. -/
def turn (t : FrameTable) : FrameId × FrameTable :=
  (t.hand % t.slots.length, { t with hand := t.hand % t.slots.length + 1 })

/-- Turns the hand until it has passed over a frame, at most so many times. -/
def seek : Nat → FrameTable → Option (FrameId × FrameTable)
  | 0, _ => none
  | turns + 1, t => if (t.get? t.turn.1).isSome then some t.turn else seek turns t.turn.2

theorem turn_of_order_cons {rest : List FrameId} (h : t.order = f :: rest) :
    t.turn.1 = f ∧ t.turn.2.order = rest ++ [f] := by
  have hlen : 0 < t.slots.length := by
    have hlength := congrArg List.length h
    simp only [order, List.length_map, List.length_range, List.length_cons] at hlength
    omega
  have hfirst : t.turn.1 = f := by
    have hget : t.order[0]? = some f := by rw [h, List.getElem?_cons_zero]
    simpa [order, hlen, turn] using hget
  refine ⟨hfirst, ?_⟩
  calc t.turn.2.order
      = (List.range t.slots.length).rotate (t.hand % t.slots.length + 1) := order_eq_rotate _
    _ = ((List.range t.slots.length).rotate (t.hand % t.slots.length)).rotate 1 := by
        rw [List.rotate_rotate]
    _ = t.order.rotate 1 := by
        rw [order_eq_rotate, ← List.rotate_mod _ t.hand, List.length_range]
    _ = rest ++ [f] := by rw [h, List.rotate_cons_succ, List.rotate_zero]

/-- The search ends as soon as the hand has turned to the first live frame. -/
theorem seek_of_find {turns : Nat}
    (h : (t.order.take turns).find? (fun f => (t.get? f).isSome) = some id) :
    seek turns t = some (id, { t with hand := id + 1 }) := by
  induction turns generalizing t with
  | zero => cases h
  | succ turns ih =>
    cases horder : t.order with
    | nil =>
      rw [horder] at h
      cases h
    | cons f rest =>
      obtain ⟨hfirst, hnext⟩ := turn_of_order_cons horder
      rw [horder, List.take_succ_cons, List.find?_cons] at h
      rw [seek, hfirst]
      cases hlive : (t.get? f).isSome with
      | true =>
        rw [hlive] at h
        cases h
        rw [if_pos rfl, ← hfirst]
        rfl
      | false =>
        rw [hlive] at h
        rw [if_neg Bool.false_ne_true]
        refine ih ?_
        -- the slot that was passed over has gone to the end, where it is not looked for
        have hrest : (rest.take turns).find? (fun f => (t.turn.2.get? f).isSome) = some id := h
        rw [hnext, List.take_append, List.find?_append, hrest, Option.some_or]

theorem find?_of_advance (h : t.advance = (some id, u)) :
    t.order.find? (fun f => (t.get? f).isSome) = some id := by
  unfold FrameTable.advance at h
  split at h
  · cases h
  · rename_i hfound
    cases h
    exact hfound

/-- As many turns as there are slots are enough. -/
theorem seek_eq_advance (h : t.advance = (some id, u)) {turns : Nat}
    (hturns : t.slots.length ≤ turns) : seek turns t = some (id, u) := by
  have hall : t.order.take turns = t.order := by
    refine List.take_of_length_le ?_
    rw [order, List.length_map, List.length_range]
    exact hturns
  obtain ⟨-, rfl, -⟩ := hand_advance h
  exact seek_of_find (by rw [hall, find?_of_advance h])

theorem advance_eq_none_iff : t.advance.1 = none ↔ ∀ id, t.get? id = none := by
  have hring : t.advance.1 = none ↔ t.ring = [] := by
    cases hring : t.ring with
    | nil => simp [advance_of_ring_nil hring]
    | cons f rest => simp [(advance_of_ring_cons hring).1]
  rw [hring, List.eq_nil_iff_forall_not_mem]
  refine forall_congr' fun id => ?_
  rw [mem_ring, Option.not_isSome_iff_eq_none]

/-- Without frames that come or go, the hand goes round the ring as it stands. -/
theorem passes_of_steady (hsteady : ∀ request ∈ requests, request.Steady)
    (hrun : run requests t = .ok (answers, u))
    (hle : requests.countP FrameRequest.isAdvance ≤ t.ring.length) :
    passes answers = t.ring.take (requests.countP FrameRequest.isAdvance) := by
  induction requests generalizing t answers with
  | nil =>
    cases hrun
    rfl
  | cons request rest ih =>
    obtain ⟨answer, middle, later, hfirst, hrest, rfl⟩ := run_cons_eq_ok.1 hrun
    obtain ⟨hnow, hlater⟩ := List.forall_mem_cons.1 hsteady
    obtain ⟨rfl, rfl, rfl⟩ | ⟨hother, hpasses, id, frame, hlive, rfl⟩ := perform_put hnow hfirst
    · rw [List.countP_cons_of_pos rfl] at hle ⊢
      cases hring : t.ring with
      | nil =>
        rw [hring] at hle
        exact absurd hle (Nat.not_succ_le_zero _)
      | cons f others =>
        obtain ⟨hadvance, hturned⟩ := advance_of_ring_cons hring
        have hmiddle : t.advance.2.ring = others ++ [f] := by rw [hadvance]; exact hturned
        rw [hring, List.length_cons] at hle
        have hcount := Nat.le_of_succ_le_succ hle
        have hlaps := ih hlater hrest (by rw [hmiddle, List.length_append]; omega)
        rw [hmiddle, List.take_append_of_le_length hcount] at hlaps
        rw [List.take_succ_cons, ← hlaps, hadvance]
        rfl
    · have hcount : (request :: rest).countP FrameRequest.isAdvance =
          rest.countP FrameRequest.isAdvance := by
        refine List.countP_cons_of_neg ?_
        cases request <;> first | exact absurd rfl hother | exact Bool.false_ne_true
      rw [hcount] at hle ⊢
      have hring : (t.put id frame).ring = t.ring := ring_put hlive
      rw [← hring] at hle ⊢
      rw [← ih hlater hrest hle]
      rw [passes_cons, hpasses, List.nil_append]

/-- Where the hand stops: it comes to `g` first, and `f` lies further on. -/
theorem Turning.advance_place (h : t.Turning) (hadvance : t.advance = (some g, u))
    (hf : (t.get? f).isSome = true) :
    (t.hand ≤ g ∧ (f < t.hand ∨ g ≤ f)) ∨ (g < t.hand ∧ f < t.hand ∧ g ≤ f) := by
  obtain ⟨-, i, hi, hg, hdead⟩ :=
    List.find?_eq_some_iff_getElem.1 (find?_of_advance hadvance)
  obtain ⟨frame, hframe⟩ := Option.isSome_iff_exists.1 hf
  have hflt := lt_length_of_get? hframe
  have hmem : f ∈ t.order := by
    rw [order_eq_rotate, List.mem_rotate, List.mem_range]
    exact hflt
  obtain ⟨j, hj, hfj⟩ := List.getElem_of_mem hmem
  have hij : i ≤ j := by
    by_contra hlt
    have hnot := hdead j (Nat.lt_of_not_le hlt)
    rw [hfj, hf] at hnot
    cases hnot
  have hlength : t.order.length = t.slots.length := by
    rw [order, List.length_map, List.length_range]
  rw [hlength] at hi hj
  have hhand := h.hand_le
  -- slots are numbered from the hand on, and then from the first one
  have hplace : ∀ k < t.slots.length, (t.hand + k) % t.slots.length =
      if t.hand + k < t.slots.length then t.hand + k else t.hand + k - t.slots.length := by
    intro k hk
    split
    · rename_i hlt
      exact Nat.mod_eq_of_lt hlt
    · rename_i hge
      rw [Nat.mod_eq_sub_mod (Nat.le_of_not_lt hge), Nat.mod_eq_of_lt (by omega)]
  have hgi : g = if t.hand + i < t.slots.length then t.hand + i
      else t.hand + i - t.slots.length := by
    rw [← hplace i hi, ← hg]
    simp [order]
  have hfj' : f = if t.hand + j < t.slots.length then t.hand + j
      else t.hand + j - t.slots.length := by
    rw [← hplace j hj, ← hfj]
    simp [order]
  split at hgi <;> split at hfj' <;> omega

/-- The hand has passed over `f`, and since then over these frames: it is still on its way to the
end, or it has begun anew and not come to `f` yet. -/
structure Lap (f : Nat) (t : FrameTable) (passed : List Nat) : Prop where
  live : (t.get? f).isSome = true
  nodup : passed.Nodup
  place : (f < t.hand ∧ ∀ g ∈ passed, f < g ∧ g < t.hand) ∨
    (t.hand ≤ f ∧ ∀ g ∈ passed, f < g ∨ g < t.hand)

variable {passed : List Nat}

theorem Lap.start (h : t.advance = (some f, u)) : Lap f u [] := by
  obtain ⟨hlive, rfl, -⟩ := hand_advance h
  exact ⟨hlive, List.nodup_nil, .inl ⟨Nat.lt_succ_self f, by simp⟩⟩

theorem Lap.congr (h : Lap f t passed) (hhand : u.hand = t.hand)
    (hlive : (u.get? f).isSome = true) : Lap f u passed :=
  ⟨hlive, h.nodup, by rw [hhand]; exact h.place⟩

/-- The next frame is one that was not passed over in this lap. -/
theorem Lap.pass (h : Lap f t passed) (ht : t.Turning) (hadvance : t.advance = (some g, u))
    (hne : g ≠ f) : Lap f u (passed ++ [g]) := by
  have hplace := ht.advance_place hadvance h.live
  obtain ⟨-, rfl, -⟩ := hand_advance hadvance
  have hnew : g ∉ passed := by
    intro hmem
    rcases h.place with ⟨hbehind, hpassed⟩ | ⟨hahead, hpassed⟩
    · have := hpassed g hmem
      omega
    · have := hpassed g hmem
      omega
  refine ⟨h.live, List.nodup_append.2 ⟨h.nodup, List.nodup_singleton g, ?_⟩, ?_⟩
  · rintro a ha b hb rfl
    exact hnew (List.mem_singleton.1 hb ▸ ha)
  · simp only [List.mem_append, List.mem_singleton]
    rcases h.place with ⟨hbehind, hpassed⟩ | ⟨hahead, hpassed⟩
    · by_cases hwrapped : g < t.hand
      · refine .inr ⟨by omega, ?_⟩
        rintro a (ha | rfl)
        · exact .inl (hpassed a ha).1
        · exact .inr (Nat.lt_succ_self a)
      · refine .inl ⟨by omega, ?_⟩
        rintro a (ha | rfl)
        · have := hpassed a ha
          omega
        · omega
    · refine .inr ⟨by omega, ?_⟩
      rintro a (ha | rfl)
      · have := hpassed a ha
        omega
      · exact .inr (Nat.lt_succ_self a)

/-- A request takes the lap on, as long as it neither takes `f` away nor brings the hand there. -/
theorem Lap.perform {request : FrameRequest} {answer : FrameAnswer} (h : Lap f t passed)
    (ht : t.Turning) (hrun : request.perform t = .ok (answer, u)) (hstays : request ≠ .remove f)
    (hother : f ∉ passes [answer]) : Lap f u (passed ++ passes [answer]) := by
  by_cases hsteady : request.Steady
  · obtain ⟨-, rfl, rfl⟩ | ⟨-, hpasses, id, frame, hlive, rfl⟩ := perform_put hsteady hrun
    · cases hid : t.advance.1 with
      | none => exact absurd h.live (by rw [advance_eq_none_iff.1 hid f]; exact Bool.false_ne_true)
      | some g =>
        rw [hid] at hother
        refine h.pass ht (Prod.ext hid rfl) fun he => hother ?_
        rw [he]
        exact List.mem_singleton_self f
    · rw [hpasses, List.append_nil]
      refine h.congr rfl ?_
      rw [get?_put]
      split
      · rfl
      · exact h.live
  · cases request with
    | insert address =>
      cases hrun
      obtain ⟨-, hget, -⟩ := insert_spec ht.toSound address
      refine (List.append_nil passed).symm ▸ h.congr ?_ ?_
      · unfold insert
        split <;> rfl
      · rw [hget, update_apply]
        split
        · rfl
        · exact h.live
    | remove id =>
      obtain ⟨⟨address, next⟩, hremove, hlast⟩ := except_bind_eq_ok.1 hrun
      cases hlast
      obtain ⟨-, hget, -⟩ := remove_spec ht.toSound hremove
      refine (List.append_nil passed).symm ▸ h.congr ?_ ?_
      · obtain ⟨_, -, -, -, rfl⟩ := remove_eq_ok.1 hremove
        rfl
      · rw [hget, update_of_ne fun he => hstays (by rw [he])]
        exact h.live
    | _ => exact (hsteady trivial).elim

theorem Lap.run (h : Lap f t passed) (ht : t.Turning)
    (hrun : run requests t = .ok (answers, u)) (hstays : .remove f ∉ requests)
    (hother : f ∉ passes answers) : Lap f u (passed ++ passes answers) := by
  induction requests generalizing t answers passed with
  | nil =>
    cases hrun
    exact (List.append_nil passed).symm ▸ h
  | cons request rest ih =>
    obtain ⟨answer, middle, later, hfirst, hrest, rfl⟩ := run_cons_eq_ok.1 hrun
    rw [passes_cons, List.mem_append, not_or] at hother
    rw [List.mem_cons, not_or] at hstays
    rw [passes_cons, ← List.append_assoc]
    exact ih (h.perform ht hfirst (Ne.symm hstays.1) hother.1) (ht.perform hfirst) hrest hstays.2
      hother.2

/-- A new frame is entered where none was, unbound and unpinned, and no other one changes. -/
def InsertsFresh (t : FrameTable) : Prop :=
  ∀ address, t.get? (t.insert address).1 = none ∧
    (t.insert address).2.get? (t.insert address).1 =
      some { address, owner := none, pinned := false } ∧
    ∀ other, other ≠ (t.insert address).1 → (t.insert address).2.get? other = t.get? other

/-- The hand finds a live frame if there is one, and turning it slot by slot ends there. -/
structure Searches (t : FrameTable) : Prop where
  none_iff : t.advance.1 = none ↔ ∀ id, t.get? id = none
  idle : t.live = 0 → t.advance = (none, t)
  ends : ∀ id, t.advance.1 = some id → (t.get? id).isSome = true ∧
    ∀ turns, t.slots.length ≤ turns → seek turns t = some (id, t.advance.2)

/-- Passing over as many frames as are live is a round of the ring: every live frame once, in
cyclic order from the hand. -/
structure Circles (t : FrameTable) : Prop where
  nodup : t.ring.Nodup
  mem_iff : ∀ id, id ∈ t.ring ↔ (t.get? id).isSome = true
  round : ∀ requests answers u, (∀ request ∈ requests, request.Steady) →
    run requests t = .ok (answers, u) → requests.countP FrameRequest.isAdvance = t.live →
      passes answers = t.ring

/-- From the time that the hand passed over a frame until it is back there, it passes no other
one twice, whatever frames come and go, as long as this one stays. -/
def Fair (t : FrameTable) : Prop :=
  ∀ f u, t.advance = (some f, u) → ∀ requests answers v, run requests u = .ok (answers, v) →
    .remove f ∉ requests → f ∉ passes answers → (passes answers).Nodup

theorem Sound.insertsFresh (h : t.Sound) : t.InsertsFresh := by
  intro address
  obtain ⟨hfree, hget, -⟩ := insert_spec h address
  refine ⟨hfree, ?_, fun other hne => ?_⟩
  · rw [hget, update_self]
  · rw [hget, update_of_ne hne]

theorem Sound.searches (h : t.Sound) : t.Searches where
  none_iff := advance_eq_none_iff
  idle hlive := by
    refine advance_of_ring_nil (List.length_eq_zero_iff.1 ?_)
    rw [h.length_ring, hlive]
  ends id hid := by
    have hadvance : t.advance = (some id, t.advance.2) := Prod.ext hid rfl
    exact ⟨(hand_advance hadvance).1, fun turns => seek_eq_advance hadvance⟩

theorem Sound.circles (h : t.Sound) : t.Circles where
  nodup := t.nodup_ring
  mem_iff _ := mem_ring
  round requests answers u hsteady hrun hcount := by
    rw [← h.length_ring] at hcount
    rw [passes_of_steady hsteady hrun (Nat.le_of_eq hcount), hcount, List.take_length]

theorem Turning.fair (h : t.Turning) : t.Fair := by
  intro f u hadvance requests answers v hrun hstays hother
  have hu : u.Turning := by
    have hnext := h.advance
    rwa [hadvance] at hnext
  exact ((Lap.start hadvance).run hu hrun hstays hother).nodup

/-- After any requests that end without a bug, the vacant list holds the empty slots, each once,
and the live frames are counted; new frames are entered apart from the live ones; the hand finds
every live frame, goes round all of them, and is fair to those that stay. -/
theorem run_orderly (hrun : run requests empty = .ok (answers, t)) :
    t.Sound ∧ t.InsertsFresh ∧ t.Searches ∧ t.Circles ∧ t.Fair := by
  have h := turning_empty.run hrun
  exact ⟨h.toSound, h.insertsFresh, h.searches, h.circles, h.fair⟩

/-- Three frames, of which the second is given up before the hand comes to it. -/
def thinned : List FrameRequest :=
  [.insert ⟨0x1000⟩, .insert ⟨0x2000⟩, .insert ⟨0x3000⟩, .remove 1, .setPinned 2 true, .advance]

/-- The gap is filled behind the hand, the arena grows where the hand is, and a frame that was
passed over is given up and its slot filled again. -/
def growing : List FrameRequest :=
  [.insert ⟨0x4000⟩, .insert ⟨0x5000⟩, .advance, .advance, .remove 0, .insert ⟨0x6000⟩, .advance]

/-- The hand passes over the pinned frame and comes to every other one before it is back there. -/
theorem run_orderly_of_thinned : ∃ answers t u later v,
    run thinned empty = .ok (answers, t) ∧ t.ring = [2, 0] ∧ t.vacant = [1] ∧
      t.vacant.Nodup ∧ t.live = 2 ∧ t.advance = (some 2, u) ∧ run growing u = .ok (later, v) ∧
        passes later = [3, 0, 1] ∧ (passes later).Nodup ∧ v.advance.1 = some 2 := by
  obtain ⟨answers, t, hrun⟩ : ∃ answers t, run thinned empty = .ok (answers, t) := ⟨_, _, rfl⟩
  obtain ⟨hsound, -, -, -, hfair⟩ := run_orderly hrun
  cases hrun
  exact ⟨_, _, _, _, _, rfl, rfl, rfl, hsound.vacant_nodup, rfl, rfl, rfl, rfl,
    hfair 2 _ rfl growing _ _ rfl (by simp [growing]) (by decide), rfl⟩

end FrameTable
end Pager
