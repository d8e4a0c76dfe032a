import Pager.Memory.FrameTable
import Pager.Proofs.Execution
import Mathlib.Logic.Function.Basic

/-!
The frame table as a map from indices to frames. Its vacant list holds the empty
slots, each once, so a tracked frame never gets the index of another live frame;
every operation then changes the map at one index.
-/
namespace Pager

open Function

namespace FrameTable

structure Sound (t : FrameTable) : Prop where
  vacant_nodup : t.vacant.Nodup
  mem_vacant : ∀ id, id ∈ t.vacant ↔ t.slots[id]? = some none
  live_eq : t.live = t.slots.countP Option.isSome

variable {t next : FrameTable} {id : FrameId} {frame : Frame} {page after : Page}
  {address : PhysicalAddress}

theorem sound_empty : Sound empty := ⟨List.nodup_nil, by simp [empty], rfl⟩

theorem slots_of_get? (h : t.get? id = some frame) : t.slots[id]? = some (some frame) :=
  Option.join_eq_some_iff.1 h

theorem get?_set {frame : Option Frame} (h : id < t.slots.length) (vacant : List FrameId)
    (hand live : Nat) :
    get? ⟨t.slots.set id frame, vacant, hand, live⟩ = update t.get? id frame := by
  funext other
  rw [update_apply]
  unfold get?
  by_cases he : other = id
  · subst he
    simp [h]
  · simp [he, Ne.symm he]

theorem countP_set {old : Option Frame} (h : t.slots[id]? = some old) (frame : Option Frame) :
    (t.slots.set id frame).countP Option.isSome + old.toList.length =
      t.slots.countP Option.isSome + frame.toList.length := by
  generalize t.slots = slots at h
  induction slots generalizing id with
  | nil => simp at h
  | cons head rest ih =>
    cases id with
    | zero =>
      simp only [List.getElem?_cons_zero, Option.some.injEq] at h
      subst h
      cases head <;> cases frame <;> simp
    | succ id =>
      have := ih (by simpa using h)
      simp only [List.set_cons_succ, List.countP_cons]
      omega

/-- The index of a fresh frame was empty, and the map changes there alone. -/
theorem insert_spec (h : t.Sound) (address : PhysicalAddress) :
    t.get? (t.insert address).1 = none ∧
      (t.insert address).2.get? = update t.get? (t.insert address).1 (some { address }) ∧
      (t.insert address).2.Sound := by
  unfold insert
  cases hv : t.vacant with
  | nil =>
    dsimp only
    have none_slot : ∀ id : FrameId, t.slots[id]? ≠ some none := by
      intro id hid
      have := (h.mem_vacant id).2 hid
      simp [hv] at this
    refine ⟨by simp [get?], ?_, List.nodup_nil, ?_, ?_⟩
    · funext (other : Nat)
      rw [update_apply]
      unfold get?
      by_cases he : other = t.slots.length
      · simp [he]
      · rw [if_neg he, List.getElem?_append]
        split
        · rfl
        · rename_i hge
          rw [List.getElem?_eq_none (by simp; omega), List.getElem?_eq_none (by omega)]
    · intro id
      rw [List.getElem?_append]
      split
      · simp [none_slot id]
      · simp only [List.not_mem_nil, false_iff]
        intro hid
        obtain ⟨hlt, he⟩ := List.getElem?_eq_some_iff.1 hid
        simp at he
    · simp [h.live_eq]
  | cons id rest =>
    dsimp only
    have hid : t.slots[id]? = some none := (h.mem_vacant id).1 (by simp [hv])
    have hlt : id < t.slots.length := (List.getElem?_eq_some_iff.1 hid).1
    have hnodup := h.vacant_nodup
    rw [hv, List.nodup_cons] at hnodup
    refine ⟨by simp [get?, hid], get?_set hlt .., hnodup.2, ?_, ?_⟩
    · intro other
      by_cases he : other = id
      · subst he
        simp [hnodup.1, hlt]
      · have := h.mem_vacant other
        rw [hv, List.mem_cons] at this
        simpa [he, Ne.symm he] using this
    · have := countP_set hid (some { address })
      have := h.live_eq
      simp at *
      omega

theorem remove_eq_ok {freed : PhysicalAddress} : t.remove id = .ok (freed, next) ↔
    ∃ frame, t.get? id = some frame ∧ frame.owner = none ∧ freed = frame.address ∧
      next = { t with slots := t.slots.set id none, vacant := id :: t.vacant, live := t.live - 1 } := by
  unfold remove
  cases hf : t.get? id with
  | none => simp
  | some frame =>
    cases ho : frame.owner with
    | some owner => simp [ho]
    | none => simp [ho, eq_comm]

theorem remove_spec (h : t.Sound) (hr : t.remove id = .ok (address, next)) :
    (∃ frame, t.get? id = some frame ∧ frame.owner = none ∧ frame.address = address) ∧
      next.get? = update t.get? id none ∧ next.Sound := by
  obtain ⟨frame, hf, ho, rfl, rfl⟩ := remove_eq_ok.1 hr
  have hlt := lt_length_of_get? hf
  have hslot := slots_of_get? hf
  refine ⟨⟨frame, hf, ho, rfl⟩, get?_set hlt .., ?_, ?_, ?_⟩
  · rw [List.nodup_cons, h.mem_vacant, hslot]
    exact ⟨by simp, h.vacant_nodup⟩
  · intro other
    by_cases he : other = id
    · subst he
      simp [hlt]
    · simp [he, Ne.symm he, h.mem_vacant]
  · have := countP_set hslot none
    have := h.live_eq
    simp at *
    omega

/-- Changing a live frame keeps the arena in order. -/
theorem put_spec (h : t.Sound) (hf : (t.get? id).isSome = true) (frame : Frame) :
    (t.put id frame).get? = update t.get? id (some frame) ∧ (t.put id frame).Sound := by
  obtain ⟨old, hold⟩ := Option.isSome_iff_exists.1 hf
  have hlt := lt_length_of_get? hold
  have hslot := slots_of_get? hold
  refine ⟨get?_set hlt .., h.vacant_nodup, ?_, ?_⟩
  · intro other
    by_cases he : other = id
    · subst he
      simp only [put, h.mem_vacant, hslot, List.getElem?_set_self hlt]
      simp
    · simp [put, h.mem_vacant, Ne.symm he]
  · have := countP_set hslot (some frame)
    have := h.live_eq
    simp [put] at *
    omega

theorem get?_advance (t : FrameTable) : t.advance.2.get? = t.get? := by
  unfold advance
  split <;> rfl

theorem sound_advance (h : t.Sound) : t.advance.2.Sound := by
  unfold advance
  split
  · exact h
  · exact ⟨h.vacant_nodup, h.mem_vacant, h.live_eq⟩

theorem bind_eq_ok {owner : Owner} : t.bind id owner page = .ok (next, after) ↔
    page.address = owner.page ∧ page.frame = none ∧
      ∃ frame, t.get? id = some frame ∧ frame.owner = none ∧
        next = t.put id { frame with owner := some owner } ∧
        after = { page with frame := some id } := by
  unfold bind
  by_cases ha : page.address = owner.page
  · cases hf : page.frame with
    | some other => simp [ha, except_throw_bind]
    | none =>
      simp only [ha, ne_eq, not_true, if_false, except_bind_eq_ok, get_eq_ok, true_and]
      refine exists_congr fun frame => and_congr_right fun _ => ?_
      cases ho : frame.owner with
      | some old =>
        simp only [Option.isSome_some, if_true, except_throw_bind, reduceCtorEq, false_and]
      | none => simp [except_pure_eq_ok]
  · simp [ha, except_throw_bind]

theorem unbind_eq_ok : t.unbind id page = .ok (next, after) ↔
    page.frame = some id ∧
      ∃ frame owner, t.get? id = some frame ∧ frame.owner = some owner ∧
        owner.page = page.address ∧
        next = t.put id { frame with owner := none, pinned := false } ∧
        after = { page with frame := none } := by
  unfold unbind
  by_cases hp : page.frame = some id
  · simp only [hp, ne_eq, not_true, if_false, except_bind_eq_ok, get_eq_ok, true_and]
    refine exists_congr fun frame => ?_
    cases ho : frame.owner with
    | none => simp [except_throw_ne_ok]
    | some owner =>
      by_cases hpage : owner.page = page.address
      · simp [hpage, except_pure_eq_ok]
      · simp only [hpage, not_false_eq_true, if_true, except_throw_bind, reduceCtorEq,
          and_false, Option.some.injEq, false_iff]
        rintro ⟨other, -, rfl, h, -⟩
        exact hpage h
  · simp [hp, except_throw_bind]

theorem setPinned_eq_ok {b : Bool} : t.setPinned id b = .ok next ↔
    ∃ frame, t.get? id = some frame ∧ next = t.put id { frame with pinned := b } := by
  unfold setPinned
  rw [except_bind_eq_ok]
  simp only [get_eq_ok, except_pure_eq_ok]

end FrameTable
end Pager
