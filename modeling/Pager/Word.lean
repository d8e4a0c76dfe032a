import Pager.Bug

/-!
Arithmetic on machine words. Words are unsigned and have 64 bits; a result that
does not fit is a bug, never a wrapped number.
-/
namespace Pager

def wordAdd (a b : Nat) : Except Bug Nat :=
  if a + b < 1 <<< 64 then .ok (a + b) else .error (.overflow .add)

def wordSub (a b : Nat) : Except Bug Nat :=
  if b ≤ a then .ok (a - b) else .error (.overflow .subtract)

def wordMul (a b : Nat) : Except Bug Nat :=
  if a * b < 1 <<< 64 then .ok (a * b) else .error (.overflow .multiply)

theorem wordAdd_eq_ok {a b c : Nat} : wordAdd a b = .ok c ↔ a + b < 1 <<< 64 ∧ c = a + b := by
  unfold wordAdd
  split
  · rename_i h
    exact ⟨fun e => ⟨h, (Except.ok.inj e).symm⟩, fun e => e.2 ▸ rfl⟩
  · rename_i h
    exact ⟨fun e => by (cases e), fun e => absurd e.1 h⟩

theorem wordSub_eq_ok {a b c : Nat} : wordSub a b = .ok c ↔ b ≤ a ∧ c = a - b := by
  unfold wordSub
  split
  · rename_i h
    exact ⟨fun e => ⟨h, (Except.ok.inj e).symm⟩, fun e => e.2 ▸ rfl⟩
  · rename_i h
    exact ⟨fun e => by (cases e), fun e => absurd e.1 h⟩

theorem wordMul_eq_ok {a b c : Nat} : wordMul a b = .ok c ↔ a * b < 1 <<< 64 ∧ c = a * b := by
  unfold wordMul
  split
  · rename_i h
    exact ⟨fun e => ⟨h, (Except.ok.inj e).symm⟩, fun e => e.2 ▸ rfl⟩
  · rename_i h
    exact ⟨fun e => by (cases e), fun e => absurd e.1 h⟩

end Pager
