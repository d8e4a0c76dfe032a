import Pager.Bug

/-!
Operations on a state. An operation that fails keeps the state it has reached,
because a failed request must leave something to go on with; a bug keeps
nothing. `attempt` turns a failure into a value, and `within` runs an operation
of a part on the whole.
-/
namespace Pager

abbrev Action (σ ε α : Type) := ExceptT ε (StateT σ (Except Bug)) α

namespace Action

variable {σ τ ε ε' α : Type}

def bug (b : Bug) : Action σ ε α := fun _ => .error b

def ofResult (r : Except ε α) : Action σ ε α := fun s => .ok (r, s)

def attempt (m : Action σ ε α) : Action σ ε' (Except ε α) := fun s => do
  let (r, t) ← m s
  return (.ok r, t)

def mapError (f : ε → ε') (m : Action σ ε α) : Action σ ε' α := fun s => do
  let (r, t) ← m s
  return (r.mapError f, t)

def within (part : σ → τ) (put : τ → σ → σ) (m : Action τ ε α) : Action σ ε α := fun s => do
  let (r, t) ← m (part s)
  return (r, put t s)

theorem bind_apply {β : Type} (m : Action σ ε α) (f : α → Action σ ε β) (s : σ) :
    (m >>= f) s = match m s with
      | .error b => .error b
      | .ok (.error e, t) => .ok (.error e, t)
      | .ok (.ok a, t) => f a t := by
  simp only [bind, ExceptT.bind, ExceptT.mk, StateT.bind, Except.bind]
  rcases m s with b | ⟨e | a, t⟩ <;> rfl

end Action

end Pager
