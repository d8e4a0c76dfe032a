import Pager.Machine.Basic

/-!
The one machine that a kernel runs on. It is installed once, during start-up, and
asking for it before that is a bug.
-/
namespace Pager

structure Subsystem where
  machine : Option Machine := none

namespace Subsystem

def install (sub : Subsystem) (frames sectors : Nat) : Except Bug Subsystem := do
  let machine ← Machine.boot frames sectors []
  if sub.machine.isSome then throw .alreadyInstalled
  return ⟨some { machine with events := .installed :: machine.events }⟩

def current (sub : Subsystem) : Except Bug Machine :=
  match sub.machine with
  | none => .error .notInstalled
  | some machine => .ok machine

end Subsystem
end Pager
