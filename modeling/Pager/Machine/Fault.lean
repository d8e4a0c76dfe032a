import Pager.Machine.Claim

/-!
Page faults. A fault on a page that is registered and may be accessed makes the
page resident. A fault near the stack pointer registers a stack page first; that
page stays registered even if it cannot be made resident.
-/
namespace Pager

/-- What the trap handler knows about a fault. -/
structure PageFault where
  address : VirtualAddress
  write : Bool
  user : Bool
  /-- The page was not present; otherwise the access broke its protection. -/
  notPresent : Bool
  /-- The stack pointer in the trap frame, which counts for faults from user mode. -/
  stackPointer : VirtualAddress

/-- Should an access at `a` grow the stack? It must lie in the stack's region and no lower
than `stackSlack` below the stack pointer. -/
def growsStack (a stackPointer : VirtualAddress) : Bool :=
  a.value < userStackTop && userStackTop - maxStackSize ≤ a.value &&
    stackPointer.value - stackSlack ≤ a.value

namespace Machine

/-- Registers a stack page at `a` if the access may grow the stack. -/
def growStack (id : SpaceId) (a : VirtualAddress) (stackPointer : Option VirtualAddress) :
    Act Unit := do
  if (← space id).pages.contains a then return ()
  match stackPointer with
  | none => return ()
  | some stackPointer =>
    if growsStack a stackPointer then
      insertPages id [.ofStack a]
      report (.stackGrew id a.pageBase)

def resolve (id : SpaceId) (fault : PageFault) : Act Unit := do
  Action.ofResult (requireUser fault.address)
  if !fault.notPresent then throw .writeProtected
  let saved := (← space id).stackPointer
  growStack id fault.address (if fault.user then some fault.stackPointer else saved)
  if fault.write && !(← page id fault.address).writable then throw .readOnly
  let _ ← claim id fault.address

/-- Resolves a fault, so that the access can be tried again. Any failure means the end of the
process that faulted. -/
def serveFault (id : SpaceId) (fault : PageFault) : Act Unit := do
  match ← (resolve id fault).attempt with
  | .ok () => report (.faultResolved id fault.write fault.address)
  | .error e =>
    report (.faultFatal id fault.user fault.write fault.address e)
    throw e

end Machine
end Pager
