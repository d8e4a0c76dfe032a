import Pager.Id

/-!
Contract violations. A bug is no failure of the request that met it: the run
ends there, and no state follows it. Each constructor is a check that some
operation makes, with the numbers its message shows.
-/
namespace Pager

inductive Arithmetic where
  | add | subtract | multiply
deriving DecidableEq, Repr

inductive Bug where
  /-- A result does not fit a machine word, or would be negative. -/
  | overflow (operation : Arithmetic)
  /-- A buffer would exceed `maxBufferSize`. -/
  | capacity
  /-- A slice reaches past the end of its buffer. -/
  | bounds
  /-- A buffer handed to the swap table is not one page long. -/
  | transferLength
  | physicalTooWide
  | notCanonical
  | virtualMisaligned
  | physicalMisaligned
  | poolMisaligned
  | outsidePool (frame : Nat)
  | frameFreedTwice (frame : Nat)
  | slotFreedTwice (slot : SwapSlot)
  | untrackedFreed (id : FrameId)
  | freedWhileBound (id : FrameId)
  | untracked (id : FrameId)
  | foreignOwner
  | alreadyResident (page : Nat) (id : FrameId)
  | alreadyBound (id : FrameId)
  | notResident (page : Nat) (id : FrameId)
  | notBound (id : FrameId)
  | backsOther (id : FrameId)
  | uninitializedOwner (page : Nat)
  | slotAlreadyHeld
  | ownerUnregistered (id : FrameId) (page : Nat)
  | spaceGone (id : SpaceId)
  | alreadyInstalled
  | notInstalled
deriving DecidableEq, Repr

def Arithmetic.text : Arithmetic → String
  | add => "add"
  | subtract => "subtract"
  | multiply => "multiply"

/-- The text a bug is reported with; some checks have none. -/
def Bug.message : Bug → Option String
  | overflow operation => s!"attempt to {operation.text} with overflow"
  | capacity => "capacity overflow"
  | bounds => none
  | transferLength => none
  | physicalTooWide => "physical address exceeds maximum width"
  | notCanonical => "address is not canonical"
  | virtualMisaligned => "virtual address must be page-aligned"
  | physicalMisaligned => "physical address must be page-aligned"
  | poolMisaligned => "frame address must be page-aligned"
  | outsidePool frame => s!"frame {hex frame} not within emulated memory"
  | frameFreedTwice frame => s!"double free of frame {hex frame}"
  | slotFreedTwice slot => s!"double free of {slot.text}"
  | untrackedFreed id => s!"double free of {id.text}"
  | freedWhileBound id => s!"freeing {id.text} while still bound"
  | untracked id => s!"{id.text} is not in the frame table"
  | foreignOwner => "owner does not name this page"
  | alreadyResident page id => s!"page {hex page} already resident in Some({id.text})"
  | alreadyBound id => s!"{id.text} is already bound"
  | notResident page id => s!"page {hex page} is not resident in {id.text}"
  | notBound id => s!"{id.text} is not bound"
  | backsOther id => s!"{id.text} backs a different page"
  | uninitializedOwner page => s!"uninitialized page {hex page} owns a frame"
  | slotAlreadyHeld => "resident page already has a swap slot"
  | ownerUnregistered id page => s!"{id.text} bound to unregistered page {hex page}"
  | spaceGone id => s!"space {id} does not exist"
  | alreadyInstalled => "virtual memory subsystem already initialized"
  | notInstalled => "virtual memory not initialized; call init_subsystem during start-up"

end Pager
