import Pager.Machine.Basic

/-!
Finding a frame. The pool is asked first. When it is empty the clock hand goes
round the frames: a pinned frame, and one whose space somebody else is working
on, is passed by, an accessed page loses its accessed bit and is passed by, and
the first other page that can be written out gives up its frame. Two rounds and
one step are enough to come back to every page that lost its bit.
-/
namespace Pager.Machine

/-- Tries to take the frame away from the page that owns it; false if the page was accessed. -/
def tryVictim (frame : FrameId) (owner : Owner) : Act Bool := do
  let directory := (← space owner.space).directory
  if directory.has owner.page .accessed then
    modifyDirectory owner.space (·.set owner.page .accessed false)
    return false
  let dirty := directory.has owner.page .dirty
  if !(← space owner.space).pages.contains owner.page then
    Action.bug (.ownerUnregistered frame owner.page.value)
  let address ← addressOfFrame frame
  transfer owner.space owner.page address (Transfer.evict dirty)
  modifyDirectory owner.space (·.unmap owner.page)
  let evicted ← page owner.space owner.page
  let unbound ← onFrames fun frames => do
    let (frames, unbound) ← frames.unbind frame evicted
    return (unbound, frames)
  putPage owner.space unbound
  return true

/-- The owner of a frame that may be evicted. -/
def candidate? (frame : FrameId) : Act (Option Owner) := do
  let s ← get
  let entry ← s.frames.get frame
  if entry.pinned then return none
  match entry.owner with
  | none => return none
  | some owner =>
    match s.spaces.get? owner.space with
    | none => return none
    | some space => return if space.busy then none else some owner

def noVictim (swapFull : Bool) : Act FrameId := do
  report (.noVictim (← get).frames.live swapFull)
  throw (if swapFull then .swapExhausted else .outOfMemory)

/-- Moves the hand at most `steps` times. A full swap disk does not end the search, since a
file-backed page may still be found; any other failure does. -/
def scan : Nat → (swapFull : Bool) → Act FrameId
  | 0, swapFull => noVictim swapFull
  | steps + 1, swapFull => do
    match ← onFrames fun frames => .ok frames.advance with
    | none => noVictim swapFull
    | some frame =>
      match ← candidate? frame with
      | none => scan steps swapFull
      | some owner =>
        match ← (tryVictim frame owner).attempt with
        | .ok true =>
          modify fun s => { s with evictions := s.evictions + 1 }
          report (.evicted owner.page owner.space frame)
          return frame
        | .ok false => scan steps swapFull
        | .error .swapExhausted => scan steps true
        | .error e => throw e

def evict : Act FrameId := do
  scan (2 * (← get).frames.live + 1) false

/-- An unbound frame: a free one, or one that a page was evicted from. -/
def obtainFrame : Act FrameId := do
  let s ← get
  match s.pool.take? with
  | none => evict
  | some (address, pool) =>
    let (frame, frames) := s.frames.insert address
    set { s with pool, frames }
    return frame

end Pager.Machine
