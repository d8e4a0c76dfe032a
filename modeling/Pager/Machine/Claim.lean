import Pager.Machine.Eviction

/-!
Registering pages and making them resident. A claimed page gets a frame, is
filled into it and entered in the directory. If filling or entering fails, the
frame goes back to the pool and the page stays without one; a page that was
filled before the directory refused it counts as populated all the same.
-/
namespace Pager.Machine

/-- Registers an unpopulated page at the page that holds `a`. -/
def register (id : SpaceId) (a : VirtualAddress) (writable : Bool) (type : PageType)
    (init : Option Initializer) (slice : LoadSlice) : Act Unit := do
  Action.ofResult (requireUser a)
  if type = .fileBacked ∧ slice.file.isNone then throw .noBackingFile
  insertPages id [.fresh a writable type init slice]

def registerAnonymous (id : SpaceId) (a : VirtualAddress) (writable : Bool) : Act Unit :=
  register id a writable .anonymous none {}

/-- Takes the page that holds `a` out of the space. Its contents are not written back. -/
def remove (id : SpaceId) (a : VirtualAddress) : Act Unit := do
  let page ← page id a
  modifySpace id fun space => { space with pages := space.pages.erase a }
  discardPage id page

/-- Fills the page at `a` into an unbound frame and maps it there. -/
def settle (id : SpaceId) (a : VirtualAddress) (frame : FrameId) (m : Act Unit) : Act Unit := do
  let address ← addressOfFrame frame
  match ← (do m; install id a address : Act Unit).attempt with
  | .error e =>
    returnFrame frame
    throw e
  | .ok () => pure ()

/-- Makes the page that holds `a` resident and yields its frame. -/
def claim (id : SpaceId) (a : VirtualAddress) : Act FrameId := do
  let a := a.pageBase
  match (← page id a).frame with
  | some frame => return frame
  | none =>
    let frame ← obtainFrame
    let address ← addressOfFrame frame
    settle id a frame (transfer id a address Transfer.populate)
    modifyDirectory id (·.set a .dirty false)
    bindFrame frame id a
    return frame

/-- Makes the page that holds `a` resident and keeps it so until `unpin`. -/
def pin (id : SpaceId) (a : VirtualAddress) : Act Unit := do
  let frame ← claim id a
  onFrames fun frames => do return ((), ← frames.setPinned frame true)

def unpin (id : SpaceId) (a : VirtualAddress) : Act Unit := do
  if let some frame := ((← space id).pages.get? a).bind Page.frame then
    onFrames fun frames => do return ((), ← frames.setPinned frame false)

end Pager.Machine
