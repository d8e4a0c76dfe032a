import Pager.Page.Basic
import Pager.Storage.Swap

/-!
Transfers between a page and a frame. `populate` fills the frame with the page's
contents, `evict` moves the frame's contents to the page's backing store. Each
works on the page, the frame and both kinds of store at once, since a transfer
that fails half-way can leave its marks on the frame and on the stores. A transfer
keeps account of the initializers that it runs.
-/
namespace Pager

structure Transfer where
  page : Page
  frame : Bytes
  swap : SwapTable
  files : FileStore
  /-- The initializers that were run, the latest first. -/
  inits : List Initialization := []

namespace Transfer

def onSwap {ε α : Type} (m : Action SwapTable ε α) : Action Transfer ε α :=
  m.within Transfer.swap fun swap t => { t with swap }

def onFiles {α : Type} (m : Action FileStore StoreError α) : Action Transfer PagerError α :=
  (m.mapError .store).within Transfer.files fun files t => { t with files }

def setFrame (frame : Bytes) : Action Transfer PagerError Unit := modify fun t => { t with frame }

def setKind (kind : PageKind) : Action Transfer PagerError Unit :=
  modify fun t => { t with page := { t.page with kind } }

/-- Reads `count` bytes of a file into the frame and clears the rest of it. -/
def load (file : Handle) (offset count : Nat) : Action Transfer PagerError Unit := do
  let frame := (← get).frame
  if frame.length < count then Action.bug .bounds
  let bytes ← onFiles (FileStore.readAt file count offset)
  setFrame (frame.overlay 0 bytes)
  if bytes.length ≠ count then throw (.store .shortRead)
  setFrame ((frame.overlay 0 bytes).clearFrom count)

def loadSlice (slice : LoadSlice) : Action Transfer PagerError Unit :=
  match slice.file with
  | none => throw .noBackingFile
  | some file => load file slice.offset slice.readBytes

/-- What an initializer does to the frame. -/
def initFrame (init : Initializer) (slice : LoadSlice) : Action Transfer PagerError Unit := do
  let frame := (← get).frame
  match init with
  | .zeros => setFrame (.zeros frame.length)
  | .fileSlice => loadSlice slice
  | .computed byteAt =>
    match byteAt slice frame with
    | .error e => throw e
    | .ok byteAt => setFrame (frame.refill byteAt)

/-- Runs an initializer on the frame, and keeps account of it. -/
def fill (init : Initializer) (slice : LoadSlice) : Action Transfer PagerError Unit := do
  let outcome ← (initFrame init slice).attempt
  modify fun t => { t with inits := { init, slice, outcome } :: t.inits }
  Action.ofResult outcome

/-- Fills the frame with the page's contents. An unpopulated page runs its initializer and
stays unpopulated if that fails; an evicted one keeps its slot if the read fails. -/
def populate : Action Transfer PagerError Unit := do
  let t ← get
  match t.page.kind with
  | .unpopulated page =>
    fill page.initializer page.slice
    setKind (← Action.ofResult page.populated)
  | .anonymous none => setFrame (.zeros t.frame.length)
  | .anonymous (some slot) =>
    let (frame, result) ← onSwap (SwapTable.swapIn slot t.frame)
    setFrame frame
    Action.ofResult result
    setKind (.anonymous none)
  | .fileBacked page => load page.file page.offset page.readBytes

/-- Writes the part of the frame that belongs to the file back to it: all of that part, not
only the bytes that changed. -/
def writeBack (page : FileBacking) : Action Transfer PagerError Unit := do
  let frame := (← get).frame
  if frame.length < page.readBytes then Action.bug .bounds
  let written ← onFiles (FileStore.writeAt page.file (frame.take page.readBytes) page.offset)
  if written ≠ page.readBytes then throw (.store .shortWrite)

/-- Moves the contents of the frame to the page's backing store. -/
def evict (dirty : Bool) : Action Transfer PagerError Unit := do
  let t ← get
  match t.page.kind with
  | .unpopulated _ => Action.bug (.uninitializedOwner t.page.address.value)
  | .anonymous (some _) => Action.bug .slotAlreadyHeld
  | .anonymous none =>
    let slot ← onSwap (SwapTable.swapOut t.frame)
    setKind (.anonymous (some slot))
  | .fileBacked page => if dirty then writeBack page

end Transfer

/-- Gives up the page's swap slot, if it holds one. -/
def Page.releaseSlot (page : Page) (swap : SwapTable) : Except Bug (Page × SwapTable) :=
  match page.kind with
  | .anonymous (some slot) => do
    return ({ page with kind := .anonymous none }, ← swap.release slot)
  | _ => .ok (page, swap)

end Pager
