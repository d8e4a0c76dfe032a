import Pager.Event
import Pager.Memory.FramePool
import Pager.Memory.FrameTable
import Pager.Space
import Pager.Storage.Swap
import Pager.Page.Transfer

/-!
The machine that all spaces share: the frames and their pool, the swap table, the
files, and the spaces themselves. The operations here are the steps that
the larger ones are made of; each names the space and the page it works on, and
reads them afresh, since an eviction may have changed them in between.
-/
namespace Pager

structure Machine where
  pool : FramePool
  frames : FrameTable := .empty
  swap : SwapTable
  files : FileStore
  spaces : Table Space := .empty
  nextSpace : SpaceId := 1
  evictions : Nat := 0
  /-- What has been reported, the latest first. -/
  events : List Event := []
  /-- The initializers that were run, each for a page, the latest first. -/
  inits : List (Owner × Initialization) := []

structure Stats where
  residentFrames : Nat
  evictions : Nat
  swapUsed : Nat
  swapCapacity : Nat
deriving DecidableEq, Repr

def Stats.text (stats : Stats) : String :=
  s!"VmStats \x7b resident_frames: {stats.residentFrames}, evictions: {stats.evictions}, " ++
    s!"swap_used: {stats.swapUsed}, swap_capacity: {stats.swapCapacity} \x7d"

namespace Machine

/-- A machine without spaces, on so many frames and sectors and on files of the given contents. -/
def boot (frames sectors : Nat) (files : List Bytes) : Except Bug Machine := do
  let pool ← FramePool.ofSize frames
  let swap := SwapTable.ofDisk (← Disk.ofSize sectors)
  return {
    pool
    swap
    files := .ofContents files
    events := [.swapReady swap.capacity swap.disk.size] }

def stats (s : Machine) : Stats where
  residentFrames := s.frames.live
  evictions := s.evictions
  swapUsed := s.swap.used
  swapCapacity := s.swap.capacity

variable {α : Type}

/-- Work on the whole machine that can fail as a request. -/
abbrev Act (α : Type) := Action Machine PagerError α

def report (event : Event) : Act Unit :=
  modify fun s => { s with events := event :: s.events }

def onFrames (f : FrameTable → Except Bug (α × FrameTable)) : Act α := do
  let s ← get
  let (a, frames) ← f s.frames
  set { s with frames }
  return a

def space (id : SpaceId) : Act Space := do
  match (← get).spaces.get? id with
  | none => Action.bug (.spaceGone id)
  | some space => return space

def modifySpace (id : SpaceId) (f : Space → Space) : Act Unit :=
  modify fun s => { s with spaces := s.spaces.modify id f }

def modifyDirectory (id : SpaceId) (f : Directory .emulated → Directory .emulated) : Act Unit :=
  modifySpace id fun space => { space with directory := f space.directory }

/-- The page registered at `a`. -/
def page (id : SpaceId) (a : VirtualAddress) : Act Page := do
  match (← space id).pages.get? a with
  | none => throw .notMapped
  | some page => return page

def putPage (id : SpaceId) (page : Page) : Act Unit :=
  modifySpace id fun space => { space with pages := space.pages.put page }

def insertPages (id : SpaceId) (pages : List Page) : Act Unit := do
  let table ← Action.ofResult ((← space id).pages.insertAll pages)
  modifySpace id fun space => { space with pages := table }

def addressOfFrame (frame : FrameId) : Act PhysicalAddress := do
  return (← (← get).frames.get frame).address

def readFrame (address : PhysicalAddress) : Act Bytes := do
  (← get).pool.read address

def writeFrame (address : PhysicalAddress) (start : Nat) (bytes : Bytes) : Act Unit := do
  let s ← get
  set { s with pool := ← s.pool.write address start bytes }

/-- Runs a transfer between the page at `a` and the frame at `address`. -/
def transfer (id : SpaceId) (a : VirtualAddress) (address : PhysicalAddress)
    (m : Action Transfer PagerError Unit) : Act Unit := do
  let page ← page id a
  let frame ← readFrame address
  let s ← get
  let (result, t) ← (m { page, frame, swap := s.swap, files := s.files } : Except Bug _)
  set { s with
    swap := t.swap
    files := t.files
    inits := t.inits.map (Prod.mk (Owner.mk id a)) ++ s.inits }
  writeFrame address 0 t.frame
  putPage id t.page
  Action.ofResult result

/-- Enters the frame at `address` in the directory for the page at `a`. -/
def install (id : SpaceId) (a : VirtualAddress) (address : PhysicalAddress) : Act Unit := do
  let writable := (← page id a).writable
  let space ← space id
  match space.refusesEntries with
  | some e => throw e
  | none =>
    let directory ← space.directory.map a address writable
    modifyDirectory id fun _ => directory

def bindFrame (frame : FrameId) (id : SpaceId) (a : VirtualAddress) : Act Unit := do
  let page ← page id a
  let s ← get
  let (frames, bound) ← s.frames.bind frame ⟨id, a⟩ page
  set { s with frames }
  putPage id bound

/-- Gives an unbound frame back to the pool. -/
def returnFrame (frame : FrameId) : Act Unit := do
  let address ← onFrames (·.remove frame)
  let s ← get
  set { s with pool := ← s.pool.giveBack address }

/-- Releases what a page holds that is no longer registered. -/
def discardPage (id : SpaceId) (page : Page) : Act Unit := do
  if let some frame := page.frame then
    modifyDirectory id (·.unmap page.address)
    onFrames fun frames => do
      let (frames, _) ← frames.unbind frame page
      return ((), frames)
    returnFrame frame
  let s ← get
  let (_, swap) ← page.releaseSlot s.swap
  set { s with swap }

end Machine
end Pager
