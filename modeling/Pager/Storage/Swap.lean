import Pager.Action
import Pager.Storage.Disk
import Pager.Storage.SlotBitmap

/-!
The swap table. The disk is cut into slots of `sectorsPerPage` consecutive
sectors, and a bitmap says of each slot whether it holds the contents of an
evicted page. A slot is claimed before its sectors are written and released
only after they were read back.
-/
namespace Pager

structure SwapTable where
  disk : Disk
  /-- One bit for each whole slot of the disk. -/
  bitmap : SlotBitmap

namespace SwapTable

def ofDisk (disk : Disk) : SwapTable where
  disk := disk
  bitmap := .ofSlots (disk.size / sectorsPerPage)

def capacity (swap : SwapTable) : Nat := swap.bitmap.slots

def used (swap : SwapTable) : Nat := swap.bitmap.used

def isUsed (swap : SwapTable) (slot : SwapSlot) : Bool := swap.bitmap.test slot

def firstSector (slot : SwapSlot) : Nat := slot * sectorsPerPage

/-- The sectors of a page. -/
def sectorsOf (page : Bytes) : List Bytes :=
  (List.range sectorsPerPage).map fun i => page.slice (i * sectorSize) sectorSize

/-- Claims the lowest free slot. -/
def allocate : Action SwapTable PagerError SwapSlot := do
  let swap ← get
  match swap.bitmap.allocate with
  | none => throw .swapExhausted
  | some (slot, bitmap) =>
    set { swap with bitmap }
    return slot

def release (swap : SwapTable) (slot : SwapSlot) : Except Bug SwapTable :=
  match swap.bitmap.clear slot with
  | some bitmap => .ok { swap with bitmap }
  | none => .error (.slotFreedTwice slot)

/-- Writes one page to `slot`. -/
def writePage (slot : SwapSlot) (page : Bytes) : Action SwapTable StoreError Unit := do
  if page.length ≠ pageSize then Action.bug .transferLength
  let swap ← get
  let (disk, result) := swap.disk.writeRun (firstSector slot) (sectorsOf page)
  set { swap with disk }
  Action.ofResult result

/-- Reads the page in `slot` into `frame` and keeps the slot. What was read before a failure
is in the frame. -/
def readPage (swap : SwapTable) (slot : SwapSlot) (frame : Bytes) :
    Except Bug (Bytes × Except StoreError Unit) :=
  if frame.length ≠ pageSize then .error .transferLength
  else
    let (bytes, result) := swap.disk.readRun (firstSector slot) sectorsPerPage
    .ok (frame.overlay 0 bytes, result)

/-- Moves a page out to a fresh slot, which is free again if the write fails. -/
def swapOut (page : Bytes) : Action SwapTable PagerError SwapSlot := do
  let slot ← allocate
  match ← (writePage slot page).attempt with
  | .error e =>
    set (← (← get).release slot)
    throw (.store e)
  | .ok () => return slot

/-- Reads a page back from `slot` and releases the slot, which stays claimed if the read fails.
Yields the frame in both cases. -/
def swapIn {ε : Type} (slot : SwapSlot) (frame : Bytes) :
    Action SwapTable ε (Bytes × Except PagerError Unit) := do
  let swap ← get
  match ← swap.readPage slot frame with
  | (bytes, .error e) => return (bytes, .error (.store e))
  | (bytes, .ok ()) =>
    set (← swap.release slot)
    return (bytes, .ok ())

theorem release_eq_ok {swap next : SwapTable} {slot : SwapSlot} : swap.release slot = .ok next ↔
    ∃ bitmap, swap.bitmap.clear slot = some bitmap ∧ next = ⟨swap.disk, bitmap⟩ := by
  unfold release
  cases swap.bitmap.clear slot <;> simp [eq_comm]

end SwapTable
end Pager
