import Pager.Action
import Pager.Bytes
import Pager.Error

/-!
Files of a fixed length, with counters and switches that make the transfers at
chosen offsets fail or come back short. Callers reach a file through handles. A
handle is open for as long as something refers to it, so the store only sees to
it that no two handles are the same. It keeps account of what its files were asked
to take, and through which handle.
-/
namespace Pager

structure File where
  data : Bytes
  reads : Nat := 0
  writes : Nat := 0
  /-- The offsets at which reads fail. -/
  failReads : Nat → Bool := fun _ => false
  /-- The offsets at which writes fail. -/
  failWrites : Nat → Bool := fun _ => false
  failReopen : Bool := false
  /-- The most bytes that a read at an offset hands over. -/
  maxRead : Nat → Option Nat := fun _ => none
  /-- The most bytes that a write at an offset takes. -/
  maxWrite : Nat → Option Nat := fun _ => none

namespace File

def size (file : File) : Nat := file.data.length

def isEmpty (file : File) : Bool := file.size == 0

/-- A transfer of `count` bytes under a limit. -/
def capped (count : Nat) : Option Nat → Nat
  | none => count
  | some most => min count most

/-- Reads up to `count` bytes from `offset` on; the end of the file cuts the read short. -/
def readAt (file : File) (count offset : Nat) : File × Except StoreError Bytes :=
  if file.failReads offset then (file, .error .device)
  else ({ file with reads := file.reads + 1 },
    .ok (file.data.slice offset (capped count (file.maxRead offset))))

/-- Writes as much of `bytes` as fits before the end of the file, and says how much that was.
The attempt counts even if it fails. -/
def writeAt (file : File) (bytes : Bytes) (offset : Nat) : File × Except StoreError Nat :=
  let counted := { file with writes := file.writes + 1 }
  if file.failWrites offset then (counted, .error .device)
  else
    let taken := min (capped bytes.length (file.maxWrite offset)) (file.size - offset)
    ({ counted with data := file.data.overlay offset (bytes.take taken) }, .ok taken)

@[simp] theorem size_readAt (file : File) (count offset : Nat) :
    (file.readAt count offset).1.size = file.size := by
  unfold readAt
  split <;> rfl

@[simp] theorem data_readAt (file : File) (count offset : Nat) :
    (file.readAt count offset).1.data = file.data := by
  unfold readAt
  split <;> rfl

/-- Writing never changes the length of a file. -/
@[simp] theorem size_writeAt (file : File) (bytes : Bytes) (offset : Nat) :
    (file.writeAt bytes offset).1.size = file.size := by
  unfold writeAt
  dsimp only
  split
  · rfl
  · simp [size]

end File

/-- Switches to be thrown on a file; those that are absent stay as they are. -/
structure FileSwitches where
  failReads : Option (Nat → Bool) := none
  failWrites : Option (Nat → Bool) := none
  failReopen : Option Bool := none
  maxRead : Option (Nat → Option Nat) := none
  maxWrite : Option (Nat → Option Nat) := none

def File.switch (file : File) (switches : FileSwitches) : File :=
  { file with
    failReads := switches.failReads.getD file.failReads
    failWrites := switches.failWrites.getD file.failWrites
    failReopen := switches.failReopen.getD file.failReopen
    maxRead := switches.maxRead.getD file.maxRead
    maxWrite := switches.maxWrite.getD file.maxWrite }

/-- A way into a file: its number, and a serial that tells its handles apart. -/
structure Handle where
  file : Nat
  serial : Nat
deriving DecidableEq, Repr

/-- What a file was asked to take, and how much of it was taken. -/
structure WriteCall where
  handle : Handle
  offset : Nat
  bytes : Bytes
  outcome : Except StoreError Nat

structure FileStore where
  files : List File
  nextSerial : Nat := 1
  /-- Handles that callers hold. -/
  held : List Handle
  /-- The writes that were asked for, the latest first. -/
  calls : List WriteCall := []

namespace FileStore

/-- The handle a file comes with. -/
def firstHandle (file : Nat) : Handle := ⟨file, 0⟩

def ofContents (contents : List Bytes) : FileStore where
  files := contents.map fun data => { data }
  held := (List.range contents.length).map firstHandle

def file? (store : FileStore) (handle : Handle) : Option File := store.files[handle.file]?

def size (store : FileStore) (handle : Handle) : Nat := ((store.file? handle).map File.size).getD 0

def isEmpty (store : FileStore) (handle : Handle) : Bool := store.size handle == 0

def update (store : FileStore) (file : Nat) (f : File → File) : FileStore :=
  { store with files := store.files.modify file f }

/-- Opens a new handle to the file of `handle`. -/
def reopen (handle : Handle) : Action FileStore StoreError Handle := do
  let store ← get
  match store.file? handle with
  | none => throw .device
  | some file =>
    if file.failReopen then throw .device
    set { store with nextSerial := store.nextSerial + 1 }
    return ⟨handle.file, store.nextSerial⟩

def readAt (handle : Handle) (count offset : Nat) : Action FileStore StoreError Bytes := do
  let store ← get
  match store.file? handle with
  | none => throw .device
  | some file =>
    let (after, result) := file.readAt count offset
    set (store.update handle.file fun _ => after)
    Action.ofResult result

def writeAt (handle : Handle) (bytes : Bytes) (offset : Nat) : Action FileStore StoreError Nat := do
  let store ← get
  match store.file? handle with
  | none => throw .device
  | some file =>
    let (after, result) := file.writeAt bytes offset
    set { store.update handle.file fun _ => after with
      calls := ⟨handle, offset, bytes, result⟩ :: store.calls }
    Action.ofResult result

/-- Opens a handle that a caller holds. -/
def hold (handle : Handle) : Action FileStore StoreError Handle := do
  let opened ← reopen handle
  modify fun store => { store with held := opened :: store.held }
  return opened

/-- A caller gives up a handle. -/
def drop (store : FileStore) (handle : Handle) : FileStore :=
  { store with held := store.held.erase handle }

end FileStore
end Pager
