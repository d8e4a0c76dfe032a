import Pager.Machine.Fault
import Pager.Machine.Lifetime
import Pager.Machine.UserCopy

/-!
Everything that can be asked of a machine from outside, as data: what processes
and the kernel ask of a space, what the processor, other users of the files and
other threads do, and the switches that make devices fail. `step` carries out
one such operation and `run` a list of them, so that the states a machine can
reach are those that `run` ends in.
-/
namespace Pager

/-- Operations on one space, at an address. -/
inductive SpaceOp where
  | teardown
  | registerAnonymous (writable : Bool)
  | register (writable : Bool) (type : PageType) (init : Option Initializer) (slice : LoadSlice)
  | registerSegment (file : Handle) (offset readBytes zeroBytes : Nat) (writable : Bool)
  | mmap (length : Nat) (writable : Bool) (file : Handle) (offset : Nat)
  | munmap
  | remove
  | claim
  | pin
  | unpin
  | lookup
  | count
  | setStackPointer
  | copyFrom (length : Nat)
  | copyTo (bytes : Bytes)
  | fault (write user notPresent : Bool) (stackPointer : Nat)
  | duplicate (refuses : Option PagerError)
  /-- The processor accesses the page. -/
  | touch (write : Bool)
  /-- From now on the space's directory refuses new entries, or takes them again. -/
  | refuseEntries (error : Option PagerError)
  /-- Another thread takes the space's lock. -/
  | lock

inductive Op where
  | createSpace
  | onSpace (id : SpaceId) (address : Nat) (op : SpaceOp)
  /-- The other thread gives the space's lock back. -/
  | unlock (id : SpaceId)
  | openFile (file : Handle)
  | closeFile (file : Handle)
  /-- Somebody else writes to the file. -/
  | writeFile (file : Handle) (offset : Nat) (bytes : Bytes)
  | switchFile (file : Handle) (switches : FileSwitches)
  | switchDisk (switches : DiskSwitches)

/-- Operations that name nothing they could work on. -/
inductive Refusal where
  | busy
  | noSpace
  | noFile
deriving DecidableEq, Repr

def Refusal.message : Refusal → String
  | .busy => "space is busy"
  | .noSpace => "no such space"
  | .noFile => "no such file"

inductive Failure where
  | pager (error : PagerError)
  | store (error : StoreError)
  | refused (reason : Refusal)
deriving DecidableEq, Repr

inductive Value where
  | unit
  | flag (on : Bool)
  | number (n : Nat)
  | space (id : SpaceId)
  | address (a : VirtualAddress)
  | bytes (bytes : Bytes)
  | page (info : Option PageSummary)
  | counts (pages mappings : Nat)
  | handle (handle : Handle)

namespace Machine

abbrev StepAct (α : Type) := Action Machine Failure α

def liftPager {α : Type} (m : Act α) : StepAct α := m.mapError .pager

def onFiles {α : Type} (m : Action FileStore StoreError α) : StepAct α :=
  (m.mapError .store).within Machine.files fun files s => { s with files }

/-- Refuses a handle that its caller does not hold. -/
def requireHeld (file : Handle) : StepAct Unit := do
  if !(← get).files.held.contains file then throw (.refused .noFile)

/-- Refuses a space that does not exist or that somebody else is working on. -/
def requireIdle (id : SpaceId) : StepAct Unit := do
  match (← get).spaces.get? id with
  | none => throw (.refused .noSpace)
  | some space => if space.busy then throw (.refused .busy)

/-- The processor accesses a page: if it is present its accessed bit is set, and for a write the
dirty bit too. -/
def touch (id : SpaceId) (a : VirtualAddress) (write : Bool) : Act Bool := do
  let page := a.pageBase
  if !(← space id).directory.isPresent page then return false
  modifyDirectory id (·.set page .accessed true)
  if write then modifyDirectory id (·.set page .dirty true)
  return true

def perform (id : SpaceId) (a : VirtualAddress) : SpaceOp → StepAct Value
  | .teardown => do
    liftPager (teardown id)
    return .unit
  | .registerAnonymous writable => do
    liftPager (registerAnonymous id a writable)
    return .unit
  | .register writable type init slice => do
    if let some file := slice.file then requireHeld file
    liftPager (register id a writable type init slice)
    return .unit
  | .registerSegment file offset readBytes zeroBytes writable => do
    requireHeld file
    liftPager (registerSegment id file offset a readBytes zeroBytes writable)
    return .unit
  | .mmap length writable file offset => do
    requireHeld file
    return .address (← liftPager (mmap id a length writable file offset))
  | .munmap => do
    liftPager (munmap id a)
    return .unit
  | .remove => do
    liftPager (remove id a)
    return .unit
  | .claim => do
    let _ ← liftPager (claim id a)
    return .unit
  | .pin => do
    liftPager (pin id a)
    return .unit
  | .unpin => do
    liftPager (unpin id a)
    return .unit
  | .lookup => return .page ((← liftPager (space id)).lookup a)
  | .count => do
    let space ← liftPager (space id)
    return .counts space.pages.size space.mappings.size
  | .setStackPointer => do
    liftPager (modifySpace id fun space => { space with stackPointer := some a })
    return .unit
  | .copyFrom length => return .bytes (← liftPager (readUser id a length))
  | .copyTo bytes => do
    liftPager (writeUser id a bytes)
    return .unit
  | .fault write user notPresent stackPointer => do
    let stackPointer ← Address.make .virtual stackPointer
    liftPager (serveFault id { address := a, write, user, notPresent, stackPointer })
    return .unit
  | .duplicate refuses => return .space (← liftPager (duplicate id refuses))
  | .touch write => return .flag (← liftPager (touch id a write))
  | .refuseEntries error => do
    liftPager (modifySpace id fun space => { space with refusesEntries := error })
    return .unit
  | .lock => do
    liftPager (modifySpace id fun space => { space with busy := true })
    return .unit

def step : Op → StepAct Value
  | .createSpace => return .space (← liftPager createSpace)
  | .onSpace id address op => do
    requireIdle id
    let a ← Address.make .virtual address
    perform id a op
  | .unlock id => do
    if !(← get).spaces.contains id then throw (.refused .noSpace)
    liftPager (modifySpace id fun space => { space with busy := false })
    return .unit
  | .openFile file => do
    requireHeld file
    return .handle (← onFiles (FileStore.hold file))
  | .closeFile file => do
    modify fun s => { s with files := s.files.drop file }
    return .unit
  | .writeFile file offset bytes => do
    requireHeld file
    return .number (← onFiles (FileStore.writeAt file bytes offset))
  | .switchFile file switches => do
    requireHeld file
    modify fun s => { s with files := s.files.update file.file (·.switch switches) }
    return .unit
  | .switchDisk switches => do
    modify fun s => { s with swap := { s.swap with disk := s.swap.disk.switch switches } }
    return .unit

/-- Carries out operations one after the other, whether they fail or not, up to the first bug. -/
def run : List Op → Machine → Except Bug (List (Except Failure Value) × Machine)
  | [], s => .ok ([], s)
  | op :: rest, s => do
    let (result, s) ← step op s
    let (results, s) ← run rest s
    return (result :: results, s)

/-- The states that operations can lead to from a fresh machine. -/
def Reachable (s : Machine) : Prop :=
  ∃ frames sectors files ops start results,
    boot frames sectors files = .ok start ∧ run ops start = .ok (results, s)

end Machine
end Pager
