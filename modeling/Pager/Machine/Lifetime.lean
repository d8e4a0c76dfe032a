import Pager.Machine.Mapping

/-!
The life of a space: created empty, or as a copy of another one, and torn down
with everything it holds. A copy that fails half-way is torn down as well.
-/
namespace Pager.Machine

def createSpace : Act SpaceId := do
  let s ← get
  let id := s.nextSpace
  set { s with nextSpace := id + 1, spaces := s.spaces.insert id {} }
  report (.spaceCreated id)
  return id

/-- Unmaps everything that is mapped in the space; a failure is reported and passed over. -/
def unmapAll (id : SpaceId) : List VirtualAddress → Act Unit
  | [] => return ()
  | start :: rest => do
    match ← (munmap id start).attempt with
    | .ok () => pure ()
    | .error e => report (.teardownWritebackFailed id start e)
    unmapAll id rest

def removeAll (id : SpaceId) : List VirtualAddress → Act Unit
  | [] => return ()
  | a :: rest => do
    remove id a
    removeAll id rest

/-- Releases every mapping, page, frame and swap slot of the space, and the space itself. -/
def teardown (id : SpaceId) : Act Unit := do
  unmapAll id ((← space id).mappings.keys.map fun key => ⟨key⟩)
  let pages := (← space id).pages
  removeAll id pages.addresses
  report (.tornDown id pages.size)
  modify fun s => { s with spaces := s.spaces.erase id }

/-- Fills the frame at `target` with what the parent's page at `a` holds now. -/
def copyContents (parent : SpaceId) (a : VirtualAddress) (target : PhysicalAddress) : Act Unit := do
  let source ← page parent a
  match source.frame, source.slot with
  | some frame, _ => writeFrame target 0 (← readFrame (← addressOfFrame frame))
  | none, some slot =>
    let s ← get
    let (bytes, result) ← s.swap.readPage slot (← readFrame target)
    writeFrame target 0 bytes
    Action.ofResult (result.mapError .store)
  | none, none => writeFrame target 0 (.zeros pageSize)

/-- Gives the child's page at `a` a frame that holds what the parent's page holds. -/
def inherit (parent child : SpaceId) (a : VirtualAddress) : Act Unit := do
  let frame ← obtainFrame
  let address ← addressOfFrame frame
  settle child a frame (copyContents parent a address)
  bindFrame frame child a

/-- Copies the parent's page at `a`, unless it is file-backed or will be. -/
def duplicatePage (parent child : SpaceId) (a : VirtualAddress) : Act Unit := do
  match (← space parent).pages.get? a with
  | none => return ()
  | some page =>
    if page.type = .fileBacked then return ()
    match page.copyUnpopulated with
    | some copy => insertPages child [copy]
    | none =>
      insertPages child [page.blankCopy]
      inherit parent child a

def duplicatePages (parent child : SpaceId) : List VirtualAddress → Act Unit
  | [] => return ()
  | a :: rest => do
    duplicatePage parent child a
    duplicatePages parent child rest

/-- Builds a child with copies of the parent's anonymous pages. Mappings and other file-backed
pages are not inherited. While it is built the child's directory may refuse new entries. -/
def duplicate (parent : SpaceId) (refuses : Option PagerError) : Act SpaceId := do
  let stackPointer := (← space parent).stackPointer
  let child ← createSpace
  modifySpace child fun space => { space with stackPointer, refusesEntries := refuses }
  match ← (duplicatePages parent child (← space parent).pages.addresses).attempt with
  | .error e =>
    teardown child
    throw e
  | .ok () =>
    report (.duplicated parent child (← space child).pages.size)
    modifySpace child fun space => { space with refusesEntries := none }
    return child

end Pager.Machine
