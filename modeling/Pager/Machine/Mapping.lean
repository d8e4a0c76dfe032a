import Pager.Machine.Segment

/-!
Memory-mapped files. A mapping opens a handle of its own, so its caller may close
the one it passed. Unmapping writes the dirty pages back and goes on when a
write fails; it reports the first failure after every page is gone.
-/
namespace Pager.Machine

/-- Maps `length` bytes of a file at `start`, rounded up to whole pages; what lies past the
end of the file reads as zero. -/
def mmap (id : SpaceId) (start : VirtualAddress) (length : Nat) (writable : Bool) (file : Handle)
    (offset : Nat) : Act VirtualAddress := do
  if start.isNull then throw .nullAddress
  if !start.isPageAligned ∨ offset % pageSize ≠ 0 then throw .misaligned
  if length = 0 ∨ (← get).files.isEmpty file then throw .invalidLength
  if (requireUserRange start length).toBool = false then throw .invalidLength
  let count := (length + pageSize - 1) / pageSize
  if 1 <<< 64 ≤ offset + count * pageSize then throw .invalidLength
  if ← (← space id).pages.overlaps start count then throw .overlap
  let opened ← Action.within Machine.files (fun files s => { s with files })
    (Action.mapError .store (FileStore.reopen file))
  let mapping := (← space id).nextMapping
  let next ← wordAdd mapping 1
  modifySpace id fun space => { space with nextMapping := next }
  let available := (← get).files.size opened - offset
  insertPages id (← pageRun start opened offset (min length available) count fun a slice =>
    .mapped a writable slice mapping)
  modifySpace id fun space =>
    { space with mappings := space.mappings.insert start.value ⟨mapping, count, opened⟩ }
  report (.mapped id length count start mapping)
  return start

/-- Writes the page at `a` back if it is resident and dirty; yields what went wrong. -/
def writeBackIfDirty (id : SpaceId) (a : VirtualAddress) (page : Page) :
    Act (Option PagerError) := do
  match page.frame, page.kind with
  | some frame, .fileBacked file =>
    if !(← space id).directory.has a .dirty then return none
    let address ← addressOfFrame frame
    match ← (transfer id a address (Transfer.writeBack file)).attempt with
    | .ok () => return none
    | .error e =>
      report (.writebackFailed a e)
      return some e
  | _, _ => return none

/-- Takes the page at `a` out of the space if it belongs to `mapping`. -/
def unmapPage (id : SpaceId) (mapping : MappingId) (a : VirtualAddress) :
    Act (Option PagerError) := do
  match (← space id).pages.get? a with
  | none => return none
  | some page =>
    if page.mapping ≠ some mapping then return none
    let failure ← writeBackIfDirty id a page
    remove id a
    return failure

/-- Unmaps the pages of `mapping`, in ascending order; yields the first failure. -/
def unmapPages (id : SpaceId) (mapping : MappingId) : List VirtualAddress → Act (Option PagerError)
  | [] => return none
  | a :: rest => do
    let failure ← unmapPage id mapping a
    let later ← unmapPages id mapping rest
    return failure <|> later

/-- Removes the mapping that starts at `start`. -/
def munmap (id : SpaceId) (start : VirtualAddress) : Act Unit := do
  match (← space id).mappings.get? start.value with
  | none => throw .notMapped
  | some mapping =>
    modifySpace id fun space => { space with mappings := space.mappings.erase start.value }
    let addresses ← (List.range mapping.pages).mapM fun k => start.add (k * pageSize)
    let failure ← unmapPages id mapping.id addresses
    report (.unmapped mapping.id start)
    if let some e := failure then throw e

end Pager.Machine
