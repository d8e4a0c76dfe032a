import Pager.Machine.Basic

/-!
What can be seen of a machine from outside without changing it: of each page its
description, its directory entry and its contents, wherever those are kept.
-/
namespace Pager

structure PageView where
  info : PageSummary
  entry : Option (PageEntry .emulated)
  /-- The bytes of the page's frame, else those of its swap slot. -/
  contents : Option (Except StoreError Bytes)

namespace Machine

/-- What the page holds, if it has a frame or a slot. -/
def contents? (s : Machine) (page : Page) : Except Bug (Option (Except StoreError Bytes)) :=
  match page.frame, page.slot with
  | some frame, _ => do
    let bytes ← s.pool.read (← s.frames.get frame).address
    return some (.ok bytes)
  | none, some slot => do
    let (bytes, result) ← s.swap.readPage slot (.zeros pageSize)
    return some (result.map fun _ => bytes)
  | none, none => return none

def viewPage (s : Machine) (space : Space) (page : Page) : Except Bug PageView := do
  return {
    info := page.info
    entry := space.directory.get? page.address
    contents := ← s.contents? page }

/-- The pages of a space, ascending. -/
def viewPages (s : Machine) (space : Space) : Except Bug (List PageView) :=
  space.pages.pages.values.mapM (s.viewPage space)

/-- The handles that something refers to: a caller, a page or a mapping. -/
def references (s : Machine) : List Handle :=
  s.files.held ++ s.spaces.values.flatMap fun space =>
    space.mappings.values.map Mapping.file ++ space.pages.pages.values.filterMap Page.handle

/-- How many handles of a file are open. -/
def openHandles (s : Machine) (file : Nat) : Nat :=
  (s.references.eraseDups.filter (·.file == file)).length

end Machine
end Pager
