import Pager.Machine.Claim

/-!
Runs of pages that are filled from one stretch of a file. The first `readBytes`
bytes of the run come from the file and the rest is zero, so page `k` reads what
the stretch has left after `k` whole pages, at most a page of it.
-/
namespace Pager

/-- The slice of the stretch that belongs on page `k` of the run. -/
def LoadSlice.ofRun (file : Handle) (offset readBytes k : Nat) : Except Bug LoadSlice := do
  let count := min (readBytes - k * pageSize) pageSize
  return {
    file := some file
    offset := ← wordAdd offset (k * pageSize)
    readBytes := count
    zeroBytes := pageSize - count }

/-- The pages of a run of `count` pages from `start` on, as `make` builds them. -/
def pageRun (start : VirtualAddress) (file : Handle) (offset readBytes count : Nat)
    (make : VirtualAddress → LoadSlice → Page) : Except Bug (List Page) :=
  (List.range count).mapM fun k => do
    let slice ← LoadSlice.ofRun file offset readBytes k
    return make (← start.add (k * pageSize)) slice

namespace Machine

/-- Registers the pages of an executable segment: `readBytes` bytes of the file and then
`zeroBytes` zeros. Once loaded the pages are ordinary anonymous memory. -/
def registerSegment (id : SpaceId) (file : Handle) (offset : Nat) (start : VirtualAddress)
    (readBytes zeroBytes : Nat) (writable : Bool) : Act Unit := do
  if !start.isPageAligned ∨ offset % pageSize ≠ 0 then throw .misaligned
  let total := readBytes + zeroBytes
  if 1 <<< 64 ≤ total ∨ total = 0 ∨ total % pageSize ≠ 0 then throw .invalidLength
  Action.ofResult (requireUserRange start total)
  if 1 <<< 64 ≤ offset + total then throw .invalidLength
  let count := total / pageSize
  if ← (← space id).pages.overlaps start count then throw .alreadyMapped
  insertPages id (← pageRun start file offset readBytes count fun a slice =>
    .fresh a writable .anonymous (some .fileSlice) slice)

end Machine
end Pager
