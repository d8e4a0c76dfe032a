import Pager.Machine.Claim

/-!
Copies between the kernel and user memory. A range is cut at page boundaries and
copied piece by piece in ascending order, each page being claimed just before
its piece, so a copy that fails stops at a page boundary.
-/
namespace Pager

/-- The part of a range that lies on one page. -/
structure Piece where
  start : Nat
  count : Nat
deriving DecidableEq, Repr

/-- The pieces of `[start, start + length)`, ascending. -/
def pieces (start length : Nat) : List Piece :=
  if length = 0 then []
  else
    let first := start / pageSize
    let last := (start + length - 1) / pageSize
    (List.range' first (last + 1 - first)).map fun page =>
      let low := max start (page * pageSize)
      let high := min (start + length) ((page + 1) * pageSize)
      ⟨low, high - low⟩

namespace Machine

/-- Copies one piece out of its page. -/
def readPiece (id : SpaceId) (source : VirtualAddress) (count : Nat) : Act Bytes := do
  let frame ← claim id source
  let bytes ← readFrame (← addressOfFrame frame)
  if pageSize < source.pageOffset + count then Action.bug .bounds
  modifyDirectory id (·.set source.pageBase .accessed true)
  return bytes.slice source.pageOffset count

def readPieces (id : SpaceId) (source : VirtualAddress) : List Piece → Act Bytes
  | [] => return []
  | piece :: rest => do
    let address ← source.add (piece.start - source.value)
    let bytes ← readPiece id address piece.count
    return bytes ++ (← readPieces id source rest)

def readUser (id : SpaceId) (source : VirtualAddress) (length : Nat) : Act Bytes := do
  Action.ofResult (requireUserRange source length)
  readPieces id source (pieces source.value length)

/-- Stores bytes that all lie on one page. -/
def writePiece (id : SpaceId) (target : VirtualAddress) (bytes : Bytes) : Act Unit := do
  if !(← page id target).writable then throw .readOnly
  let frame ← claim id target
  let address ← addressOfFrame frame
  if pageSize < target.pageOffset + bytes.length then Action.bug .bounds
  writeFrame address target.pageOffset bytes
  modifyDirectory id fun directory =>
    (directory.set target.pageBase .accessed true).set target.pageBase .dirty true

def writePieces (id : SpaceId) (target : VirtualAddress) (bytes : Bytes) : List Piece → Act Unit
  | [] => return ()
  | piece :: rest => do
    let address ← target.add (piece.start - target.value)
    writePiece id address (bytes.take piece.count)
    writePieces id target (bytes.drop piece.count) rest

def writeUser (id : SpaceId) (target : VirtualAddress) (bytes : Bytes) : Act Unit := do
  Action.ofResult (requireUserRange target bytes.length)
  writePieces id target bytes (pieces target.value bytes.length)

end Machine
end Pager
