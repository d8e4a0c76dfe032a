import Pager.Address
import Pager.Bytes
import Pager.Error
import Pager.Storage.File

/-!
Page descriptors. A descriptor says what belongs at one virtual page. It starts
out uninitialized, with the initializer that will fill the page's first frame,
and becomes anonymous or file-backed once, when that initializer has succeeded.
-/
namespace Pager

inductive PageType where
  /-- Memory that is parked on the swap disk. -/
  | anonymous
  /-- Memory that is a slice of a file. -/
  | fileBacked
deriving DecidableEq, Repr

def PageType.name : PageType → String
  | .anonymous => "Anonymous"
  | .fileBacked => "FileBacked"

/-- What an initializer is told: which bytes of which file belong on the page. -/
structure LoadSlice where
  file : Option Handle := none
  offset : Nat := 0
  readBytes : Nat := 0
  zeroBytes : Nat := 0

def LoadSlice.text (slice : LoadSlice) : String :=
  s!"LoadAux \x7b file: {slice.file.isSome}, offset: {slice.offset}, " ++
    s!"read_bytes: {slice.readBytes}, zero_bytes: {slice.zeroBytes} \x7d"

/-- Fills a frame the first time its page is touched. The frame holds stale bytes before. -/
inductive Initializer where
  | zeros
  /-- Reads the slice from its file and clears the rest of the frame. -/
  | fileSlice
  /-- Gives each byte by its position, or fails and leaves the frame alone. -/
  | computed (fill : LoadSlice → Bytes → Except PagerError (Nat → UInt8))

/-- A run of an initializer: what it was told, and what came of it. -/
structure Initialization where
  init : Initializer
  slice : LoadSlice
  outcome : Except PagerError Unit

/-- A page that has never been populated. -/
structure Unpopulated where
  target : PageType
  /-- The initializer asked for; without one the target's own is used. -/
  init : Option Initializer
  slice : LoadSlice
  mapping : Option MappingId := none

def Unpopulated.initializer (page : Unpopulated) : Initializer :=
  match page.init, page.target with
  | some init, _ => init
  | none, .anonymous => .zeros
  | none, .fileBacked => .fileSlice

/-- A populated page whose bytes come from a file and go back to it. -/
structure FileBacking where
  file : Handle
  offset : Nat
  readBytes : Nat
  mapping : Option MappingId

inductive PageKind where
  | unpopulated (page : Unpopulated)
  /-- The slot holds the contents while the page is evicted. -/
  | anonymous (slot : Option SwapSlot)
  | fileBacked (page : FileBacking)

/-- What a page turns into when its initializer has succeeded. -/
def Unpopulated.populated (page : Unpopulated) : Except PagerError PageKind :=
  match page.target, page.slice.file with
  | .anonymous, _ => .ok (.anonymous none)
  | .fileBacked, none => .error .noBackingFile
  | .fileBacked, some file => .ok (.fileBacked {
      file
      offset := page.slice.offset
      readBytes := page.slice.readBytes
      mapping := page.mapping })

structure Page where
  address : VirtualAddress
  writable : Bool
  /-- The page was created by stack growth. -/
  stack : Bool := false
  frame : Option FrameId := none
  kind : PageKind

namespace Page

/-- An unpopulated page, at the page that holds `address`. -/
def fresh (address : VirtualAddress) (writable : Bool) (target : PageType)
    (init : Option Initializer) (slice : LoadSlice) : Page where
  address := address.pageBase
  writable := writable
  kind := .unpopulated { target, init, slice }

/-- An unpopulated page of a memory mapping. -/
def mapped (address : VirtualAddress) (writable : Bool) (slice : LoadSlice) (mapping : MappingId) :
    Page where
  address := address.pageBase
  writable := writable
  kind := .unpopulated {
    target := .fileBacked
    init := some .fileSlice
    slice
    mapping := some mapping }

/-- A page that the stack grows by. -/
def ofStack (address : VirtualAddress) : Page :=
  { fresh address true .anonymous none {} with stack := true }

def isInitialized (page : Page) : Bool :=
  match page.kind with
  | .unpopulated _ => false
  | _ => true

/-- The type the page has, or will have once populated. -/
def type (page : Page) : PageType :=
  match page.kind with
  | .unpopulated u => u.target
  | .anonymous _ => .anonymous
  | .fileBacked _ => .fileBacked

def mapping (page : Page) : Option MappingId :=
  match page.kind with
  | .unpopulated u => u.mapping
  | .anonymous _ => none
  | .fileBacked f => f.mapping

def slot (page : Page) : Option SwapSlot :=
  match page.kind with
  | .anonymous slot => slot
  | _ => none

/-- The file handle the page refers to. -/
def handle (page : Page) : Option Handle :=
  match page.kind with
  | .unpopulated u => u.slice.file
  | .anonymous _ => none
  | .fileBacked f => some f.file

/-- A copy of a page that was never populated, for another space. -/
def copyUnpopulated (page : Page) : Option Page :=
  match page.kind with
  | .unpopulated _ => some { page with frame := none }
  | _ => none

/-- A populated anonymous page with the attributes of `page`, ready to receive its contents. -/
def blankCopy (page : Page) : Page := { page with frame := none, kind := .anonymous none }

def text (page : Page) : String :=
  let frame := match page.frame with
    | none => "None"
    | some id => s!"Some({id.text})"
  s!"Page \x7b address: {page.address.detail}, type: {page.type.name}, " ++
    s!"initialized: {page.isInitialized}, writable: {page.writable}, frame: {frame} \x7d"

end Page
end Pager
