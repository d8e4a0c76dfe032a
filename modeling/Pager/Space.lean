import Pager.Directory.Basic
import Pager.Page.PageTable

/-!
One process's view of memory: the pages registered in it, the directory that
says which of them are present, and its memory mappings.
-/
namespace Pager

/-- A run of pages that `mmap` registered together, and the handle that was opened for it. -/
structure Mapping where
  id : MappingId
  pages : Nat
  file : Handle

structure Space where
  pages : PageTable := .empty
  directory : Directory .emulated := .empty
  /-- Mappings under their start addresses. -/
  mappings : Table Mapping := .empty
  /-- The user's stack pointer, saved on entry to the kernel. -/
  stackPointer : Option VirtualAddress := none
  nextMapping : MappingId := 1
  /-- What the directory answers to a new entry, if it refuses. -/
  refusesEntries : Option PagerError := none
  /-- Somebody else is working on the space. -/
  busy : Bool := false

/-- What can be asked about a registered page. -/
structure PageSummary where
  address : VirtualAddress
  type : PageType
  writable : Bool
  initialized : Bool
  resident : Bool
  stack : Bool
  slot : Option SwapSlot
  mapping : Option MappingId
deriving DecidableEq, Repr

def Page.info (page : Page) : PageSummary where
  address := page.address
  type := page.type
  writable := page.writable
  initialized := page.isInitialized
  resident := page.frame.isSome
  stack := page.stack
  slot := page.slot
  mapping := page.mapping

namespace Space

def lookup (space : Space) (a : VirtualAddress) : Option PageSummary :=
  (space.pages.get? a).map Page.info

def detail (id : SpaceId) : String := s!"AddressSpace \x7b id: SpaceId({id}), .. \x7d"

end Space

/-- Refuses what a user page can never lie at: the whole null page, and the kernel's half. -/
def requireUser (a : VirtualAddress) : Except PagerError Unit :=
  if a.pageBase.isNull then .error .nullAddress
  else if a.isKernel then .error .kernelAddress
  else .ok ()

/-- Refuses a range that starts where no user page can lie or reaches into the kernel's half. -/
def requireUserRange (start : VirtualAddress) (length : Nat) : Except PagerError Unit := do
  requireUser start
  if start.value + length ≤ kernelBase then return () else throw .kernelAddress

end Pager
