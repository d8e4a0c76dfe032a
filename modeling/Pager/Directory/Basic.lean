import Pager.Directory.Entry
import Pager.Table

/-!
The page directory of one space: an entry for each present page, under the
page's address. A page without an entry reads as not present, and changing its
bits does nothing.
-/
namespace Pager

structure Directory (format : EntryFormat) where
  entries : Table (PageEntry format) := .empty

namespace Directory

variable {format : EntryFormat}

def empty : Directory format := {}

instance : Inhabited (Directory format) := ⟨empty⟩

def size (d : Directory format) : Nat := d.entries.size

def isEmpty (d : Directory format) : Bool := d.size == 0

def get? (d : Directory format) (page : VirtualAddress) : Option (PageEntry format) :=
  d.entries.get? page.value

def flags (d : Directory format) (page : VirtualAddress) : PageFlags :=
  ((d.get? page).map PageEntry.flags).getD .empty

/-- The flags of a fresh entry: present, open to the user, untouched. -/
def freshFlags (writable : Bool) : PageFlags :=
  ((PageFlags.empty.set .present true).set .user true).set .writable writable

/-- Enters `frame` for `page`, in place of any old entry. -/
def map (d : Directory format) (page : VirtualAddress) (frame : format.Frame) (writable : Bool) :
    Except Bug (Directory format) := do
  if !page.isPageAligned then throw .virtualMisaligned
  let entry ← PageEntry.make frame (freshFlags writable)
  return ⟨d.entries.insert page.value entry⟩

def unmap (d : Directory format) (page : VirtualAddress) : Directory format :=
  ⟨d.entries.erase page.value⟩

/-- The frame that the processor finds for `page`. -/
def frameAt? (d : Directory format) (page : VirtualAddress) : Option format.Frame :=
  (d.get? page).bind PageEntry.frame?

def isPresent (d : Directory format) (page : VirtualAddress) : Bool := (d.frameAt? page).isSome

def has (d : Directory format) (page : VirtualAddress) (flag : PageFlag) : Bool :=
  (d.flags page).has flag

def set (d : Directory format) (page : VirtualAddress) (flag : PageFlag) (on : Bool) :
    Directory format :=
  ⟨d.entries.modify page.value fun entry => entry.setFlags (entry.flags.set flag on)⟩

theorem get?_unmap (d : Directory format) (page other : VirtualAddress) :
    (d.unmap page).get? other = if other = page then none else d.get? other := by
  obtain ⟨p⟩ := page
  obtain ⟨o⟩ := other
  simp [get?, unmap, Table.get?_erase]

theorem get?_set (d : Directory format) (page : VirtualAddress) (flag : PageFlag) (on : Bool)
    (other : VirtualAddress) :
    (d.set page flag on).get? other =
      if other = page then
        (d.get? other).map fun entry => entry.setFlags (entry.flags.set flag on)
      else d.get? other := by
  obtain ⟨p⟩ := page
  obtain ⟨o⟩ := other
  simp [get?, set, Table.get?_modify]

end Directory
end Pager
