import Pager.Page.Basic
import Pager.Table

/-!
The record of every page that is registered in one space, resident or not. Each
operation takes any address inside a page and rounds it down first, so a
misaligned address acts like the start of its page.
-/
namespace Pager

structure PageTable where
  pages : Table Page := .empty

namespace PageTable

def empty : PageTable := {}

def size (t : PageTable) : Nat := t.pages.size

def get? (t : PageTable) (a : VirtualAddress) : Option Page := t.pages.get? a.pageBase.value

def contains (t : PageTable) (a : VirtualAddress) : Bool := t.pages.contains a.pageBase.value

/-- Adds `page` under its own address. -/
def insert (t : PageTable) (page : Page) : Except PagerError PageTable :=
  if t.pages.contains page.address.value then .error .alreadyMapped
  else .ok ⟨t.pages.insert page.address.value page⟩

def insertAll (t : PageTable) (pages : List Page) : Except PagerError PageTable :=
  pages.foldlM insert t

/-- Puts `page` back in place of the one at its address. -/
def put (t : PageTable) (page : Page) : PageTable :=
  ⟨t.pages.modify page.address.value fun _ => page⟩

def erase (t : PageTable) (a : VirtualAddress) : PageTable := ⟨t.pages.erase a.pageBase.value⟩

/-- The addresses of the registered pages, ascending. -/
def addresses (t : PageTable) : List VirtualAddress := t.pages.keys.map fun key => ⟨key⟩

/-- Is a page registered among the `count` pages from the one at `start` on? Only the first
address from there on is looked at. -/
def overlaps (t : PageTable) (start : VirtualAddress) (count : Nat) : Except Bug Bool := do
  let first := start.pageBase.value
  let stop ← wordAdd first (← wordMul count pageSize)
  return match t.pages.firstFrom first with
    | none => false
    | some key => key < stop

theorem get?_pageBase (t : PageTable) (a : VirtualAddress) : t.get? a.pageBase = t.get? a := by
  simp [get?]

theorem insert_eq_ok {t next : PageTable} {page : Page} (h : t.insert page = .ok next) :
    t.pages.contains page.address.value = false ∧
      next = ⟨t.pages.insert page.address.value page⟩ := by
  unfold insert at h
  split at h
  · simp at h
  · cases h
    simp_all

theorem get?_insert {t next : PageTable} {page : Page} (h : t.insert page = .ok next)
    (a : VirtualAddress) :
    next.get? a = if a.pageBase = page.address then some page else t.get? a := by
  obtain ⟨-, rfl⟩ := insert_eq_ok h
  by_cases h : a.pageBase = page.address
  · simp [get?, Table.get?_insert, h]
  · have hv : a.pageBase.value ≠ page.address.value := fun e => h (Address.ext e)
    simp [get?, Table.get?_insert, h, hv]

theorem get?_erase (t : PageTable) (a other : VirtualAddress) :
    (t.erase a).get? other = if other.pageBase = a.pageBase then none else t.get? other := by
  by_cases h : other.pageBase = a.pageBase
  · simp [get?, erase, Table.get?_erase, h]
  · have hv : other.pageBase.value ≠ a.pageBase.value := fun e => h (Address.ext e)
    simp [get?, erase, Table.get?_erase, h, hv]

end PageTable
end Pager
