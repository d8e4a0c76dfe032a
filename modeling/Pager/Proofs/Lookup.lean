import Pager.Machine.Basic
import Mathlib.Logic.Function.Basic

/-!
Spaces seen through look-ups. A place is a page number in a space; `pageAt` and
`entryAt` say what is registered there and what its directory holds. A change of
one space at one page is then the change of a function at one place, whatever
the tables look like inside.
-/
namespace Pager

namespace Table

variable {α : Type}

@[simp] theorem get?_insert_self (t : Table α) (key : Nat) (v : α) :
    (t.insert key v).get? key = some v := by
  simp [get?_insert]

@[simp] theorem insert_insert (t : Table α) (key : Nat) (v w : α) :
    (t.insert key v).insert key w = t.insert key w := by
  refine ext_get? fun other => ?_
  simp only [get?_insert]
  split <;> rfl

@[simp] theorem erase_insert (t : Table α) (key : Nat) (v : α) :
    (t.insert key v).erase key = t.erase key := by
  refine ext_get? fun other => ?_
  simp only [get?_insert, get?_erase]
  split <;> rfl

@[simp] theorem modify_insert (t : Table α) (key : Nat) (v : α) (f : α → α) :
    (t.insert key v).modify key f = t.insert key (f v) := by
  refine ext_get? fun other => ?_
  simp only [get?_insert, get?_modify]
  split <;> rfl

theorem modify_eq_insert {t : Table α} {key : Nat} {v : α} (h : t.get? key = some v)
    (f : α → α) : t.modify key f = t.insert key (f v) := by
  refine ext_get? fun other => ?_
  simp only [get?_insert, get?_modify]
  split
  · rename_i e
    rw [e, h]
    rfl
  · rfl

theorem modify_of_none {t : Table α} {key : Nat} (h : t.get? key = none) (f : α → α) :
    t.modify key f = t := by
  refine ext_get? fun other => ?_
  rw [get?_modify]
  split
  · rename_i e
    rw [e, h]
    rfl
  · rfl

theorem insert_of_get? {t : Table α} {key : Nat} {v : α} (h : t.get? key = some v) :
    t.insert key v = t := by
  refine ext_get? fun other => ?_
  rw [get?_insert]
  split
  · rename_i e
    rw [e, h]
  · rfl

end Table

namespace PageTable

theorem get?_of_isPageAligned {t : PageTable} {a : VirtualAddress}
    (h : a.isPageAligned = true) : t.get? a = t.pages.get? a.value := by
  rw [get?, Address.pageBase_of_isPageAligned h]

/-- Putting a page back where one is registered. -/
theorem put_eq {t : PageTable} {page old : Page}
    (h : t.pages.get? page.address.value = some old) :
    t.put page = ⟨t.pages.insert page.address.value page⟩ := by
  rw [put, Table.modify_eq_insert h]

theorem put_insert {t : Table Page} {key : Nat} {page : Page} (h : page.address.value = key)
    (old : Page) : put ⟨t.insert key old⟩ page = ⟨t.insert key page⟩ := by
  subst h
  rw [put_eq (t := ⟨t.insert page.address.value old⟩) (Table.get?_insert_self t _ old),
    Table.insert_insert]

end PageTable

/-- A page number in a space: where a page may be registered. -/
@[ext]
structure Place where
  space : SpaceId
  key : Nat
deriving DecidableEq

namespace Place

def address (pl : Place) : VirtualAddress := ⟨pl.key⟩

def owner (pl : Place) : Owner := ⟨pl.space, pl.address⟩

@[simp] theorem value_address (pl : Place) : pl.address.value = pl.key := rfl

@[simp] theorem space_owner (pl : Place) : pl.owner.space = pl.space := rfl

@[simp] theorem page_owner (pl : Place) : pl.owner.page = pl.address := rfl

theorem eq_of_owner {pl other : Place} (h : pl.owner = other.owner) : pl = other :=
  Place.ext (congrArg Owner.space h) (congrArg (·.page.value) h)

end Place

/-- The page registered at a place. -/
def pageAt (spaces : Table Space) (pl : Place) : Option Page :=
  (spaces.get? pl.space).bind fun sp => sp.pages.pages.get? pl.key

/-- The directory entry of a place. -/
def entryAt (spaces : Table Space) (pl : Place) : Option (PageEntry .emulated) :=
  (spaces.get? pl.space).bind fun sp => sp.directory.entries.get? pl.key

section Lookups

variable {spaces : Table Space} {id : SpaceId} {sp u : Space}

theorem pageAt_of_get? (h : spaces.get? id = some sp) (key : Nat) :
    pageAt spaces ⟨id, key⟩ = sp.pages.pages.get? key := by
  simp [pageAt, h]

theorem entryAt_of_get? (h : spaces.get? id = some sp) (key : Nat) :
    entryAt spaces ⟨id, key⟩ = sp.directory.entries.get? key := by
  simp [entryAt, h]

theorem exists_space_of_pageAt {pl : Place} {p : Page} (h : pageAt spaces pl = some p) :
    ∃ sp, spaces.get? pl.space = some sp ∧ sp.pages.pages.get? pl.key = some p :=
  Option.bind_eq_some_iff.1 h

/-- A space that changes at most one of its pages. -/
theorem pageAt_insert (h : spaces.get? id = some sp) {k : Nat} {page : Option Page}
    (hk : ∀ other, u.pages.pages.get? other =
      if other = k then page else sp.pages.pages.get? other) :
    pageAt (spaces.insert id u) = Function.update (pageAt spaces) ⟨id, k⟩ page := by
  funext ⟨space, other⟩
  by_cases hs : space = id
  · subst hs
    simp only [pageAt, Table.get?_insert_self, Option.bind_some, hk, Function.update_apply,
      Place.mk.injEq, true_and, h]
  · simp [pageAt, Table.get?_insert, hs]

theorem pageAt_insert_of_eq (h : spaces.get? id = some sp) (hp : u.pages = sp.pages) :
    pageAt (spaces.insert id u) = pageAt spaces := by
  funext ⟨space, other⟩
  by_cases hs : space = id
  · subst hs
    simp [pageAt, hp, h]
  · simp [pageAt, Table.get?_insert, hs]

theorem entryAt_insert (h : spaces.get? id = some sp) {k : Nat}
    {e : Option (PageEntry .emulated)}
    (hk : ∀ other, u.directory.entries.get? other =
      if other = k then e else sp.directory.entries.get? other) :
    entryAt (spaces.insert id u) = Function.update (entryAt spaces) ⟨id, k⟩ e := by
  funext ⟨space, other⟩
  by_cases hs : space = id
  · subst hs
    simp only [entryAt, Table.get?_insert_self, Option.bind_some, hk, Function.update_apply,
      Place.mk.injEq, true_and, h]
  · simp [entryAt, Table.get?_insert, hs]

theorem entryAt_insert_of_eq (h : spaces.get? id = some sp)
    (hd : u.directory = sp.directory) :
    entryAt (spaces.insert id u) = entryAt spaces := by
  funext ⟨space, other⟩
  by_cases hs : space = id
  · subst hs
    simp [entryAt, hd, h]
  · simp [entryAt, Table.get?_insert, hs]

/-- A space that leaves the entry of a page as it is. -/
theorem entryAt_insert_of_same (h : spaces.get? id = some sp) {pl : Place}
    (hd : pl.space = id → u.directory.entries.get? pl.key = sp.directory.entries.get? pl.key) :
    entryAt (spaces.insert id u) pl = entryAt spaces pl := by
  unfold entryAt
  rw [Table.get?_insert]
  by_cases hs : pl.space = id
  · rw [if_pos hs, hs, h, Option.bind_some, Option.bind_some, hd hs]
  · rw [if_neg hs]

/-- A new space is empty. -/
theorem pageAt_insert_new (h : spaces.get? id = none) :
    pageAt (spaces.insert id {}) = pageAt spaces := by
  funext ⟨space, other⟩
  by_cases hs : space = id
  · subst hs
    simp only [pageAt, Table.get?_insert_self, h]
    rfl
  · simp [pageAt, Table.get?_insert, hs]

theorem entryAt_insert_new (h : spaces.get? id = none) :
    entryAt (spaces.insert id {}) = entryAt spaces := by
  funext ⟨space, other⟩
  by_cases hs : space = id
  · subst hs
    simp only [entryAt, Table.get?_insert_self, h]
    rfl
  · simp [entryAt, Table.get?_insert, hs]

theorem pageAt_erase_empty (h : spaces.get? id = some sp)
    (hempty : ∀ key, sp.pages.pages.get? key = none) :
    pageAt (spaces.erase id) = pageAt spaces := by
  funext ⟨space, other⟩
  by_cases hs : space = id
  · subst hs
    simp [pageAt, Table.get?_erase, h, hempty]
  · simp [pageAt, Table.get?_erase, hs]

theorem entryAt_erase_empty (h : spaces.get? id = some sp)
    (hempty : ∀ key, sp.directory.entries.get? key = none) :
    entryAt (spaces.erase id) = entryAt spaces := by
  funext ⟨space, other⟩
  by_cases hs : space = id
  · subst hs
    simp [entryAt, Table.get?_erase, h, hempty]
  · simp [entryAt, Table.get?_erase, hs]

end Lookups

namespace Machine

def pageAt (s : Machine) : Place → Option Page := Pager.pageAt s.spaces

def entryAt (s : Machine) : Place → Option (PageEntry .emulated) := Pager.entryAt s.spaces

end Machine
end Pager
