import Pager.Proofs.Admission

/-!
Ranges of pages in a table that pages were entered in and taken out of. Whether a page of the
range is registered shows at one look, and where none is a page can be entered at each place.
-/
namespace Pager

/-- A change of a table of pages. -/
inductive PageTableOp where
  | insert (page : Page)
  | erase (a : VirtualAddress)

namespace PageTable

variable {t table : PageTable} {start a : VirtualAddress} {count : Nat} {pages news : List Page}

/-- A page that is refused changes nothing. -/
def perform (t : PageTable) : PageTableOp → PageTable
  | .insert page => (t.insert page).toOption.getD t
  | .erase a => t.erase a

/-- The table that changes lead to, from the empty one on. -/
def after (ops : List PageTableOp) : PageTable := ops.foldl perform empty

/-- Every page is registered under its own address. -/
def Keyed (t : PageTable) : Prop :=
  ∀ key page, t.pages.get? key = some page → page.address.value = key

theorem perform_insert (t : PageTable) (page : Page) :
    t.perform (.insert page) = t ∨ t.insert page = .ok (t.perform (.insert page)) := by
  cases hinsert : t.insert page with
  | error e => exact .inl (by simp [perform, hinsert, Except.toOption])
  | ok next => exact .inr (by simp [perform, hinsert, Except.toOption])

theorem Keyed.perform (h : t.Keyed) (op : PageTableOp) : (t.perform op).Keyed := by
  cases op with
  | insert page =>
    rcases perform_insert t page with hrefused | hinsert
    · rw [hrefused]
      exact h
    · obtain ⟨-, hnext⟩ := insert_eq_ok hinsert
      intro key other hkey
      rw [hnext, Table.get?_insert] at hkey
      split at hkey
      · rename_i hown
        cases hkey
        exact hown.symm
      · exact h key other hkey
  | erase a =>
    intro key page hkey
    have hkey : (t.pages.erase a.pageBase.value).get? key = some page := hkey
    rw [Table.get?_erase] at hkey
    split at hkey
    · cases hkey
    · exact h key page hkey

theorem Keyed.run (h : t.Keyed) (ops : List PageTableOp) :
    (ops.foldl PageTable.perform t).Keyed := by
  induction ops generalizing t with
  | nil => exact h
  | cons op rest ih => exact ih (h.perform op)

theorem keyed_after (ops : List PageTableOp) : (after ops).Keyed := by
  have hempty : empty.Keyed := by
    intro key page hkey
    cases hkey
  exact hempty.run ops

theorem mem_values_iff {page : Page} :
    page ∈ t.pages.values ↔ ∃ key, t.pages.get? key = some page := by
  simp only [Table.values, List.mem_map, Table.get?_eq_some_iff, Prod.exists, exists_eq_right]

/-- The registered pages of a range by their own addresses instead of their keys. -/
theorem Keyed.exists_mem_values_iff (h : t.Keyed) {P : Nat → Prop} :
    (∃ page ∈ t.pages.values, P page.address.value) ↔ ∃ key ∈ t.pages.keys, P key := by
  simp only [mem_values_iff, ← Table.contains_iff, Table.contains, Option.isSome_iff_exists]
  constructor
  · rintro ⟨page, ⟨key, hkey⟩, hP⟩
    rw [h key page hkey] at hP
    exact ⟨key, ⟨page, hkey⟩, hP⟩
  · rintro ⟨key, ⟨page, hkey⟩, hP⟩
    refine ⟨page, ⟨key, hkey⟩, ?_⟩
    rw [h key page hkey]
    exact hP

theorem sorted_addresses (t : PageTable) :
    t.addresses.Pairwise fun a b => a.value < b.value := by
  rw [addresses, List.pairwise_map]
  exact t.pages.sorted_keys

theorem mem_addresses_iff : a ∈ t.addresses ↔ ∃ page, t.pages.get? a.value = some page := by
  rw [← Option.isSome_iff_exists]
  show _ ↔ t.pages.contains a.value = true
  rw [Table.contains_iff, addresses, List.mem_map]
  constructor
  · rintro ⟨key, hkey, rfl⟩
    exact hkey
  · exact fun hkey => ⟨a.value, hkey, rfl⟩

theorem mem_addresses_insertAll (h : t.insertAll pages = .ok table) :
    a ∈ table.addresses ↔ a ∈ t.addresses ∨ a ∈ pages.map Page.address := by
  simp only [mem_addresses_iff, get?_insertAll h, List.mem_map, exists_or]
  refine or_congr_right ⟨?_, ?_⟩
  · rintro ⟨page, hpage, hkey⟩
    exact ⟨page, hpage, Address.ext hkey⟩
  · rintro ⟨page, hpage, rfl⟩
    exact ⟨page, hpage, rfl⟩

/-- A vacant range takes pages at its places, in order. -/
theorem Vacant.insertAll_ok {first : Nat} (h : t.Vacant first count)
    (hnews : news.map (·.address.value) = (List.range count).map fun k => first + k * pageSize) :
    ∃ table, t.insertAll news = .ok table := by
  refine PageTable.insertAll_ok (fun page hpage => ?_) ?_
  · have hplace : page.address.value ∈ news.map (·.address.value) := List.mem_map_of_mem hpage
    rw [hnews] at hplace
    obtain ⟨k, hk, hvalue⟩ := List.mem_map.1 hplace
    have hlt := Nat.mul_lt_mul_of_pos_right (List.mem_range.1 hk) pageSize_pos
    exact h _ (by omega) (by omega)
  · have hnodup : (news.map (·.address.value)).Nodup := by
      rw [hnews]
      refine List.nodup_range.map fun j k hjk => ?_
      unfold pageSize at hjk
      omega
    exact List.pairwise_map.1 hnodup

/-- However a table came about, a range of words is said to overlap it exactly when a registered
page's address lies in the range. If none does, pages can be entered at all places of the range,
one after the other, and the addresses are then the old ones and the new, ascending. -/
theorem overlaps_exact (ops : List PageTableOp)
    (hfits : start.pageBase.value + count * pageSize < 2 ^ 64) :
    ∃ taken, (after ops).overlaps start count = .ok taken ∧
      (taken = true ↔ ∃ page ∈ (after ops).pages.values, start.pageBase.value ≤ page.address.value ∧
        page.address.value < start.pageBase.value + count * pageSize) ∧
      (taken = false → ∀ news : List Page, news.map (·.address.value) =
          (List.range count).map (fun k => start.pageBase.value + k * pageSize) →
        ∃ table, (after ops).insertAll news = .ok table ∧
          table.addresses.Pairwise (fun a b => a.value < b.value) ∧
          ∀ a, a ∈ table.addresses ↔ a ∈ (after ops).addresses ∨ a ∈ news.map Page.address) := by
  obtain ⟨taken, hrun, htaken⟩ := overlaps_eq_ok (t := after ops) hfits
  refine ⟨taken, hrun, ?_, fun hfree news hnews => ?_⟩
  · rw [htaken]
    exact ((keyed_after ops).exists_mem_values_iff (P := fun n => start.pageBase.value ≤ n ∧
      n < start.pageBase.value + count * pageSize)).symm
  · have hvacant : (after ops).Vacant start.pageBase.value count := by
      rw [vacant_iff, ← htaken, hfree]
      exact Bool.false_ne_true
    obtain ⟨table, htable⟩ := hvacant.insertAll_ok hnews
    exact ⟨table, htable, table.sorted_addresses, fun a => mem_addresses_insertAll htable⟩

/-- Pages at the first and the third place of four are left: one was entered twice, which was
refused, and the fourth was taken out again. -/
def punctured : List PageTableOp :=
  [.insert (.fresh ⟨0x12000⟩ true .anonymous none {}),
    .insert (.fresh ⟨0x10ABC⟩ true .anonymous none {}),
    .insert (.fresh ⟨0x10000⟩ false .anonymous none {}),
    .insert (.fresh ⟨0x13000⟩ true .anonymous none {}), .erase ⟨0x13FFF⟩]

/-- From the middle of the second place on, one page is free and two are not. -/
theorem overlaps_exact_of_punctured :
    (∃ page ∈ (after punctured).pages.values,
      0x11000 ≤ page.address.value ∧ page.address.value < 0x13000) ∧
    (after punctured).overlaps ⟨0x11ABC⟩ 2 = .ok true ∧
    (after punctured).overlaps ⟨0x11ABC⟩ 1 = .ok false ∧
    ∃ table, (after punctured).insertAll [.fresh ⟨0x11000⟩ true .anonymous none {}] = .ok table ∧
      table.addresses.Pairwise (fun a b => a.value < b.value) ∧
      ⟨0x11000⟩ ∈ table.addresses ∧ ⟨0x12000⟩ ∈ table.addresses ∧ ⟨0x13000⟩ ∉ table.addresses := by
  have haddresses : (after punctured).addresses = [⟨0x10000⟩, ⟨0x12000⟩] := by decide +kernel
  have htwo : (after punctured).overlaps ⟨0x11ABC⟩ 2 = .ok true := by decide +kernel
  have hone : (after punctured).overlaps ⟨0x11ABC⟩ 1 = .ok false := by decide +kernel
  have hfits : ∀ count ≤ 2,
      (⟨0x11ABC⟩ : VirtualAddress).pageBase.value + count * pageSize < 2 ^ 64 := by decide
  obtain ⟨taken, hrun, htaken, -⟩ := overlaps_exact punctured (hfits 2 (by decide))
  obtain ⟨free, hfree, -, hinsert⟩ := overlaps_exact punctured (hfits 1 (by decide))
  obtain rfl : taken = true := Except.ok.inj (hrun.symm.trans htwo)
  obtain rfl : free = false := Except.ok.inj (hfree.symm.trans hone)
  obtain ⟨table, htable, hsorted, hmem⟩ :=
    hinsert rfl [.fresh ⟨0x11000⟩ true .anonymous none {}] rfl
  refine ⟨htaken.1 rfl, hrun, hfree, table, htable, hsorted, ?_, ?_, ?_⟩
  · exact (hmem _).2 (.inr (by decide))
  · exact (hmem _).2 (.inl (by rw [haddresses]; decide))
  · rw [hmem, haddresses]
    decide

end PageTable
end Pager
