import Pager.Proofs.Custody
import Pager.Proofs.Flushing

/-!
A mapping that was just made. Its pages wait for their slices of the file, its record is kept
under its start, and since its handle is a new one nobody else refers to it. So it holds what
the file holds, and nothing has been stored to it.
-/
namespace Pager

open Machine

/-- What a mapping was asked for. -/
structure Window.Requested (w : Window) (id : SpaceId) (start length : Nat) (file : Handle)
    (offset : Nat) (s t : Machine) : Prop where
  space : w.space = id
  start : w.start = start
  length : w.length = length
  offset : w.offset = offset
  same : w.file.file = file.file
  before : s.files.data? file.file = some w.before
  past : t.files.calls = w.past

namespace Window

variable {w : Window} {s t : Machine} {id : SpaceId} {a : VirtualAddress} {sp after : Space}
  {pages : List Page} {table : PageTable} {writable : Bool} {pl : Place} {p : Page}

/-- Page `k` as it is registered. -/
def fresh (w : Window) (writable : Bool) (k : Nat) : Page :=
  .mapped (w.place k).address writable (w.slice k) w.mapping

theorem backs_fresh (k : Nat) : w.Backs k (w.fresh writable k) := .inl rfl

/-- What is registered where a mapping was made: its pages and the old ones. -/
theorem pageAt_eq_some_iff (haligned : w.start % pageSize = 0)
    (hs : s.spaces.get? w.space = some sp) (htable : sp.pages.insertAll pages = .ok table)
    (hpages : ∀ p, p ∈ pages ↔ ∃ k < w.pages, p = w.fresh writable k)
    (hafter : after.pages = table) (ht : t.spaces = s.spaces.insert w.space after) :
    pageAt t.spaces pl = some p ↔ pageAt s.spaces pl = some p ∨
      ∃ k < w.pages, pl = w.place k ∧ p = w.fresh writable k := by
  have haddress : ∀ k, (w.fresh writable k).address.value = (w.place k).key := fun k =>
    congrArg Place.key (of_address haligned k)
  obtain ⟨space, key⟩ := pl
  by_cases hspace : space = w.space
  · subst hspace
    rw [pageAt_of_get? (ht ▸ Table.get?_insert_self ..), pageAt_of_get? hs, hafter,
      PageTable.get?_insertAll htable, hpages]
    refine or_congr .rfl ⟨?_, ?_⟩
    · rintro ⟨⟨k, hlt, rfl⟩, rfl⟩
      exact ⟨k, hlt, Place.ext rfl (haddress k), rfl⟩
    · rintro ⟨k, hlt, hplace, rfl⟩
      exact ⟨⟨k, hlt, rfl⟩, (haddress k).trans (congrArg Place.key hplace).symm⟩
  · have hold : pageAt t.spaces ⟨space, key⟩ = pageAt s.spaces ⟨space, key⟩ := by
      rw [pageAt, pageAt, ht, Table.get?_insert, if_neg hspace]
    rw [hold]
    refine ⟨.inl, ?_⟩
    rintro (hp | ⟨k, -, hplace, -⟩)
    · exact hp
    · exact absurd (congrArg Place.space hplace) hspace

/-- A mapping whose handle is new to everybody is there with what its file holds. -/
theorem intact_of_opened (hdated : (Custody.dated w.file.serial).Holds s)
    (hfiles : t.files = { s.files with nextSerial := w.file.serial + 1 })
    (hbefore : s.files.data? w.file.file = some w.before) (hpast : s.files.calls = w.past)
    (hpages : ∀ {pl p}, pageAt t.spaces pl = some p ↔ pageAt s.spaces pl = some p ∨
      ∃ k < w.pages, pl = w.place k ∧ p = w.fresh writable k) :
    w.Intact (fun _ => none) 0 t ∧ w.Untouched t := by
  have hcalls : t.files.calls = w.past := by rw [hfiles, hpast]
  -- no page from before refers to a handle as new as this one
  have hold : ∀ {pl p}, pageAt s.spaces pl = some p → p.handle ≠ some w.file := fun hp hhandle =>
    Nat.lt_irrefl _ (hdated.pages hp hhandle)
  have hown : ∀ k < w.pages, pageAt t.spaces (w.place k) = some (w.fresh writable k) :=
    fun k hlt => hpages.2 (.inr ⟨k, hlt, rfl, rfl⟩)
  refine ⟨⟨⟨⟨[], hcalls⟩, ?_, ?_, ?_⟩, w.before, ?_, ?_, rfl, fun _ _ => rfl, ?_, ?_⟩, ?_, ?_⟩
  · rw [hfiles]
    exact Nat.lt_succ_self _
  · rw [hfiles]
    exact fun hheld => Nat.lt_irrefl _ (hdated.callers _ hheld)
  · intro pl p hp _ hhandle
    rcases hpages.1 hp with hp | ⟨k, hlt, rfl, rfl⟩
    · exact absurd hhandle (hold hp)
    · exact ⟨k, Nat.zero_le _, hlt, rfl, backs_fresh k⟩
  · exact fun k _ hlt => ⟨_, hown k hlt, backs_fresh k⟩
  · rw [hfiles]
    exact hbefore
  · intro k p f i _ hlt hp hf
    cases (hown k hlt).symm.trans hp
    cases hf
  · intro k i hlt hi hcount _
    have hend : w.count ≤ w.before.length - w.offset := Nat.min_le_right ..
    rw [byte, Option.getD_none, original, if_pos hcount, List.getD_eq_getElem?_getD,
      List.getElem?_eq_getElem (by omega), Option.getD_some]
  · rintro pl file bytes ⟨p, f, e, hp, hkind, hf, -⟩ hfile
    have hhandle : p.handle = some w.file := by rw [Page.handle, hkind, ← hfile]
    rcases hpages.1 hp with hp | ⟨k, hlt, rfl, rfl⟩
    · exact hold hp hhandle
    · cases hf
  · intro calls hsince call hmem
    rw [hcalls] at hsince
    rw [List.self_eq_append_left.1 hsince] at hmem
    cases hmem

/-- A mapping that was made is there. -/
theorem mmap_opens (hdated : (Custody.dated s.files.nextSerial).Holds s) {length offset : Nat}
    {file : Handle} {value : VirtualAddress}
    (run : Machine.mmap id a length writable file offset s = .ok (.ok value, t)) :
    ∃ w : Window, w.Requested id a.value length file offset s t ∧
      w.Intact (fun _ => none) 0 t ∧ w.Untouched t ∧ w.Stands t := by
  rcases mmap_cases run with ⟨e, he, -⟩ |
    ⟨-, sp, pages, table, hs, hfilled, haligned, -, hpages, htable, ht, hfiles, -⟩
  · cases he
  · have haligned : a.value % pageSize = 0 := by
      simpa [Address.isPageAligned, Address.pageOffset] using haligned
    obtain ⟨found, hfile⟩ : ∃ found, s.files.file? file = some found := by
      cases hnone : s.files.file? file with
      | none => simp [FileStore.isEmpty, FileStore.size, hnone] at hfilled
      | some found => exact ⟨found, rfl⟩
    have hsize : s.files.size file = found.data.length := by
      rw [FileStore.size, hfile]
      rfl
    have hdata := FileStore.data?_of_file? hfile
    let w : Window := ⟨id, a.value, length, sp.nextMapping, s.files.opening file, offset,
      found.data, s.files.calls⟩
    have hregistered : ∀ p, p ∈ pages ↔ ∃ k < w.pages, p = w.fresh writable k := by
      intro p
      rw [mem_pageRun_iff hpages, hsize]
      rfl
    obtain ⟨hintact, huntouched⟩ := intact_of_opened (w := w) hdated hfiles hdata rfl
      (pageAt_eq_some_iff haligned hs htable hregistered rfl ht)
    refine ⟨w, ⟨rfl, rfl, rfl, rfl, rfl, hdata, ?_⟩, hintact, huntouched, _,
      ht ▸ Table.get?_insert_self .., Table.get?_insert_self ..⟩
    rw [hfiles]

end Window
end Pager
