import Pager.Proofs.Saving
import Pager.Proofs.Stores

/-!
What is stored to a mapping is in its file when the mapping ends. Unmapping goes through the
pages in ascending order, and those that are behind are in the file altogether if their writes
were taken in full. The end of a space does the same to all that is mapped in it, and goes on
when a write fails.
-/
namespace Pager

open Machine

/-- Every write that was asked for in between was taken in full. -/
def Machine.Serves (s t : Machine) : Prop :=
  t.files.Since s.files.calls fun call => call.outcome = .ok call.bytes.length

namespace Machine.Serves

variable {s t u : Machine} {kinds : Label → Prop}

theorem first (hserves : s.Serves t) (h : Coherent ⟨u, none⟩)
    (hmoves : Moves kinds ⟨u, none⟩ ⟨t, none⟩) : s.Serves u := h.since_before_moves hmoves hserves

theorem second (hserves : s.Serves t) (h : Coherent ⟨s, none⟩)
    (hmoves : Moves kinds ⟨s, none⟩ ⟨u, none⟩) : u.Serves t := by
  obtain ⟨calls, hcalls⟩ := h.calls_grow hmoves
  exact FileStore.Since.of_later hserves hcalls

end Machine.Serves

namespace Window

variable {w : Window} {stored : Nat → Option UInt8} {first k : Nat} {s t u : Machine}
  {id : SpaceId} {a start : VirtualAddress} {sp : Space} {p : Page} {data : Bytes}

/-- The record of the mapping is kept under its start. -/
def Stands (w : Window) (s : Machine) : Prop :=
  ∃ sp, s.spaces.get? w.space = some sp ∧
    sp.mappings.get? w.start = some ⟨w.mapping, w.pages, w.file⟩

theorem of_address (haligned : w.start % pageSize = 0) (k : Nat) :
    Place.of w.space (w.place k).address = w.place k := by
  have hplace : (w.place k).key % pageSize = 0 := by
    change (w.start + k * pageSize) % pageSize = 0
    rw [Nat.add_mul_mod_self_right, haligned]
  exact Place.of_address hplace

/-- A page of the mapping that is written back need not be kept any longer. -/
theorem Intact.writeBack (hintact : w.Intact stored k s) (h : Coherent ⟨s, none⟩)
    (hlt : k < w.pages) (hs : s.spaces.get? w.space = some sp)
    (hget : sp.pages.get? (w.place k).address = some p) {failure : Option PagerError}
    (run : writeBackIfDirty w.space (w.place k).address p s = .ok (.ok failure, u))
    (hsaved : failure = none ∨ s.Serves u) (halone : w.Alone u) :
    w.Owned k u ∧ ∃ data, w.Holds stored (k + 1) u data := by
  obtain ⟨data, hholds⟩ := hintact.holds
  obtain ⟨q, hp, hbacks⟩ := hholds.registered k (Nat.le_refl _) hlt
  have hkey := (h.linked.keyed hp).2
  have hplace := (pageAt_of_get? hs (w.place k).key).trans
    ((PageTable.get?_address hkey _).symm.trans hget)
  cases hp.symm.trans hplace
  obtain ⟨_, hfailure, ⟨rfl, -, hclean⟩ |
    ⟨f, fr, file, q, files, events, hf, hkind, hdirty, hfr, hwrite, hrequest, hfull, rfl⟩⟩ :=
      writeBackIfDirty_cases h hs hget run
  · refine ⟨hintact.owned, data, hholds.next fun i _ hi hcount => ?_⟩
    refine hholds.saved hlt hi hcount fun _ hd => ?_
    obtain ⟨f, hf, -⟩ := hbacks.soiled h hp hd
    obtain ⟨e, he, hdirty⟩ := hd
    have hkind := hbacks.kind_of_initialized (h.linked.ready hp hf).1
    have hshown := Directory.has_iff.2 ⟨e, (entryAt_of_get? hs _).symm.trans he, hdirty⟩
    cases hshown.symm.trans (hclean f _ hf hkind)
  · cases hfailure
    cases hkind.symm.trans (hbacks.kind_of_initialized (h.linked.ready hp hf).1)
    have hnote : Move .note ⟨{ s with files }, none⟩ ⟨{ s with files, events }, none⟩ :=
      .note s.evictions events
    have hmoves : Moves (w.Spares k) ⟨s, none⟩ ⟨{ s with files, events }, none⟩ :=
      .tail (.single hrequest True.intro) hnote True.intro
    have hafter := hintact.moves h hmoves (fun _ hl => hl) halone
    obtain ⟨after, hkept⟩ := hafter.holds
    refine ⟨hafter.owned, after, hkept.next fun i _ hi hcount => ?_⟩
    rcases FileStore.Logs.of_writeAt hwrite with hlogs | ⟨hnone, -⟩
    · have htaken : q = .ok (w.backing k).readBytes := by
        rcases hsaved with hfailure | hserves
        · exact FileStore.shortfall_eq_none.1 (hfull.symm.trans hfailure)
        · have houtcome : q = .ok ((s.pool.bytesAt fr.address).take (w.backing k).readBytes).length :=
            hserves _ hlogs.made _ (List.mem_singleton_self _)
          have hread : (w.backing k).readBytes ≤ pageSize := Nat.min_le_right ..
          rw [houtcome, List.length_take, h.length_frame hfr, Nat.min_eq_left hread]
      rw [htaken, ← frameBytes_of_get? hfr] at hlogs
      exact hholds.written (m := ⟨s, none⟩) (Nat.le_refl _) hlt hp hf hlogs hi hcount after
        hkept.file
    · obtain ⟨file, hfile, -⟩ := FileStore.exists_file_of_data? hholds.file
      cases hnone.symm.trans hfile

/-- What the mapping holds survives the removal of a page that need not be kept. -/
theorem Holds.removed (hholds : w.Holds stored (k + 1) s data) (howned : w.Owned k s)
    (h : Coherent ⟨s, none⟩) (haligned : w.start % pageSize = 0) {r : Except PagerError Unit}
    (run : Machine.remove w.space (w.place k).address s = .ok (r, t))
    (hgone : pageAt t.spaces (w.place k) = none) : w.Intact stored (k + 1) t := by
  have hkept : w.Owned k t ∧ t.files = s.files ∧ w.Holds stored (k + 1) t data := by
    obtain ⟨sp, -, ⟨-, -, rfl⟩ | ⟨p, _, -, -, hmoves, -⟩⟩ := remove_moves h run
    · exact ⟨howned, rfl, hholds⟩
    · refine h.preserves (P := fun o => w.Owned k o.machine ∧ o.machine.files = s.files ∧
        w.Holds stored (k + 1) o.machine data) hmoves ?_ ⟨howned, rfl, hholds⟩
      rintro l m n hl hm ⟨howned, hfiles, hholds⟩ hmove
      have hsame : n.machine.files = m.machine.files := by
        cases hmove <;> first | rfl | exact hl.elim
      have hspares : w.Spares (k + 1) l := by
        cases l with
        | unseat pl q | remove pl q =>
          intro _ j hj hlt' hplace
          have hself : w.place j = w.place k := hplace.symm.trans (hl.1.trans (of_address haligned k))
          exact absurd (place_inj hself) (Nat.ne_of_gt hj)
        | _ => first | exact True.intro | exact hl.elim
      refine ⟨howned.move hm hmove hspares.foreign, hsame.trans hfiles, ?_⟩
      exact hholds.of_yields hm hmove hspares (hsame ▸ hholds.file) .refl
  obtain ⟨howned, -, hholds⟩ := hkept
  refine ⟨⟨howned.past, howned.opened, howned.unheld, ?_⟩, data, hholds⟩
  intro pl p hp htype hhandle
  obtain ⟨j, hfirst, hj, rfl, hbacks⟩ := howned.own hp htype hhandle
  refine ⟨j, Nat.lt_of_le_of_ne hfirst ?_, hj, rfl, hbacks⟩
  rintro rfl
  cases hgone.symm.trans hp

/-- When a page of the mapping is unmapped it is in its file, if it could be written back. -/
theorem Intact.unmapPage (hintact : w.Intact stored k s) (h : Coherent ⟨s, none⟩)
    (haligned : w.start % pageSize = 0) (hlt : k < w.pages)
    (hs : s.spaces.get? w.space = some sp) {failure : Option PagerError}
    (run : Machine.unmapPage w.space w.mapping (w.place k).address s = .ok (.ok failure, t))
    (hsaved : failure = none ∨ s.Serves t) (halone : w.Alone t) : w.Intact stored (k + 1) t := by
  obtain ⟨data, hholds⟩ := hintact.holds
  obtain ⟨p, hp, hbacks⟩ := hholds.registered k (Nat.le_refl _) hlt
  have hget : sp.pages.get? (w.place k).address = some p :=
    (PageTable.get?_address (h.linked.keyed hp).2 _).trans ((pageAt_of_get? hs _).symm.trans hp)
  obtain ⟨_, hfailure, ⟨-, -, hother⟩ | ⟨q, u, directory, hq, -, hwrite, -, hretires, hremove,
    hretired, ht⟩⟩ := unmapPage_cases h hs run
  · exact absurd hbacks.mapping (hother p hget)
  · cases hfailure
    have hu := h.moves hretires
    have halone' : w.Alone u := hu.since_before_moves hretired halone
    obtain ⟨howned, after, hafter⟩ := hintact.writeBack h hlt hs hq hwrite
      (hsaved.imp id fun hserves => hserves.first hu hretired) halone'
    refine hafter.removed howned hu haligned hremove ?_
    have hblank := pageAt_of_get? (ht ▸ Table.get?_insert_self ..) (w.place k).key
    refine hblank.trans ((Table.get?_erase ..).trans (if_pos ?_))
    exact (congrArg Place.key (of_address haligned k)).symm

/-- The addresses of the pages from page `k` on. -/
def addressesFrom (w : Window) (k count : Nat) : List VirtualAddress :=
  (List.range' k count).map fun j => (w.place j).address

theorem Intact.unmapPages {count : Nat} (hintact : w.Intact stored k s) (h : Coherent ⟨s, none⟩)
    (haligned : w.start % pageSize = 0) (hcount : k + count = w.pages)
    (hs : s.spaces.get? w.space = some sp) {failure : Option PagerError}
    (run : Machine.unmapPages w.space w.mapping (w.addressesFrom k count) s =
      .ok (.ok failure, t))
    (hsaved : failure = none ∨ s.Serves t) (halone : w.Alone t) : w.Intact stored w.pages t := by
  induction count generalizing k s sp failure with
  | zero =>
    cases run
    exact hcount ▸ hintact
  | succ count ih =>
    obtain ⟨first, others, u, hpage, hrest, hr⟩ := unmapPages_cons h hs run
    obtain ⟨-, hmoves, after, hu⟩ := unmapPage_moves h hs hpage
    have hcoherent := h.moves hmoves
    have hothers := (unmapPages_cases hcoherent hu hrest).2.1
    have halone' : w.Alone u := hcoherent.since_before_moves hothers halone
    have hboth : (first = none ∨ s.Serves u) ∧ (others = none ∨ u.Serves t) := by
      rcases hsaved with rfl | hserves
      · obtain ⟨hfirst, hothers⟩ := Option.or_eq_none_iff.1 (Except.ok.inj hr).symm
        exact ⟨.inl hfirst, .inl hothers⟩
      · exact ⟨.inr (hserves.first hcoherent hothers), .inr (hserves.second h hmoves)⟩
    have hpassed := hintact.unmapPage h haligned (by omega) hs hpage hboth.1 halone'
    exact ih hpassed hcoherent (by omega) hu hrest hboth.2

/-- When a mapping is unmapped it is in its file, if all of it could be written back. -/
theorem Intact.munmap (hintact : w.Intact stored 0 s) (h : Coherent ⟨s, none⟩)
    (hn : s.Numbered) (hstands : w.Stands s) (hstart : a.value = w.start)
    {r : Except PagerError Unit} (run : Machine.munmap w.space a s = .ok (r, t))
    (hsaved : r = .ok () ∨ s.Serves t) (halone : w.Alone t) : w.Intact stored w.pages t := by
  obtain ⟨sp, hs, hrecord⟩ := hstands
  have haligned := (hn _ sp hs).aligned _ _ hrecord
  obtain ⟨sp', hs', ⟨hnone, -⟩ | ⟨record, failure, addresses, u, v, events, hrecord', haddresses,
    hunrecord, hu, hpages, rfl, hfailure⟩⟩ := munmap_cases h run
  · cases hs.symm.trans hs'
    rw [hstart, hrecord] at hnone
    cases hnone
  · cases hs.symm.trans hs'
    rw [hstart, hrecord] at hrecord'
    cases hrecord'
    have hlist : addresses = w.addressesFrom 0 w.pages := by
      rw [eq_map_of_mapM haddresses fun hadd => Address.eq_of_add hadd, addressesFrom, hstart,
        List.range_eq_range']
      rfl
    have hunrecorded := h.move hunrecord
    have hgiven : Moves (w.Spares 0) ⟨s, none⟩ ⟨u, none⟩ := .single hunrecord True.intro
    have hmoves := (unmapPages_cases hunrecorded hu hpages).2.1
    have hnote : Moves (w.Spares w.pages) ⟨v, none⟩ ⟨{ v with events }, none⟩ :=
      .single (.note v.evictions events) True.intro
    have hv := hunrecorded.moves hmoves
    have halone' : w.Alone v := hv.since_before_moves hnote halone
    have hbefore := hintact.moves h hgiven (fun _ hl => hl)
      (hunrecorded.since_before_moves hmoves halone')
    refine (hbefore.unmapPages hunrecorded haligned (Nat.zero_add _) hu (hlist ▸ hpages) ?_
      halone').moves hv hnote (fun _ hl => hl) halone
    exact hsaved.imp (fun hok => Transfer.ending_eq_ok.1 (hfailure.symm.trans hok)) fun hserves =>
      hserves.second h hgiven

/-- What goes in one space is none of another space's pages. -/
theorem spares_of_clears {l : Label} (hother : id ≠ w.space) (hl : l.Clears id) :
    w.Spares first l := by
  cases l with
  | unseat pl p | remove pl p =>
    rintro - k - - rfl
    exact hother hl.symm
  | _ => first | exact True.intro | exact hl.elim

/-- A mapping elsewhere is unmapped without harm. -/
theorem munmap_spares (h : Coherent ⟨s, none⟩) (hn : s.Numbered) (hstands : w.Stands s)
    (hother : id = w.space → a.value ≠ w.start) {r : Except PagerError Unit}
    (run : Machine.munmap id a s = .ok (r, t)) :
    Moves (w.Spares 0) ⟨s, none⟩ ⟨t, none⟩ ∧ w.Stands t := by
  obtain ⟨sp, hs, hrecord⟩ := hstands
  by_cases hspace : id = w.space
  · subst hspace
    have hne := hother rfl
    constructor
    · obtain ⟨sp', hs', ⟨-, -, rfl⟩ | ⟨record, failure, addresses, u, v, events, hrecord', -,
        hunrecord, hu, hpages, rfl, -⟩⟩ := munmap_cases h run
      · exact .refl
      · cases hs.symm.trans hs'
        have hid : record.id ≠ w.mapping := fun he =>
          hne ((hn _ sp hs).unique _ _ _ _ hrecord' hrecord he)
        have hmoves := (unmapPages_cases (h.move hunrecord) hu hpages).2.1
        have hspares : ∀ l : Label, l.Unmaps w.space record.id → w.Spares 0 l := by
          intro l hl
          cases l with
          | unseat pl p | remove pl p =>
            exact fun hmapping => absurd (Option.some.inj (hl.2.symm.trans hmapping)) hid
          | _ => first | exact True.intro | exact hl.elim
        have hgiven : Moves (w.Spares 0) ⟨s, none⟩ ⟨u, none⟩ := .single hunrecord True.intro
        exact (hgiven.trans (hmoves.mono hspares)).tail (.note v.evictions events) True.intro
    · obtain ⟨sp', hs', ⟨-, -, rfl⟩ | ⟨record, after, hunmaps, ht⟩⟩ := munmap_unmaps h hn run
      · exact ⟨sp, hs, hrecord⟩
      · cases hs.symm.trans hs'
        exact ⟨after, ht ▸ Table.get?_insert_self .., hunmaps.get?_mappings.2 ⟨hne.symm, hrecord⟩⟩
  · obtain ⟨hmoves, sp', hs', hspaces⟩ := munmap_moves h run
    refine ⟨hmoves.mono fun l hl => spares_of_clears hspace hl.clears, sp, ?_, hrecord⟩
    rcases hspaces with ⟨-, -, rfl⟩ | ⟨_, _, pages, directory, -, -, ht, -⟩
    · exact hs
    · rw [ht, Table.get?_insert, if_neg (Ne.symm hspace)]
      exact hs

/-- Once the mapping has ended, nothing can be done to its pages any more. -/
theorem spares_of_foreign {l : Label} (hl : w.Foreign l) : w.Spares w.pages l := by
  cases l with
  | unseat | remove => exact fun _ k hfirst hlt => absurd hlt (Nat.not_lt.2 hfirst)
  | store => exact fun k hfirst hlt => absurd hlt (Nat.not_lt.2 hfirst)
  | _ => exact hl

theorem foreign_of_clears {l : Label} (hl : l.Clears id) : w.Foreign l := by
  cases l <;> first | exact True.intro | exact hl.elim

/-- Whatever else is unmapped before, the turn of the mapping comes. -/
theorem Intact.unmapAll {starts : List VirtualAddress} (hintact : w.Intact stored 0 s)
    (h : Coherent ⟨s, none⟩) (hn : s.Numbered) (hstands : w.Stands s)
    (hmem : ∃ start ∈ starts, start.value = w.start) {r : Except PagerError Unit}
    (run : Machine.unmapAll w.space starts s = .ok (r, t)) (hserves : s.Serves t)
    (halone : w.Alone t) : w.Intact stored w.pages t := by
  induction starts generalizing s with
  | nil =>
    obtain ⟨_, hmem, -⟩ := hmem
    cases hmem
  | cons start rest ih =>
    obtain ⟨q, u, events, hmunmap, hrest⟩ := unmapAll_cons run
    have hnote : Move .note ⟨u, none⟩ ⟨{ u with events }, none⟩ := .note u.evictions events
    have hunmapped := (munmap_moves h hmunmap).1
    have hmoves := hunmapped.tail hnote trivial
    have hu := h.moves hunmapped
    have hnext := h.moves hmoves
    obtain ⟨after, hafter⟩ : ∃ after, u.spaces.get? w.space = some after := by
      obtain ⟨sp, hs, hspaces⟩ := (munmap_moves h hmunmap).2
      rcases hspaces with ⟨-, -, rfl⟩ | ⟨_, _, _, _, -, -, ht, -⟩
      · exact ⟨sp, hs⟩
      · exact ⟨_, ht ▸ Table.get?_insert_self ..⟩
    have hothers := (unmapAll_moves hnext hafter hrest).2.1
    have halone' : w.Alone { u with events } := hnext.since_before_moves hothers halone
    by_cases hself : start.value = w.start
    · have hlast : Moves (Label.Clears w.space) ⟨u, none⟩ ⟨t, none⟩ :=
        (Moves.single hnote trivial).trans (hothers.mono fun l hl => hl.clears)
      have hsaved := hintact.munmap h hn hstands hself hmunmap (.inr (hserves.first hu hlast))
        halone'
      exact hsaved.moves hu hlast (fun l hl => spares_of_foreign (foreign_of_clears hl)) halone
    · obtain ⟨hspares, hstill⟩ := munmap_spares h hn hstands (fun _ => hself) hmunmap
      have hkept := hintact.moves h (hspares.tail hnote True.intro) (fun _ hl => hl) halone'
      refine ih hkept hnext (munmap_reckons h hmunmap hn).1 hstill ?_ hrest
        (hserves.second h hmoves)
      obtain ⟨other, hmem, hother⟩ := hmem
      refine ⟨other, (List.mem_cons.1 hmem).resolve_left ?_, hother⟩
      rintro rfl
      exact hself hother

/-- When its space ends a mapping is in its file, if all writes are taken in full. -/
theorem Intact.teardown (hintact : w.Intact stored 0 s) (h : Coherent ⟨s, none⟩)
    (hn : s.Numbered) (hstands : w.Stands s) {r : Except PagerError Unit}
    (run : Machine.teardown w.space s = .ok (r, t)) (hserves : s.Serves t)
    (halone : w.Alone t) : w.Intact stored w.pages t := by
  obtain ⟨-, sp, u, hs, hunmap, hclear, -⟩ := teardown_cases h run
  have hu := h.moves (unmapAll_moves h hs hunmap).2.1
  obtain ⟨sp', hs', hrecord⟩ := hstands
  cases hs.symm.trans hs'
  have hkey : w.start ∈ sp.mappings.keys := by
    rw [← Table.contains_iff, Table.contains, hrecord]
    rfl
  have hmem : ∃ start ∈ sp.mappings.keys.map fun key => (⟨key⟩ : VirtualAddress),
      start.value = w.start :=
    ⟨⟨w.start⟩, List.mem_map.2 ⟨w.start, hkey, rfl⟩, rfl⟩
  have hsaved := hintact.unmapAll h hn ⟨sp, hs, hrecord⟩ hmem hunmap (hserves.first hu hclear)
    (hu.since_before_moves hclear halone)
  exact hsaved.moves hu hclear (fun l hl => spares_of_foreign (foreign_of_clears hl)) halone

end Window
end Pager
