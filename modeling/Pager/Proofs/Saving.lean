import Pager.Proofs.Reckoning
import Pager.Proofs.Soiling

/-!
What is stored to a mapping reaches its file, or the file at least was asked to take
it. Unmapping asks for each dirty page of the mapping before it takes the page away,
and so does the end of the space, as long as the records lead to the pages.
-/
namespace Pager.Machine

variable {s t : Machine} {id : SpaceId} {a start : VirtualAddress} {sp : Space} {pl : Place}
  {file : FileBacking} {bytes : Bytes} {mapping : MappingId} {record : Mapping}

/-- A page that is soiled is registered, carries the number of its mapping, and its entry shows
that it is dirty. -/
theorem Soiled.page (h : Coherent ⟨s, none⟩) (hsoiled : s.Soiled pl file bytes) :
    ∃ sp p f, s.spaces.get? pl.space = some sp ∧ sp.pages.get? pl.address = some p ∧
      p.kind = .fileBacked file ∧ p.mapping = file.mapping ∧ p.frame = some f ∧
      sp.directory.has pl.address .dirty = true ∧ s.frameBytes f = bytes := by
  obtain ⟨p, f, e, hp, hk, hf, he, hd, hbytes⟩ := hsoiled
  obtain ⟨sp, hs, hget⟩ := exists_space_of_pageAt hp
  refine ⟨sp, p, f, hs, ?_, hk, ?_, hf, ?_, hbytes⟩
  · rw [PageTable.get?_address (h.linked.keyed hp).2, hget]
  · rw [Page.mapping, hk]
  · exact Directory.has_iff.2 ⟨e, (entryAt_of_get? hs _).symm.trans he, hd⟩

/-- The page's own mapping is unmapped: its file is asked first. -/
theorem unmapPage_offers (h : Coherent ⟨s, none⟩) (hsoiled : s.Soiled pl file bytes)
    (hmapping : file.mapping = some mapping) {r : Except PagerError (Option PagerError)}
    (run : unmapPage pl.space mapping pl.address s = .ok (r, t)) :
    Offers (Label.Retires (.of pl.space pl.address) mapping) pl file ⟨s, none⟩ ⟨t, none⟩ := by
  obtain ⟨sp, p, f, hs, hp, hk, hown, hf, hdirty, hbytes⟩ := hsoiled.page h
  obtain ⟨failure, -, ⟨-, -, hnone⟩ | ⟨q, u, _, hq, -, hwrite, -, -, -, hmoves, -⟩⟩ :=
    unmapPage_cases h hs run
  · exact absurd (hown.trans hmapping) (hnone p hp)
  · rw [hp] at hq
    cases hq
    obtain ⟨_, -, ⟨-, -, hclean⟩ |
      ⟨g, fr, file', result, files, events, hg, hk', -, hfr, hrequest, hmove, -, rfl⟩⟩ :=
        writeBackIfDirty_cases h hs hp hwrite
    · rw [hclean f file hf hk] at hdirty
      cases hdirty
    · rw [hf] at hg
      cases hg
      rw [hk] at hk'
      cases hk'
      rw [← frameBytes_of_get? hfr, hbytes] at hrequest
      have hnote : Move .note ⟨{ s with files }, none⟩ ⟨{ s with files, events }, none⟩ :=
        .note s.evictions events
      exact ⟨s, _, .request, bytes, result, .refl, hsoiled, trivial, hmove, hrequest,
        (Moves.single hnote trivial).trans hmoves⟩

/-- Pages are unmapped one after the other, the soiled one among them. -/
theorem unmapPages_offers {addresses : List VirtualAddress} (h : Coherent ⟨s, none⟩)
    (hsoiled : s.Soiled pl file bytes) (hmapping : file.mapping = some mapping)
    (haligned : ∀ a ∈ addresses, a.isPageAligned = true) (hmem : pl.address ∈ addresses)
    {r : Except PagerError (Option PagerError)}
    (run : unmapPages pl.space mapping addresses s = .ok (r, t)) :
    Offers (Label.Unmaps pl.space mapping) pl file ⟨s, none⟩ ⟨t, none⟩ := by
  induction addresses generalizing s r with
  | nil => cases hmem
  | cons first rest ih =>
    obtain ⟨sp, p, f, hs, hp, -⟩ := hsoiled.page h
    obtain ⟨_, _, u, hpage, hrest, -⟩ := unmapPages_cons h hs run
    obtain ⟨-, hmoves, after, hafter⟩ := unmapPage_moves h hs hpage
    have hu := h.moves hmoves
    by_cases hself : first = pl.address
    · subst hself
      have hoffers := (unmapPage_offers h hsoiled hmapping hpage).mono fun l hl => hl.unmaps
      exact hoffers.trans (unmapPages_cases hu hafter hrest).2.1
    · have hfirst := haligned first (List.mem_cons_self ..)
      have hstill : u.Soiled pl file bytes := by
        refine h.soiled_still hmoves hsoiled (fun hl => hl.elim) (fun _ _ hl => hl.elim) ?_
        intro p hp
        have hkey : pl.key = first.pageBase.value := congrArg Place.key hp.1
        rw [Address.pageBase_of_isPageAligned hfirst] at hkey
        exact absurd (congrArg Address.mk hkey.symm) hself
      have hmem := (List.mem_cons.1 hmem).resolve_left (Ne.symm hself)
      have hoffers := ih hu hstill (fun a ha => haligned a (List.mem_cons_of_mem _ ha)) hmem hrest
      exact hoffers.head (hmoves.mono fun l hl => hl.unmaps)

/-- A mapping is unmapped whose record leads to the soiled page. -/
theorem munmap_offers (h : Coherent ⟨s, none⟩) (hn : s.Numbered)
    (hs : s.spaces.get? pl.space = some sp) (hleads : sp.Leads start.value pl.key mapping)
    (hsoiled : s.Soiled pl file bytes) (hmapping : file.mapping = some mapping)
    {r : Except PagerError Unit} (run : munmap pl.space start s = .ok (r, t)) :
    Offers (Label.Dismantles pl.space) pl file ⟨s, none⟩ ⟨t, none⟩ := by
  obtain ⟨record, hrecord, rfl, hrange⟩ := hleads
  obtain ⟨sp', hs', ⟨hnone, -⟩ | ⟨record', failure, addresses, u, v, events, hrecord', haddresses,
    hunrecord, hu, hpages, rfl, -⟩⟩ := munmap_cases h run
  · rw [hs] at hs'
    cases hs'
    rw [hrecord] at hnone
    cases hnone
  · rw [hs] at hs'
    cases hs'
    rw [hrecord] at hrecord'
    cases hrecord'
    have haligned := (hn _ sp hs).aligned start.value record hrecord
    have hkey : pl.key % pageSize = 0 := by
      obtain ⟨p, f, e, hp, -⟩ := hsoiled
      exact (h.linked.keyed hp).2
    obtain ⟨a, ha, hbase⟩ := (exists_address_iff haligned haddresses hkey).2 hrange
    have hself : a = pl.address := by
      rw [Address.pageBase_of_isPageAligned (aligned_of_mem haligned haddresses ha)] at hbase
      exact congrArg Address.mk hbase
    rw [hself] at ha
    have hfirst : Moves (Label.Dismantles pl.space) ⟨s, none⟩ ⟨u, none⟩ := .single hunrecord rfl
    obtain ⟨after, hafter, hsame⟩ := h.soiled_kept hunrecord hsoiled (by simp) (by simp)
    have hoffers := unmapPages_offers (h.move hunrecord) hafter hmapping
      (fun b hb => aligned_of_mem haligned haddresses hb) ha hpages
    have hlast : Moves (Label.Dismantles pl.space) ⟨v, none⟩ ⟨{ v with events }, none⟩ :=
      .single (.note v.evictions events) trivial
    exact ((hoffers.mono fun l hl => hl.dismantles).head hfirst).trans hlast

/-- Other mappings may be unmapped without harm. -/
theorem munmap_soiled (h : Coherent ⟨s, none⟩) (hsoiled : s.Soiled pl file bytes)
    (hother : ∀ sp record, s.spaces.get? id = some sp →
      sp.mappings.get? start.value = some record → file.mapping ≠ some record.id)
    {r : Except PagerError Unit} (run : munmap id start s = .ok (r, t)) :
    t.Soiled pl file bytes := by
  obtain ⟨sp, hs, ⟨-, -, rfl⟩ | ⟨record, failure, addresses, u, v, events, hrecord, haddresses,
    hunrecord, hu, hpages, rfl, -⟩⟩ := munmap_cases h run
  · exact hsoiled
  · obtain ⟨after, hafter, hsame⟩ := h.soiled_kept hunrecord hsoiled (by simp) (by simp)
    rw [hsame (by simp)] at hafter
    have hunmapped := h.move hunrecord
    have hmoves := (unmapPages_cases hunmapped hu hpages).2.1
    have hstill : v.Soiled pl file bytes := by
      refine hunmapped.soiled_still hmoves hafter (fun hl => hl.elim) (fun _ _ hl => hl.elim) ?_
      intro p hp he
      exact hother sp record hs hrecord (he.symm.trans hp.2)
    exact hstill

/-- Whatever else is unmapped before, the turn of the soiled page comes. -/
theorem unmapAll_offers {starts : List VirtualAddress} (h : Coherent ⟨s, none⟩) (hn : s.Numbered)
    (hs : s.spaces.get? pl.space = some sp) (hleads : sp.Leads start.value pl.key mapping)
    (hsoiled : s.Soiled pl file bytes) (hmapping : file.mapping = some mapping)
    (hmem : start ∈ starts) {r : Except PagerError Unit}
    (run : unmapAll pl.space starts s = .ok (r, t)) :
    Offers (Label.Dismantles pl.space) pl file ⟨s, none⟩ ⟨t, none⟩ := by
  induction starts generalizing s sp with
  | nil => cases hmem
  | cons first rest ih =>
    obtain ⟨q, u, events, hmunmap, hrest⟩ := unmapAll_cons run
    have hnote : Moves (Label.Dismantles pl.space) ⟨u, none⟩ ⟨{ u with events }, none⟩ :=
      .single (.note u.evictions events) trivial
    have hmoves := (munmap_moves h hmunmap).1.trans hnote
    have hu := h.moves hmoves
    by_cases hself : first = start
    · subst hself
      have hoffers := munmap_offers h hn hs hleads hsoiled hmapping hmunmap
      obtain ⟨sp', hs', ⟨-, -, rfl⟩ | ⟨record, after, -, ht⟩⟩ := munmap_unmaps h hn hmunmap
      · exact hoffers.trans (hnote.trans (unmapAll_moves hu hs hrest).2.1)
      · have hafter : u.spaces.get? pl.space = some after := by rw [ht, Table.get?_insert_self]
        exact hoffers.trans (hnote.trans (unmapAll_moves hu hafter hrest).2.1)
    · have hne : start.value ≠ first.value := fun he => hself (congrArg Address.mk he.symm)
      have hafter : u.Soiled pl file bytes := by
        refine munmap_soiled h hsoiled (fun sp' record hs' hrecord hid => ?_) hmunmap
        rw [hs] at hs'
        cases hs'
        rw [hmapping] at hid
        exact hne ((hn _ sp hs).eq_of_leads hleads hrecord (Option.some.inj hid).symm).symm
      have hnu : u.Numbered := (munmap_reckons h hmunmap hn).1
      have hmem := (List.mem_cons.1 hmem).resolve_left (Ne.symm hself)
      obtain ⟨sp', hs', ⟨-, -, rfl⟩ | ⟨record, after, hunmaps, ht⟩⟩ := munmap_unmaps h hn hmunmap
      · exact (ih hu hnu hs hleads hafter hmem hrest).head hmoves
      · rw [hs] at hs'
        cases hs'
        have hget : u.spaces.get? pl.space = some after := by rw [ht, Table.get?_insert_self]
        exact (ih hu hnu hget (hunmaps.leads hne hleads) hafter hmem hrest).head hmoves

/-- A space ends, and its records lead to the soiled page. -/
theorem teardown_offers (h : Coherent ⟨s, none⟩) (hn : s.Numbered)
    (hs : s.spaces.get? pl.space = some sp) (hleads : sp.Leads start.value pl.key mapping)
    (hsoiled : s.Soiled pl file bytes) (hmapping : file.mapping = some mapping)
    {r : Except PagerError Unit} (run : teardown pl.space s = .ok (r, t)) :
    Offers (Label.Clears pl.space) pl file ⟨s, none⟩ ⟨t, none⟩ := by
  obtain ⟨-, sp', u, hs', hunmap, hmoves, -⟩ := teardown_cases h run
  rw [hs] at hs'
  cases hs'
  have hmem : start ∈ sp.mappings.keys.map fun key => (⟨key⟩ : VirtualAddress) := by
    obtain ⟨record, hrecord, -⟩ := hleads
    refine List.mem_map.2 ⟨start.value, ?_, rfl⟩
    rw [← Table.contains_iff, Table.contains, hrecord]
    rfl
  have hoffers := unmapAll_offers h hn hs hleads hsoiled hmapping hmem hunmap
  exact (hoffers.mono fun l hl => hl.clears).trans hmoves

/-- The operation removes the very page. -/
def Discards (pl : Place) (op : Op) : Prop :=
  ∃ address, op = .onSpace pl.space address .remove ∧ Place.of pl.space ⟨address⟩ = pl

/-- No operation loses what was stored to a page of a mapping: the page stays as dirty as it is, or
its file is asked to take it, unless it is the page that is to be removed. -/
def Saves (s : Machine) : Prop :=
  ∀ op r t, step op s = .ok (r, t) → ∀ pl file bytes, s.Soiled pl file bytes →
    file.mapping.isSome = true → Discards pl op ∨ (∃ bytes', t.Soiled pl file bytes') ∨
      Offers (op.Makes s) pl file ⟨s, none⟩ ⟨t, none⟩

/-- The record that leads to a page of a mapping. -/
theorem Soiled.leads (hr : s.Recorded) (hsoiled : s.Soiled pl file bytes)
    (hmapping : file.mapping = some mapping) :
    ∃ sp start, s.spaces.get? pl.space = some sp ∧ sp.Leads start pl.key mapping := by
  obtain ⟨p, f, e, hp, hk, -⟩ := hsoiled
  obtain ⟨sp, hs, hget⟩ := exists_space_of_pageAt hp
  have hown : p.mapping = some mapping := by
    rw [Page.mapping, hk]
    exact hmapping
  obtain ⟨start, hleads, -⟩ := hr _ sp hs pl.key p mapping hget hown
  exact ⟨sp, start, hs, hleads⟩

theorem munmap_saves (h : Coherent ⟨s, none⟩) (hn : s.Numbered) (hr : s.Recorded)
    (hsoiled : s.Soiled pl file bytes) (hmapping : file.mapping = some mapping)
    {r : Except PagerError Unit} (run : munmap id start s = .ok (r, t)) :
    (∃ bytes', t.Soiled pl file bytes') ∨
      Offers (Label.Dismantles id) pl file ⟨s, none⟩ ⟨t, none⟩ := by
  obtain ⟨sp, first, hs, hleads⟩ := hsoiled.leads hr hmapping
  by_cases hspace : pl.space = id
  · subst hspace
    by_cases hself : start.value = first
    · subst hself
      exact .inr (munmap_offers h hn hs hleads hsoiled hmapping run)
    · refine .inl ⟨bytes, munmap_soiled h hsoiled (fun sp' record hs' hrecord hid => ?_) run⟩
      rw [hs] at hs'
      cases hs'
      rw [hmapping] at hid
      exact hself ((hn _ sp hs).eq_of_leads hleads hrecord (Option.some.inj hid).symm)
  · exact h.soiled_moves (munmap_moves h run).1 hsoiled fun p hp => absurd hp.1 hspace

theorem teardown_saves (h : Coherent ⟨s, none⟩) (hn : s.Numbered) (hr : s.Recorded)
    (hsoiled : s.Soiled pl file bytes) (hmapping : file.mapping = some mapping)
    {r : Except PagerError Unit} (run : teardown id s = .ok (r, t)) :
    (∃ bytes', t.Soiled pl file bytes') ∨
      Offers (Label.Clears id) pl file ⟨s, none⟩ ⟨t, none⟩ := by
  obtain ⟨sp, first, hs, hleads⟩ := hsoiled.leads hr hmapping
  by_cases hspace : pl.space = id
  · subst hspace
    have hleads : sp.Leads (⟨first⟩ : VirtualAddress).value pl.key mapping := hleads
    exact .inr (teardown_offers h hn hs hleads hsoiled hmapping run)
  · exact h.soiled_moves (teardown_moves h run).2.1 hsoiled fun p hp => absurd hp hspace

theorem perform_saves (h : Coherent ⟨s, none⟩) (hn : s.Numbered) (hr : s.Recorded)
    (hsoiled : s.Soiled pl file bytes) (hmapping : file.mapping = some mapping) {op : SpaceOp}
    {r : Except Failure Value} (run : perform id a op s = .ok (r, t)) :
    (op = .remove ∧ Place.of id a = pl) ∨ (∃ bytes', t.Soiled pl file bytes') ∨
      Offers (op.Makes s id a) pl file ⟨s, none⟩ ⟨t, none⟩ := by
  have hmoves := perform_moves h run
  -- whatever takes no page of a mapping away
  have hspares : (∀ p, op.Makes s id a (.unseat pl p) → p.mapping ≠ file.mapping) →
      (op = .remove ∧ Place.of id a = pl) ∨ (∃ bytes', t.Soiled pl file bytes') ∨
        Offers (op.Makes s id a) pl file ⟨s, none⟩ ⟨t, none⟩ :=
    fun hunseat => .inr (h.soiled_moves hmoves hsoiled hunseat)
  cases op with
  | teardown =>
    obtain ⟨q, hq, -⟩ := liftPager_eq_ok.1 run
    exact .inr (teardown_saves h hn hr hsoiled hmapping hq)
  | munmap =>
    obtain ⟨q, hq, -⟩ := liftPager_eq_ok.1 run
    exact .inr (munmap_saves h hn hr hsoiled hmapping hq)
  | remove =>
    by_cases hself : Place.of id a = pl
    · exact .inl ⟨rfl, hself⟩
    · exact hspares fun p ⟨_, hp⟩ => absurd hp.1.symm hself
  | duplicate refuses =>
    refine hspares fun p hp => ?_
    rcases hp with hp | hp
    · exact hp.elim
    · obtain ⟨q, f, e, hq, -⟩ := hsoiled
      have hspace : pl.space = s.nextSpace := hp
      rw [Pager.pageAt, hspace, h.fresh s.nextSpace (Nat.le_refl _), Option.bind_none] at hq
      cases hq
  | pin => exact hspares fun p hp => hp.elim False.elim False.elim
  | fault => exact hspares fun p hp => hp.elim False.elim False.elim
  | touch => exact hspares fun p hp => by rcases hp with hp | hp <;> cases hp
  | registerAnonymous | register | registerSegment | mmap | claim | unpin | lookup | count
  | setStackPointer | copyFrom | copyTo | refuseEntries | lock =>
    exact hspares fun p hp => hp.elim

theorem Recorded.saves (h : Coherent ⟨s, none⟩) (hn : s.Numbered) (hr : s.Recorded) :
    s.Saves := by
  intro op r t run pl file bytes hsoiled hmapping
  obtain ⟨mapping, hmapping⟩ := Option.isSome_iff_exists.1 hmapping
  have hmoves := step_moves h run
  have hspares : (∀ p, ¬ op.Makes s (.unseat pl p)) → Discards pl op ∨
      (∃ bytes', t.Soiled pl file bytes') ∨ Offers (op.Makes s) pl file ⟨s, none⟩ ⟨t, none⟩ :=
    fun hunseat => .inr (h.soiled_moves hmoves hsoiled fun p hp => absurd hp (hunseat p))
  cases op with
  | createSpace => exact hspares fun p hp => by simp [Op.Makes] at hp
  | onSpace id address op =>
    rcases onSpace_cases run with ⟨-, -, hrun⟩ | ⟨-, rfl⟩
    · rcases perform_saves h hn hr hsoiled hmapping hrun with ⟨rfl, rfl⟩ | hsaved
      · exact .inl ⟨address, rfl, rfl⟩
      · exact .inr hsaved
    · exact .inr (.inl ⟨bytes, hsoiled⟩)
  | unlock => exact hspares fun p hp => hp
  | openFile | closeFile | writeFile | switchFile | switchDisk =>
    exact hspares fun p hp => by cases hp

theorem visited_numbered {ops : List Op} (h : Coherent ⟨s, none⟩) (hn : s.Numbered) :
    ∀ u ∈ visited ops s, Coherent ⟨u, none⟩ ∧ u.Numbered := by
  induction ops generalizing s with
  | nil =>
    intro u hu
    cases hu
  | cons op ops ih =>
    intro u hu
    rw [visited] at hu
    cases hstep : step op s with
    | error b =>
      rw [hstep] at hu
      cases hu
    | ok next =>
      rw [hstep] at hu
      have hafter := h.moves (step_moves h hstep)
      have hnumbered := (step_reckons h hstep hn).1
      rcases List.mem_cons.1 hu with rfl | hu
      · exact ⟨hafter, hnumbered⟩
      · exact ih hafter hnumbered u hu

/-- The records lead to all pages of mappings on the whole way if and only if no record is
displaced by a mapping that is made at its start, and as long as they do nothing that was stored
is lost. -/
theorem saves_of_recorded {frames sectors : Nat} {files : List Bytes} {first last : Machine}
    {ops : List Op} {results : List (Except Failure Value)}
    (hboot : boot frames sectors files = .ok first) (hrun : run ops first = .ok (results, last)) :
    ((∀ u ∈ visited ops first, u.Recorded) ↔ displaced ops first = false) ∧
      ∀ u ∈ visited ops first, u.Recorded → u.Saves := by
  have h := boot_coherent hboot
  have hspaces := boot_spaces hboot
  have hn : first.Numbered := fun id sp hs => by
    rw [hspaces] at hs
    cases hs
  have hr : first.Recorded := fun id sp hs => by
    rw [hspaces] at hs
    cases hs
  refine ⟨run_recorded_iff h hn hr hrun, fun u hu hrecorded => ?_⟩
  obtain ⟨hcoherent, hnumbered⟩ := visited_numbered h hn u hu
  exact hrecorded.saves hcoherent hnumbered

/-- A file of two pages is mapped, its second page is stored to, and its first page is removed. -/
def dismantling : List Op := [.createSpace,
  .onSpace 1 0x10000000 (.mmap 8192 true (FileStore.firstHandle 0) 0),
  .onSpace 1 0x10001ff8 (.copyTo (List.replicate 8 0x5a)), .onSpace 1 0x10000000 .remove]

/-- What is left of the mapping is unmapped at its start, and the file is written to once. -/
theorem saves_of_dismantling : ∃ first results last,
    boot 4 64 [List.replicate 8192 0x41] = .ok first ∧
    run (dismantling ++ [.onSpace 1 0x10000000 .munmap]) first = .ok (results, last) ∧
    last.files.files.map File.writes = [1] ∧
    ((∀ u ∈ visited (dismantling ++ [.onSpace 1 0x10000000 .munmap]) first, u.Recorded) ↔
      displaced (dismantling ++ [.onSpace 1 0x10000000 .munmap]) first = false) ∧
    ∀ u ∈ visited (dismantling ++ [.onSpace 1 0x10000000 .munmap]) first, u.Recorded → u.Saves := by
  have hend : (boot 4 64 [List.replicate 8192 0x41] >>= fun first =>
      run (dismantling ++ [.onSpace 1 0x10000000 .munmap]) first >>= fun last =>
        .ok (last.2.files.files.map File.writes)) = .ok [1] := by decide +kernel
  obtain ⟨first, hboot, hend⟩ := except_bind_eq_ok.1 hend
  obtain ⟨⟨results, last⟩, hrun, hend⟩ := except_bind_eq_ok.1 hend
  exact ⟨first, results, last, hboot, hrun, Except.ok.inj hend, saves_of_recorded hboot hrun⟩

/-- A second mapping at the start of the dismantled one takes its record away. No record is left
that leads to the second page, and when the space ends the file is never written to, although the
page was dirty. -/
theorem not_recorded_of_remapping : ∃ first results last results' ended,
    boot 4 64 [List.replicate 8192 0x41] = .ok first ∧
    run (dismantling ++ [.onSpace 1 0x10000000 (.mmap 4096 true (FileStore.firstHandle 0) 0)])
      first = .ok (results, last) ∧
    ¬ last.Recorded ∧
    (last.spaces.get? 1).map (fun sp => sp.directory.has ⟨0x10001000⟩ .dirty) = some true ∧
    run [.onSpace 1 0 .teardown] last = .ok (results', ended) ∧
    ended.files.files.map File.writes = [0] := by
  have hend : (boot 4 64 [List.replicate 8192 0x41] >>= fun first =>
      run (dismantling ++ [.onSpace 1 0x10000000 (.mmap 4096 true (FileStore.firstHandle 0) 0)])
        first >>= fun last => run [.onSpace 1 0 .teardown] last.2 >>= fun ended =>
          .ok (((last.2.spaces.get? 1).bind fun sp => (sp.pages.pages.get? 0x10001000).map fun p =>
            (p.mapping, sp.mappings.values.map Mapping.id)),
            (last.2.spaces.get? 1).map (fun sp => sp.directory.has ⟨0x10001000⟩ .dirty),
            ended.2.files.files.map File.writes)) =
      .ok (some (some 1, [2]), some true, [0]) := by decide +kernel
  obtain ⟨first, hboot, hend⟩ := except_bind_eq_ok.1 hend
  obtain ⟨⟨results, last⟩, hrun, hend⟩ := except_bind_eq_ok.1 hend
  obtain ⟨⟨results', ended⟩, hteardown, hend⟩ := except_bind_eq_ok.1 hend
  obtain ⟨hpage, hrest⟩ := Prod.mk.inj (Except.ok.inj hend)
  obtain ⟨hdirty, hwrites⟩ := Prod.mk.inj hrest
  refine ⟨first, results, last, results', ended, hboot, hrun, fun hr => ?_, hdirty, hteardown,
    hwrites⟩
  obtain ⟨sp, hs, hpage⟩ := Option.bind_eq_some_iff.1 hpage
  obtain ⟨p, hp, hpair⟩ := Option.map_eq_some_iff.1 hpage
  obtain ⟨hmapping, hids⟩ := Prod.mk.inj hpair
  obtain ⟨start, ⟨record, hrecord, hid, -⟩, -⟩ := hr 1 sp hs _ p 1 hp hmapping
  have hmem : record.id ∈ sp.mappings.values.map Mapping.id :=
    List.mem_map_of_mem (Table.mem_values_iff.2 ⟨start, hrecord⟩)
  rw [hids, hid] at hmem
  simp at hmem

end Pager.Machine
