import Pager.Proofs.Custody
import Pager.Proofs.Pinning
import Pager.Proofs.Safety

/-!
What the end of a space gives back. Tearing a space down never fails, not even where its
files refuse to take dirty pages back; whatever its pages held is free afterwards, and
nothing of any other space has changed. Of the handles that the space's mappings opened,
whichever way that went, none is left.
-/
namespace Pager

section

variable {m n : Moment} {l : Label}

/-- Every page of a mapping wants at most a page of its file. -/
def Machine.MapsFit (s : Machine) : Prop :=
  ∀ pl p, s.roster pl = some p → p.mapping.isSome = true → p.readBytes ≤ pageSize

/-- A page of a mapping that is registered wants at most a page of its file. -/
def Label.MapsFit : Label → Prop
  | register _ page => page.mapping.isSome = true → page.readBytes ≤ pageSize
  | _ => True

/-- A page that is filled belongs to no other mapping than before, and wants no more. -/
theorem Transfer.SamePage.mapsFit {p q : Page} (hsame : SamePage p q)
    (hle : q.readBytes ≤ p.readBytes)
    (hp : p.resting.mapping.isSome = true → p.resting.readBytes ≤ pageSize) :
    q.resting.mapping.isSome = true → q.resting.readBytes ≤ pageSize := by
  intro hmapped
  rw [Page.mapping_resting] at hp hmapped
  rw [Page.readBytes_resting] at hp ⊢
  exact Nat.le_trans hle (hp (hsame.adds hmapped ▸ hmapped))

theorem Coherent.mapsFit_moves {kinds : Label → Prop} (h : Coherent m) (hmoves : Moves kinds m n)
    (hl : ∀ l, kinds l → l.MapsFit) (hm : m.machine.MapsFit) : n.machine.MapsFit := by
  refine h.preserves (P := fun n => n.machine.MapsFit) hmoves (fun {l m n} hkind ho hfit hmove => ?_) hm
  refine ho.roster_all_move hmove
    (P := fun _ p => p.mapping.isSome = true → p.readBytes ≤ pageSize)
    Transfer.SamePage.mapsFit (fun pl page he hmapped => ?_) hfit
  rw [Page.mapping_resting] at hmapped
  rw [Page.readBytes_resting]
  have hfits := hl _ hkind
  rw [he] at hfits
  exact hfits hmapped

end

namespace Machine

variable {s t : Machine} {id : SpaceId} {sp : Space} {b : Bug}

theorem MapsFit.page (h : s.MapsFit) {pl : Place} {p : Page}
    (hp : Pager.pageAt s.spaces pl = some p) (hmapped : p.mapping.isSome = true) :
    p.readBytes ≤ pageSize := by
  have hrests := h pl p.resting (roster_of_page hp)
  rw [Page.mapping_resting, Page.readBytes_resting] at hrests
  exact hrests hmapped

/-- The records of mappings lie where they do all along a run. -/
theorem run_lies {ops : List Op} {results : List (Except Failure Value)} {count : Nat}
    (h : Coherent ⟨s, none⟩) (hcounted : s.Each (Space.Counted count))
    (hrun : run ops s = .ok (results, t)) : t.Each Space.Lies := by
  obtain ⟨more, hmore⟩ := run_keep (P := fun u => ∃ more, u.Each (Space.Counted more)) h
    (fun _ _ {_ _ _} hu ⟨_, hmore⟩ hstep => ⟨_, step_counted hu hstep hmore⟩) ⟨count, hcounted⟩ hrun
  exact hmore.mono fun sp hsp => hsp.lies

/-- The pages of mappings and their records in a machine that operations lead to. -/
theorem Reachable.mapsFit (hr : Reachable s) : s.Each Space.Lies ∧ s.MapsFit := by
  have hfits : s.MapsFit := hr.all Transfer.SamePage.mapsFit fun op p hbrings => by
    rw [Page.mapping_resting, Page.readBytes_resting]
    exact hbrings.mapped
  obtain ⟨frames, sectors, files, ops, start, results, hboot, hrun⟩ := hr
  have hcounted : start.Each (Space.Counted 0) := boot_each hboot
  exact ⟨run_lies (boot_coherent hboot) hcounted hrun, hfits⟩

/-- A page that wants at most a page of its file can be unmapped. -/
theorem MapsFit.not_halts {kinds : Label → Prop} (hfits : s.MapsFit) (h : Coherent ⟨s, none⟩)
    (hkinds : ∀ l, kinds l → l.MapsFit) : ¬ Halts kinds id s b := by
  rintro ⟨u, su, mapping, a, hmoves, hsu, hbug⟩
  have hu := h.moves hmoves
  obtain ⟨p, hp, hmapping, hwrite⟩ := unmapPage_bug_cases hu hsu hbug
  obtain ⟨pl, f, fr, hpage, hres, hf, hout⟩ := writeBackIfDirty_bug_cases hu hsu hp hwrite
  obtain ⟨hinit, hslot⟩ := hu.linked.ready hpage hres
  obtain ⟨-, hlt⟩ := Transfer.evict_eq_bug (hu.length_frame hf) hinit hslot hout
  have hstill := h.mapsFit_moves hmoves hkinds hfits
  exact absurd (hstill.page hpage (hmapping ▸ rfl)) (Nat.not_le.2 hlt)

/-- Tearing a space down does not fail, whether its pages can be written back or not. -/
theorem teardown_ok (h : Coherent ⟨s, none⟩) (hs : s.spaces.get? id = some sp) (hlies : sp.Lies)
    (hfits : s.MapsFit) : ∃ t, teardown id s = .ok (.ok (), t) := by
  cases hrun : teardown id s with
  | ok last =>
    obtain ⟨r, t⟩ := last
    obtain ⟨rfl, -⟩ := teardown_moves h hrun
    exact ⟨t, rfl⟩
  | error b =>
    refine absurd (teardown_halts h hs hlies hrun).2 (hfits.not_halts h fun l hl => ?_)
    cases l <;> first | exact hl.elim | trivial

/-- Neither the frames nor the disk are written to when a space is cleared. -/
theorem clears_still {m n : Moment} (h : Coherent m) (hmoves : Moves (Label.Clears id) m n) :
    n.machine.pool.contents = m.machine.pool.contents ∧
      n.machine.swap.disk = m.machine.swap.disk := by
  have hboth := h.keeps hmoves (fun m => (m.machine.pool.contents, m.machine.swap.disk))
    fun hl hc hmove => by
      cases hmove with
      | giveBack _ hback =>
        obtain ⟨-, -, -, -, hcontents, -⟩ := FramePool.giveBack_spec hc.pool hback
        exact congrArg (·, _) hcontents
      | remove _ _ _ hrel =>
        rcases Page.releaseSlot_eq_ok hrel with ⟨n, -, hreleased, -⟩ | ⟨-, rfl, -⟩
        · obtain ⟨_, -, rfl⟩ := SwapTable.release_eq_ok.1 hreleased
          rfl
        · rfl
      | note | request | unseat | unrecord | drop => rfl
      | _ => exact hl.elim
  exact Prod.mk.inj hboth

end Machine

/-- How many pages of the space lie in a frame. -/
def Space.resident (sp : Space) : Nat := sp.pages.pages.values.countP (·.frame.isSome)

/-- How many pages of the space record a slot. -/
def Space.parked (sp : Space) : Nat := sp.pages.pages.values.countP (·.slot.isSome)

/-- The space is gone with all that its pages held, and the others are as before. -/
structure Machine.Released (s t : Machine) (id : SpaceId) (sp : Space) : Prop where
  spaces : ∀ other, t.spaces.get? other = if other = id then none else s.spaces.get? other
  frames : ∀ f fr, t.frames.get? f = some fr ↔
    s.frames.get? f = some fr ∧ ∃ o, fr.owner = some o ∧ o.space ≠ id
  free : ∀ n, n ∈ t.pool.free ↔ n ∈ s.pool.free ∨ ∃ p ∈ sp.pages.pages.values, ∃ f fr,
    p.frame = some f ∧ s.frames.get? f = some fr ∧ fr.address = FramePool.addressOf n
  slots : ∀ n, t.swap.isUsed n = true ↔
    s.swap.isUsed n = true ∧ ∀ p ∈ sp.pages.pages.values, p.slot ≠ some n
  residentFrames : t.stats.residentFrames + sp.resident = s.stats.residentFrames
  freeFrames : t.pool.freeCount = s.pool.freeCount + sp.resident
  swapUsed : t.stats.swapUsed + sp.parked = s.stats.swapUsed
  views : ∀ other osp, other ≠ id → s.spaces.get? other = some osp →
    t.viewPages osp = s.viewPages osp

namespace Machine

variable {s t : Machine} {id : SpaceId} {sp : Space} {b : Bug}

/-- Exactly the frames of other spaces are tracked afterwards, as before. -/
theorem teardown_frames (h : Coherent ⟨s, none⟩) {r : Except PagerError Unit}
    (run : teardown id s = .ok (r, t)) (f : FrameId) (fr : Frame) :
    t.frames.get? f = some fr ↔ s.frames.get? f = some fr ∧ ∃ o, fr.owner = some o ∧ o.space ≠ id := by
  obtain ⟨-, hmoves, hspaces⟩ := teardown_moves h run
  have ht := h.moves hmoves
  have helsewhere : ∀ {pl : Place}, pl.space ≠ id →
      Pager.pageAt t.spaces pl = Pager.pageAt s.spaces pl := by
    intro pl hne
    rw [Pager.pageAt, hspaces, Table.get?_erase, if_neg hne, Pager.pageAt]
  constructor
  · intro hf
    cases ho : fr.owner with
    | none => cases (ht.linked.held_iff hf).1 ho
    | some o =>
      obtain ⟨p, hp, hres⟩ := ht.linked.owner_page hf ho
      have hne : o.space ≠ id := by
        intro he
        rw [Pager.pageAt, hspaces, he, Table.get?_erase, if_pos rfl] at hp
        cases hp
      obtain ⟨gr, -, hg, -⟩ := h.linked.page_frame ((helsewhere hne).symm.trans hp) hres
      have hseat : Seated ⟨s, none⟩ _ p f gr := ⟨(helsewhere hne).symm.trans hp, hres, hg⟩
      cases (teardown_seated h hseat hne run).tracked.symm.trans hf
      exact ⟨hg, o, rfl, hne⟩
  · rintro ⟨hf, o, ho, hne⟩
    obtain ⟨p, hp, hres⟩ := h.linked.owner_page hf ho
    have hseat : Seated ⟨s, none⟩ _ p f fr := ⟨hp, hres, hf⟩
    exact (teardown_seated h hseat hne run).tracked

/-- The contents of a page lie where they lay, if its frame is tracked as before. -/
theorem contents?_congr (hcontents : t.pool.contents = s.pool.contents)
    (hdisk : t.swap.disk = s.swap.disk) {p : Page}
    (hframe : ∀ f, p.frame = some f → t.frames.get? f = s.frames.get? f) :
    t.contents? p = s.contents? p := by
  unfold contents?
  cases hf : p.frame with
  | none =>
    cases p.slot with
    | none => rfl
    | some n =>
      simp only [SwapTable.readPage, hdisk]
  | some f =>
    have hget : t.frames.get f = s.frames.get f := by
      rw [FrameTable.get, FrameTable.get, hframe f hf]
    have hread : ∀ address, t.pool.read address = s.pool.read address := by
      intro address
      rw [FramePool.read, FramePool.read, FramePool.indexOf, FramePool.indexOf, FramePool.size,
        FramePool.size, hcontents]
    simp only [hget, hread]

/-- A page of a space that exists, as one in its table and as one at a place of it. -/
theorem exists_page_iff (hs : s.spaces.get? id = some sp) {P : Page → Prop} :
    (∃ p ∈ sp.pages.pages.values, P p) ↔
      ∃ pl : Place, pl.space = id ∧ ∃ p, Pager.pageAt s.spaces pl = some p ∧ P p := by
  constructor
  · rintro ⟨p, hp, hP⟩
    obtain ⟨key, hp⟩ := Table.mem_values_iff.1 hp
    exact ⟨⟨id, key⟩, rfl, p, (pageAt_of_get? hs key).trans hp, hP⟩
  · rintro ⟨pl, rfl, p, hp, hP⟩
    exact ⟨p, Table.mem_values_iff.2 ⟨pl.key, (pageAt_of_get? hs pl.key).symm.trans hp⟩, hP⟩

/-- Where frames are given up the free ones are those that were free, and these. -/
theorem free_iff_of_frames (h : Coherent ⟨s, none⟩) (ht : Coherent ⟨t, none⟩)
    (hsize : t.pool.size = s.pool.size) {stays : Frame → Prop}
    (hframes : ∀ f fr, t.frames.get? f = some fr ↔ s.frames.get? f = some fr ∧ stays fr) (n : Nat) :
    n ∈ t.pool.free ↔ n ∈ s.pool.free ∨ ∃ f fr, s.frames.get? f = some fr ∧ ¬ stays fr ∧
      fr.address = FramePool.addressOf n := by
  rw [ht.pool.mem_free_iff, h.pool.mem_free_iff, hsize, ← Bool.not_eq_true, ← Bool.not_eq_true]
  constructor
  · rintro ⟨hlt, hnot⟩
    by_cases htaken : s.pool.isTaken n = true
    · obtain ⟨f, fr, hf, ha⟩ := h.backed.taken_frame htaken
      refine .inr ⟨f, fr, hf, fun hstays => hnot ?_, ha⟩
      exact ht.backed.taken_iff.2 ⟨f, fr, (hframes f fr).2 ⟨hf, hstays⟩, ha⟩
    · exact .inl ⟨hlt, htaken⟩
  · rintro (⟨hlt, hnot⟩ | ⟨f, fr, hf, hgone, ha⟩)
    · refine ⟨hlt, fun htaken => hnot ?_⟩
      obtain ⟨g, gr, hg, ha⟩ := ht.backed.taken_frame htaken
      exact h.backed.taken_iff.2 ⟨g, gr, ((hframes g gr).1 hg).1, ha⟩
    · refine ⟨h.pool.lt_of_isTaken (h.backed.taken_iff.2 ⟨f, fr, hf, ha⟩), fun htaken => ?_⟩
      obtain ⟨g, gr, hg, ha'⟩ := ht.backed.taken_frame htaken
      obtain ⟨hg, hstays⟩ := (hframes g gr).1 hg
      obtain rfl := h.backed.address_inj hg hf (ha'.trans ha.symm)
      cases hg.symm.trans hf
      exact hgone hstays

/-- The frames that pages of the space lay in are free, and no others that were not. -/
theorem teardown_free (h : Coherent ⟨s, none⟩) (hs : s.spaces.get? id = some sp)
    {r : Except PagerError Unit} (run : teardown id s = .ok (r, t)) (n : Nat) :
    n ∈ t.pool.free ↔ n ∈ s.pool.free ∨ ∃ p ∈ sp.pages.pages.values, ∃ f fr,
      p.frame = some f ∧ s.frames.get? f = some fr ∧ fr.address = FramePool.addressOf n := by
  obtain ⟨-, hmoves, -⟩ := teardown_moves h run
  rw [free_iff_of_frames h (h.moves hmoves) (h.pool_size_moves hmoves) (teardown_frames h run),
    exists_page_iff hs]
  refine or_congr_right ⟨?_, ?_⟩
  · rintro ⟨f, fr, hf, hgone, ha⟩
    cases ho : fr.owner with
    | none => cases (h.linked.held_iff hf).1 ho
    | some o =>
      obtain ⟨p, hp, hres⟩ := h.linked.owner_page hf ho
      refine ⟨_, ?_, p, hp, f, fr, hres, hf, ha⟩
      by_contra hne
      exact hgone ⟨o, ho, hne⟩
  · rintro ⟨pl, hpl, p, hp, f, fr, hres, hf, ha⟩
    have hseat : Seated ⟨s, none⟩ pl p f fr := ⟨hp, hres, hf⟩
    refine ⟨f, fr, hf, fun ⟨o, ho, hne⟩ => hne ?_, ha⟩
    cases ho.symm.trans (hseat.owner h)
    exact hpl

theorem teardown_slots (h : Coherent ⟨s, none⟩) (hs : s.spaces.get? id = some sp)
    {r : Except PagerError Unit} (run : teardown id s = .ok (r, t)) (n : SwapSlot) :
    t.swap.isUsed n = true ↔
      s.swap.isUsed n = true ∧ ∀ p ∈ sp.pages.pages.values, p.slot ≠ some n := by
  obtain ⟨-, hmoves, hspaces⟩ := teardown_moves h run
  have hslots : ∀ pl : Place, slotsOf (Pager.pageAt t.spaces) pl =
      if pl.space = id then none else slotsOf (Pager.pageAt s.spaces) pl := by
    intro pl
    rw [slotsOf, Pager.pageAt, hspaces, Table.get?_erase]
    split
    · rfl
    · rfl
  rw [(h.moves hmoves).parked.used_iff, h.parked.used_iff]
  constructor
  · rintro ⟨pl, hpl⟩
    rw [hslots] at hpl
    split at hpl
    · cases hpl
    · rename_i hne
      refine ⟨⟨pl, hpl⟩, fun p hp hslot => ?_⟩
      obtain ⟨other, hother, q, hq, hn⟩ :=
        (exists_page_iff (P := (·.slot = some n)) hs).1 ⟨p, hp, hslot⟩
      have hsame : slotsOf (Pager.pageAt s.spaces) other = some n := by
        rw [slotsOf, hq, Option.bind_some, hn]
      exact hne (h.parked.unique hpl hsame ▸ hother)
  · rintro ⟨⟨pl, hpl⟩, hnone⟩
    refine ⟨pl, (hslots pl).trans ?_⟩
    split
    · rename_i hspace
      obtain ⟨p, hp, hn⟩ := Option.bind_eq_some_iff.1 hpl
      obtain ⟨q, hq, hslot⟩ := (exists_page_iff (P := (·.slot = some n)) hs).2
        ⟨pl, hspace, p, hp, hn⟩
      exact absurd hslot (hnone q hq)
    · exact hpl

theorem teardown_released (h : Coherent ⟨s, none⟩) (hs : s.spaces.get? id = some sp)
    {r : Except PagerError Unit} (run : teardown id s = .ok (r, t)) : s.Released t id sp := by
  obtain ⟨-, hmoves, hspaces⟩ := teardown_moves h run
  have ht := h.moves hmoves
  obtain ⟨hcontents, hdisk⟩ := clears_still h hmoves
  have hlive : s.frames.live = sp.resident + t.frames.live := by
    rw [h.live_eq_resident, ht.live_eq_resident]
    exact countP_pages_erase hs hspaces _
  have hused : s.swap.used = sp.parked + t.swap.used := by
    rw [h.used_eq, ht.used_eq]
    exact countP_pages_erase hs hspaces _
  refine {
    spaces := fun other => by rw [hspaces, Table.get?_erase]
    frames := teardown_frames h run
    free := teardown_free h hs run
    slots := teardown_slots h hs run
    residentFrames := (Nat.add_comm ..).trans hlive.symm
    freeFrames := by
      have hsum := h.live_add_free_moves hmoves
      simp only at hsum
      omega
    swapUsed := (Nat.add_comm ..).trans hused.symm
    views := fun other osp hne hother => mapM_congr fun p hp => ?_ }
  have hsame : t.contents? p = s.contents? p := by
    refine contents?_congr hcontents hdisk fun f hf => ?_
    obtain ⟨key, hp⟩ := Table.mem_values_iff.1 hp
    have hpage : Pager.pageAt s.spaces ⟨other, key⟩ = some p := (pageAt_of_get? hother key).trans hp
    obtain ⟨fr, -, hfr, -⟩ := h.linked.page_frame hpage hf
    have hseat : Seated ⟨s, none⟩ ⟨other, key⟩ p f fr := ⟨hpage, hf, hfr⟩
    exact (teardown_seated h hseat hne run).tracked.trans hfr.symm
  rw [viewPage, viewPage, hsame]

/-- A machine without spaces has nothing in use. -/
theorem stats_of_no_space (h : Coherent ⟨s, none⟩) (hnone : ∀ id, s.spaces.get? id = none) :
    s.stats.residentFrames = 0 ∧ s.stats.swapUsed = 0 ∧ s.pool.freeCount = s.pool.size := by
  have hpages : s.pages = [] := by
    refine List.eq_nil_iff_forall_not_mem.2 fun p hp => ?_
    obtain ⟨pl, hp⟩ := mem_pages_iff.1 hp
    rw [Pager.pageAt, hnone] at hp
    cases hp
  have hlive : s.frames.live = 0 := by rw [h.live_eq_resident, hpages, List.countP_nil]
  have hused : s.swap.used = 0 := by rw [h.used_eq, hpages, List.countP_nil]
  refine ⟨hlive, hused, ?_⟩
  rw [← h.live_add_free, hlive, Nat.zero_add]

theorem boot_size {frames sectors : Nat} {files : List Bytes}
    (hboot : boot frames sectors files = .ok s) : s.pool.size = frames := by
  obtain ⟨pool, hpool, hboot⟩ := except_bind_eq_ok.1 hboot
  obtain ⟨disk, -, hboot⟩ := except_bind_eq_ok.1 hboot
  cases hboot
  obtain ⟨-, rfl⟩ := FramePool.ofSize_eq_ok.1 hpool
  exact List.length_replicate

/-- Tearing a space down succeeds, gives back what its pages held and nothing else, and closes
the handles of its mappings; and when all spaces are gone all frames and slots are free. -/
theorem teardown_releases {frames sectors : Nat} {files : List Bytes} {ops : List Op}
    {start : Machine} {results : List (Except Failure Value)}
    (hboot : boot frames sectors files = .ok start) (hrun : run ops start = .ok (results, s)) :
    (∀ id sp, s.spaces.get? id = some sp → ∃ t, teardown id s = .ok (.ok (), t) ∧
      s.Released t id sp ∧ ∀ own ∈ opened id ops start, own ∉ t.references) ∧
    ((∀ id, s.spaces.get? id = none) →
      s.stats.residentFrames = 0 ∧ s.stats.swapUsed = 0 ∧ s.pool.freeCount = frames) := by
  have hstart := boot_coherent hboot
  have hmoves := run_moves hstart hrun
  have h := hstart.moves hmoves
  refine ⟨fun id sp hs => ?_, fun hnone => ?_⟩
  · have hr : Reachable s := ⟨frames, sectors, files, ops, start, results, hboot, hrun⟩
    obtain ⟨hlies, hfits⟩ := hr.mapsFit
    obtain ⟨t, hteardown⟩ := teardown_ok h hs (hlies id sp hs) hfits
    have hreleased := teardown_released h hs hteardown
    refine ⟨t, hteardown, hreleased, fun own hown => ?_⟩
    have hreserved := (run_opened hstart (boot_custody hboot) hrun).2 own hown
    have hafter : (Custody.reserving own id).Holds t :=
      hreserved.moves h (teardown_moves h hteardown).2.1 fun l hl => by
        cases l <;> first | exact hl.elim | trivial
    exact hafter.unreferenced ((hreleased.spaces id).trans (if_pos rfl))
  · obtain ⟨hlive, hused, hfree⟩ := stats_of_no_space h hnone
    refine ⟨hlive, hused, hfree.trans ?_⟩
    rw [← boot_size hboot]
    exact hstart.pool_size_moves hmoves

/-- The first space maps a file, stores to it and claims another page, for which the page of the
second space has to go; from then on the file takes nothing. -/
def departing : List Op := [.createSpace, .createSpace,
  .onSpace 2 0x10000 (.registerAnonymous true), .onSpace 2 0x10000 .claim,
  .onSpace 1 0x10000 (.mmap 4096 true ⟨0, 0⟩ 0), .onSpace 1 0x10000 (.copyTo [7]),
  .switchFile ⟨0, 0⟩ { failWrites := some fun _ => true },
  .onSpace 1 0x20000 (.registerAnonymous true), .onSpace 1 0x20000 .claim]

/-- The file refuses the dirty page, and both frames are free all the same; the slot of the second
space's page stays in use, and only the handle that the mapping opened is closed. -/
theorem teardown_releases_of_departing : ∃ start results s sp t,
    boot 2 16 [[1, 2, 3]] = .ok start ∧ run departing start = .ok (results, s) ∧
    s.spaces.get? 1 = some sp ∧ sp.resident = 2 ∧ teardown 1 s = .ok (.ok (), t) ∧
    s.Released t 1 sp ∧ t.files.calls.map (·.outcome.toBool) = [false] ∧
    t.stats = { residentFrames := 0, evictions := 1, swapUsed := 1, swapCapacity := 2 } ∧
    t.pool.freeCount = 2 ∧ opened 1 departing start = [⟨0, 1⟩] ∧ ⟨0, 1⟩ ∉ t.references := by
  have hend : (boot 2 16 [[1, 2, 3]] >>= fun start => run departing start >>= fun last =>
      teardown 1 last.2 >>= fun gone => .ok ((last.2.spaces.get? 1).map Space.resident,
        gone.2.files.calls.map (·.outcome.toBool), gone.2.stats, opened 1 departing start,
        last.2.pool.freeCount)) =
      .ok (some 2, [false],
        { residentFrames := 0, evictions := 1, swapUsed := 1, swapCapacity := 2 }, [⟨0, 1⟩], 0) := by
    decide +kernel
  obtain ⟨start, hboot, hend⟩ := except_bind_eq_ok.1 hend
  obtain ⟨⟨results, s⟩, hrun, hend⟩ := except_bind_eq_ok.1 hend
  obtain ⟨⟨r, t⟩, hgone, hend⟩ := except_bind_eq_ok.1 hend
  obtain ⟨hresident, hrest⟩ := Prod.mk.inj (Except.ok.inj hend)
  obtain ⟨hcalls, hrest⟩ := Prod.mk.inj hrest
  obtain ⟨hstats, hrest⟩ := Prod.mk.inj hrest
  obtain ⟨hopened, hfree⟩ := Prod.mk.inj hrest
  obtain ⟨sp, hs, htwo⟩ := Option.map_eq_some_iff.1 hresident
  obtain ⟨u, hteardown, hreleased, hclosed⟩ := (teardown_releases hboot hrun).1 1 sp hs
  cases hgone.symm.trans hteardown
  refine ⟨start, results, s, sp, t, hboot, hrun, hs, htwo, hteardown, hreleased, hcalls, hstats,
    ?_, hopened, hclosed _ ?_⟩
  · rw [hreleased.freeFrames, hfree, htwo]
  · rw [hopened]
    exact List.mem_singleton_self _

end Machine
end Pager
