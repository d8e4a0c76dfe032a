import Pager.Proofs.Reachability

/-!
Pages, frames, translations and swap slots agree. Three structures speak of a
resident page: the page names its frame, the frame names its page, and the
directory translates the page's address to the frame's. A fourth, the pool, says
which frames are handed out at all. A page that is not resident may have its
contents in a swap slot, and then no other page has them there.
-/
namespace Pager.Machine

/-- The page registered at the page that holds `a`. -/
def page? (s : Machine) (id : SpaceId) (a : VirtualAddress) : Option Page :=
  (s.spaces.get? id).bind fun sp => sp.pages.get? a

/-- The directory entry for `a`. -/
def entry? (s : Machine) (id : SpaceId) (a : VirtualAddress) : Option (PageEntry .emulated) :=
  (s.spaces.get? id).bind fun sp => sp.directory.get? a

/-- Where the processor finds `a` in physical memory. -/
def translate (s : Machine) (id : SpaceId) (a : VirtualAddress) : Option PhysicalAddress :=
  (s.spaces.get? id).bind fun sp => sp.directory.frameAt? a

/-- The page of an owner lies in the frame. -/
def LiesIn (s : Machine) (o : Owner) (f : FrameId) : Prop :=
  ∃ p, s.page? o.space o.page = some p ∧ p.address = o.page ∧ p.frame = some f

/-- The page of an owner records the slot. -/
def Records (s : Machine) (o : Owner) (n : SwapSlot) : Prop :=
  ∃ p, s.page? o.space o.page = some p ∧ p.address = o.page ∧ p.slot = some n

structure Agrees (s : Machine) : Prop where
  frame_owner : ∀ {id a p}, s.page? id a = some p → ∀ f, p.frame = some f ↔
    ∃ fr, s.frames.get? f = some fr ∧ fr.owner = some ⟨id, p.address⟩
  frame_translation : ∀ {id a p}, s.page? id a = some p → ∀ f, p.frame = some f ↔
    ∃ fr, s.frames.get? f = some fr ∧ s.translate id p.address = some fr.address
  writable : ∀ {id a p e}, s.page? id a = some p → s.entry? id p.address = some e →
    e.flags.has .writable = p.writable
  entry_page : ∀ {id a e}, s.entry? id a = some e → ∃ f, s.LiesIn ⟨id, a⟩ f
  frame_bound : ∀ {f fr}, s.frames.get? f = some fr → ∃! o, s.LiesIn o f
  address_inj : ∀ {f g fr gr}, s.frames.get? f = some fr → s.frames.get? g = some gr →
    fr.address = gr.address → f = g
  allocated_iff : ∀ address, (∃ f fr, s.frames.get? f = some fr ∧ fr.address = address) ↔
    ∃ n, s.pool.allocated[n]? = some true ∧ address = FramePool.addressOf n
  live_add_free : s.frames.live + s.pool.freeCount = s.pool.size
  live_eq : s.frames.live = s.frames.liveIds.length
  settled : ∀ {id a p}, s.page? id a = some p → p.frame.isSome = true →
    p.isInitialized = true ∧ p.slot = none

/-- Slots are in use exactly as far as pages record them. -/
structure SlotsKept (s : Machine) : Prop where
  used_iff : ∀ n, s.swap.isUsed n = true ↔ ∃! o, s.Records o n
  unique : ∀ {o o' n}, s.Records o n → s.Records o' n → o = o'
  parked : ∀ {id a p n}, s.page? id a = some p → p.slot = some n →
    p.type = .anonymous ∧ p.frame = none
  swapUsed_eq : s.stats.swapUsed = s.pages.countP fun p => p.slot.isSome

variable {s : Machine} {id : SpaceId} {a : VirtualAddress} {pl : Place} {p : Page}

theorem page?_eq : s.page? id a = Pager.pageAt s.spaces (.of id a) := rfl

theorem page?_address (hk : pl.key % pageSize = 0) :
    s.page? pl.space pl.address = Pager.pageAt s.spaces pl := by
  rw [page?_eq, Place.of_address hk]

theorem pageAt_of_page? (hp : s.page? id a = some p) :
    Pager.pageAt s.spaces (.of id a) = some p := hp

theorem address_of_page? (h : Coherent ⟨s, none⟩) (hp : s.page? id a = some p) :
    p.address = a.pageBase := (h.linked.keyed (pageAt_of_page? hp)).1

theorem translate_eq : s.translate id a = (s.entry? id a).bind PageEntry.frame? := by
  unfold translate entry?
  cases s.spaces.get? id with
  | none => rfl
  | some sp => rfl

/-- The owner of a page that is registered at its own address names its place. -/
theorem exists_owner_iff (h : Coherent ⟨s, none⟩) {o : Owner} {P : Page → Prop} :
    (∃ p, s.page? o.space o.page = some p ∧ p.address = o.page ∧ P p) ↔
      ∃ pl p, o = pl.owner ∧ Pager.pageAt s.spaces pl = some p ∧ P p := by
  constructor
  · rintro ⟨p, hp, ha, hP⟩
    refine ⟨.of o.space o.page, p, ?_, hp, hP⟩
    have haddress := address_of_page? h hp
    show o = ⟨o.space, o.page.pageBase⟩
    rw [← haddress, ha]
  · rintro ⟨pl, p, rfl, hp, hP⟩
    obtain ⟨ha, hk⟩ := h.linked.keyed hp
    exact ⟨p, (page?_address hk).trans hp, ha, hP⟩

/-- Pages, frames and translations agree at every moment between two operations. -/
theorem Reachable.agrees (hr : Reachable s) : s.Agrees := by
  have h := hr.coherent
  refine ⟨?_, ?_, ?_, ?_, ?_, h.backed.address_inj, ?_, h.live_add_free, ?_, ?_⟩
  · intro id a p hp f
    have hpl := pageAt_of_page? hp
    rw [address_of_page? h hp]
    constructor
    · intro hf
      obtain ⟨fr, -, hfr, ho, -⟩ := h.linked.page_frame hpl hf
      exact ⟨fr, hfr, ho⟩
    · rintro ⟨fr, hfr, ho⟩
      obtain ⟨q, hq, hf⟩ := h.linked.owner_page hfr ho
      have hsame : Pager.pageAt s.spaces (.of id a) = some q := hq
      rw [hpl] at hsame
      cases hsame
      exact hf
  · intro id a p hp f
    have hpl := pageAt_of_page? hp
    have hentry : s.entry? id a.pageBase = Pager.entryAt s.spaces (.of id a) := rfl
    rw [address_of_page? h hp, translate_eq, hentry]
    constructor
    · intro hf
      obtain ⟨fr, e, hfr, -, he, hshows⟩ := h.linked.page_frame hpl hf
      refine ⟨fr, hfr, ?_⟩
      rw [show Pager.entryAt s.spaces (.of id a) = some e from he]
      exact hshows.1
    · rintro ⟨fr, hfr, htranslate⟩
      obtain ⟨e, he, haddress⟩ := Option.bind_eq_some_iff.1 htranslate
      obtain ⟨q, g, hq, hg⟩ := h.linked.entry_page he
      have hsame : Pager.pageAt s.spaces (.of id a) = some q := hq
      rw [hpl] at hsame
      cases hsame
      obtain ⟨gr, e', hgr, -, he', hshows⟩ := h.linked.page_frame hpl hg
      have hsame : Pager.entryAt s.spaces (.of id a) = some e' := he'
      rw [he] at hsame
      cases hsame
      have hframe : some gr.address = some fr.address := hshows.1.symm.trans haddress
      rw [hg, h.backed.address_inj hgr hfr (Option.some.inj hframe)]
  · intro id a p e hp he
    have hpl := pageAt_of_page? hp
    rw [address_of_page? h hp] at he
    have he : Pager.entryAt s.spaces (.of id a) = some e := he
    obtain ⟨q, f, hq, hf⟩ := h.linked.entry_page he
    have hsame : Pager.pageAt s.spaces (.of id a) = some q := hq
    rw [hpl] at hsame
    cases hsame
    obtain ⟨fr, e', -, -, he', hshows⟩ := h.linked.page_frame hpl hf
    have hsame : Pager.entryAt s.spaces (.of id a) = some e' := he'
    rw [he] at hsame
    cases hsame
    exact hshows.2
  · intro id a e he
    have he : Pager.entryAt s.spaces ⟨id, a.value⟩ = some e := he
    obtain ⟨p, f, hp, hf⟩ := h.linked.entry_page he
    exact ⟨f, (exists_owner_iff h).2 ⟨⟨id, a.value⟩, p, rfl, hp, hf⟩⟩
  · intro f fr hf
    have hbound : fr.owner ≠ none := by
      intro ho
      cases (h.linked.held_iff hf).1 ho
    obtain ⟨o, ho⟩ := Option.ne_none_iff_exists'.1 hbound
    obtain ⟨p, hp, hres⟩ := h.linked.owner_page hf ho
    have hlies : s.LiesIn o f := (exists_owner_iff h).2 ⟨⟨o.space, o.page.value⟩, p, rfl, hp, hres⟩
    refine ⟨o, hlies, fun o' hlies' => ?_⟩
    obtain ⟨pl', p', rfl, hp', hres'⟩ := (exists_owner_iff h).1 hlies'
    obtain ⟨gr, -, hgr, ho', -⟩ := h.linked.page_frame hp' hres'
    rw [hf] at hgr
    cases hgr
    rw [ho] at ho'
    exact (Option.some.inj ho').symm
  · intro address
    have htaken : ∀ n, s.pool.allocated[n]? = some true ↔ s.pool.isTaken n = true := by
      intro n
      simp [FramePool.isTaken]
    constructor
    · rintro ⟨f, fr, hf, rfl⟩
      obtain ⟨n, hn, ha⟩ := h.backed.address_taken hf
      exact ⟨n, (htaken n).2 hn, ha⟩
    · rintro ⟨n, hn, rfl⟩
      exact h.backed.taken_frame ((htaken n).1 hn)
  · exact h.frames.length_liveIds.symm
  · intro id a p hp hres
    obtain ⟨f, hf⟩ := Option.isSome_iff_exists.1 hres
    exact h.linked.ready (pageAt_of_page? hp) hf

/-- One page is claimed on a machine of one frame. -/
theorem agrees_of_claim : ∃ s, Reachable s ∧ s.Agrees ∧
    (s.page? 1 ⟨0x10000⟩).bind Page.frame = some 0 := by
  have hreachable : ∃ s, Reachable s ∧ (s.page? 1 ⟨0x10000⟩).bind Page.frame = some 0 :=
    ⟨_, ⟨1, 8, [], [.createSpace, .onSpace 1 0x10000 (.registerAnonymous true),
      .onSpace 1 0x10000 .claim], _, _, rfl, rfl⟩, rfl⟩
  obtain ⟨s, hs, hframe⟩ := hreachable
  exact ⟨s, hs, hs.agrees, hframe⟩

/-- Swap slots are neither leaked nor shared. -/
theorem Reachable.slotsKept (hr : Reachable s) : s.SlotsKept := by
  have h := hr.coherent
  have hunique : ∀ {o o' n}, s.Records o n → s.Records o' n → o = o' := by
    intro o o' n hrecords hrecords'
    obtain ⟨pl, p, rfl, hp, hn⟩ := (exists_owner_iff h).1 hrecords
    obtain ⟨pl', p', rfl, hp', hn'⟩ := (exists_owner_iff h).1 hrecords'
    refine congrArg Place.owner (h.parked.unique (n := n) ?_ ?_)
    · rw [slotsOf, show Pager.pageAt s.spaces pl = some p from hp, Option.bind_some, hn]
    · rw [slotsOf, show Pager.pageAt s.spaces pl' = some p' from hp', Option.bind_some, hn']
  refine ⟨fun n => ?_, hunique, fun {id a p n} hp hn => ⟨?_, ?_⟩, h.used_eq⟩
  · refine (h.parked.used_iff n).trans ⟨?_, ?_⟩
    · rintro ⟨pl, hslot⟩
      obtain ⟨p, hp, hn⟩ := Option.bind_eq_some_iff.1 hslot
      have hrecords : s.Records pl.owner n := (exists_owner_iff h).2 ⟨pl, p, rfl, hp, hn⟩
      exact ⟨pl.owner, hrecords, fun o ho => hunique ho hrecords⟩
    · rintro ⟨o, hrecords, -⟩
      obtain ⟨pl, p, -, hp, hn⟩ := (exists_owner_iff h).1 hrecords
      exact ⟨pl, Option.bind_eq_some_iff.2 ⟨p, hp, hn⟩⟩
  · unfold Page.slot at hn
    split at hn
    · rename_i hkind
      rw [Page.type, hkind]
    · cases hn
  · by_contra hcon
    obtain ⟨f, hf⟩ := Option.ne_none_iff_exists'.1 hcon
    have hready := (h.linked.ready (pageAt_of_page? hp) hf).2
    rw [hn] at hready
    cases hready

/-- Two pages are claimed on a machine of one frame, so that the first is moved out. -/
theorem slotsKept_of_eviction : ∃ s, Reachable s ∧ s.SlotsKept ∧ s.Records ⟨1, ⟨0x10000⟩⟩ 0 := by
  have hend : (boot 1 8 [] >>= fun start => run [.createSpace,
      .onSpace 1 0x10000 (.registerAnonymous true), .onSpace 1 0x11000 (.registerAnonymous true),
      .onSpace 1 0x10000 .claim, .onSpace 1 0x11000 .claim] start >>= fun last =>
      .ok ((last.2.page? 1 ⟨0x10000⟩).map fun p => (p.address, p.slot))) =
      .ok (some (⟨0x10000⟩, some 0)) := by decide +kernel
  obtain ⟨start, hboot, hend⟩ := except_bind_eq_ok.1 hend
  obtain ⟨⟨results, s⟩, hrun, hend⟩ := except_bind_eq_ok.1 hend
  have hs : Reachable s := ⟨1, 8, [], _, start, results, hboot, hrun⟩
  obtain ⟨p, hp, hpair⟩ := Option.map_eq_some_iff.1 (Except.ok.inj hend)
  exact ⟨s, hs, hs.slotsKept, p, hp, congrArg Prod.fst hpair, congrArg Prod.snd hpair⟩

end Pager.Machine
