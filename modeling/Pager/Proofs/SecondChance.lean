import Pager.Proofs.Clock
import Pager.Proofs.Safety

/-!
Which page has to go. The hand takes the first frame whose page can be moved out and was
not accessed; if all of those were accessed, their bits are clear after one round, and in
the second round the hand takes the first of them. Two rounds and one step are therefore
enough, and a search that finds nothing has come to every frame while its bit was clear.
-/
namespace Pager

open Function

namespace Machine

variable {s t u : Machine} {pl : Place} {f : FrameId} {fr : Frame} {fs rest : List FrameId}
  {steps : Nat} {full : Bool}

/-- The frame that the hand is to stop at. -/
def victim? (s : Machine) : Option FrameId :=
  (s.frames.ring.find? s.due).or (s.frames.ring.find? s.evictable)

/-- The frames that the hand passes over: those before the first that is due, or all. -/
def passed (s : Machine) : List FrameId :=
  if s.frames.ring.any s.due then s.frames.ring.takeWhile (fun f => !s.due f) else s.frames.ring

/-- The pages that are passed over lose their accessed bits, and no other entry changes. -/
def Clears (s t : Machine) (pl : Place) : Prop :=
  t.entryAt pl = if pl ∈ s.passed.filterMap s.candidate
    then (s.entryAt pl).map PageEntry.unaccessed else s.entryAt pl

/-- The page at `pl` was moved out of `f`, and no other. -/
structure Reclaims (s t : Machine) (f : FrameId) (pl : Place) : Prop where
  candidate : s.candidate f = some pl
  page : ∃ p q, s.pageAt pl = some p ∧ p.frame = some f ∧ q.frame = none ∧
    q.resting = p.resting ∧ t.pageAt = update s.pageAt pl (some q)
  frame : ∃ fr, s.frames.get? f = some fr ∧
    t.frames.get? = update s.frames.get? f (some { fr with owner := none, pinned := false })
  evictions : t.evictions = s.evictions + 1
  hand : t.frames.hand = f + 1
  gone : t.entryAt pl = none
  entries : ∀ other, other ≠ pl → s.Clears t other

/-- No page was moved out. -/
structure Spares (s t : Machine) : Prop where
  pages : t.pageAt = s.pageAt
  frames : t.frames.get? = s.frames.get?
  evictions : t.evictions = s.evictions
  entries : ∀ pl, s.Clears t pl

theorem candidate?_eq (hf : s.frames.get? f = some fr) :
    candidate? f s = .ok (.ok ((s.candidate f).map Place.owner), s) := by
  unfold candidate? candidate
  rw [Action.get_bind, Action.liftM_bind_eq_ok]
  refine ⟨fr, FrameTable.get_eq_ok.2 hf, ?_⟩
  rw [hf, Option.bind_some]
  cases hp : fr.pinned with
  | true => rfl
  | false =>
    rw [if_neg (by decide), if_neg (by decide)]
    cases ho : fr.owner with
    | none => rfl
    | some owner =>
      dsimp only
      rw [Option.bind_some]
      unfold free
      cases hs : s.spaces.get? owner.space with
      | none => rfl
      | some sp =>
        cases hb : sp.busy with
        | true => simp [hb, Action.pure_apply]
        | false => simp [hb, Action.pure_apply, Place.owner, Place.address]

/-- A page that was accessed gets a second chance. -/
theorem tryVictim_of_accessed (hc : s.candidate f = some pl) (ha : s.accessed pl = true) :
    tryVictim f pl.owner s = .ok (.ok false, { s with
      spaces := s.spaces.modify pl.space fun sp =>
        { sp with directory := sp.directory.set pl.address .accessed false } }) := by
  obtain ⟨fr, -, -, -, hfree⟩ := candidate_eq_some_iff.1 hc
  obtain ⟨sp, hs, -⟩ := exists_space_of_free hfree
  rw [accessed_eq hs] at ha
  unfold tryVictim
  rw [Place.space_owner, Place.page_owner, space_bind hs, if_pos ha, modifyDirectory,
    modifySpace_bind]
  rfl

/-- A page that was not accessed is moved out, or there is no slot for it, or a device fails. -/
theorem tryVictim_of_unaccessed (h : Coherent ⟨s, none⟩) (hfits : s.Fits)
    (hc : s.candidate f = some pl) (ha : s.accessed pl = false) :
    ∃ r t, tryVictim f pl.owner s = .ok (r, t) ∧
      ((s.movable pl = false ∧ r = .error .swapExhausted ∧ t = s) ∨
        s.movable pl = true ∧ ((∃ e, r = .error (.store e)) ∨
          r = .ok true ∧ Move (.evict pl) ⟨s, none⟩ ⟨t, some f⟩)) := by
  obtain ⟨fr, hf, -, ho, hfree⟩ := candidate_eq_some_iff.1 hc
  obtain ⟨sp, hs, -⟩ := exists_space_of_free hfree
  cases hrun : tryVictim f pl.owner s with
  | error b =>
    have hover := tryVictim_eq_bug h hf ho hrun
    exact absurd hfits (hover.not_fits h fun l hl => by cases l <;> trivial)
  | ok last =>
    obtain ⟨r, t⟩ := last
    refine ⟨r, t, rfl, ?_⟩
    have hmovable : ∀ {p : Page}, sp.pages.pages.get? pl.key = some p → s.movable pl =
        (decide (p.type = .fileBacked) || decide (s.swap.used < s.swap.capacity)) :=
      fun hp => movable_eq (Coherent.pageAt_eq hs hp)
    rcases tryVictim_move h hf ho hrun with
      ⟨rfl, hmove⟩ | ⟨-, ⟨sp', hs', hset⟩, -⟩ | ⟨e, rfl, ⟨sp', p, u, hs', hp, hout, ht⟩, -⟩
    · refine .inr ⟨?_, .inr ⟨rfl, hmove⟩⟩
      cases hmove with
      | @evict _ _ _ fr' sp' p u hf' ho' hs' hp hout =>
        rw [hs] at hs'
        cases hs'
        rw [hmovable hp]
        rcases Transfer.evict_cases hout with ⟨hr, -⟩ | ⟨htype | hfree, -⟩
        · cases hr
        · simp [show p.type = .fileBacked from htype]
        · simp [show s.swap.used < s.swap.capacity from hfree]
    · rw [hs] at hs'
      cases hs'
      rw [accessed_eq hs, hset] at ha
      cases ha
    · rw [hs] at hs'
      cases hs'
      rw [hmovable hp]
      rcases Transfer.evict_cases hout with ⟨hr, rfl, htype, hfull⟩ | ⟨hroom, hstore⟩
      · cases hr
        have htype : p.type = .anonymous := htype
        have hfull : ¬ s.swap.used < s.swap.capacity := hfull
        exact .inl ⟨by simp [htype, hfull], rfl, ht⟩
      · obtain ⟨e', rfl⟩ := hstore e rfl
        refine .inr ⟨?_, .inl ⟨e', rfl⟩⟩
        rcases hroom with htype | hfree
        · simp [show p.type = .fileBacked from htype]
        · simp [show s.swap.used < s.swap.capacity from hfree]

/-- The hand is turned past a frame. -/
def turned (s : Machine) (f : FrameId) : Machine :=
  { s with frames := { s.frames with hand := f + 1 } }

theorem candidate_turned (s : Machine) (f : FrameId) : (s.turned f).candidate = s.candidate :=
  candidate_congr rfl rfl

theorem coherent_turned (h : Coherent ⟨s, none⟩) (hring : s.frames.ring = f :: rest) :
    Coherent ⟨s.turned f, none⟩ := by
  have hmove : Move .turn ⟨s, none⟩ ⟨{ s with frames := s.frames.advance.2 }, none⟩ := .turn
  rw [(FrameTable.advance_of_ring_cons hring).1] at hmove
  exact h.move hmove

theorem passOver_of_none (hc : s.candidate f = none) : s.passOver f = s.turned f := by
  unfold passOver
  rw [hc]
  rfl

theorem passOver_of_unaccessed (hc : s.candidate f = some pl) (ha : s.accessed pl = false) :
    s.passOver f = s.turned f := by
  unfold passOver
  rw [hc]
  dsimp only
  rw [ha]
  rfl

/-- One step of the search comes to the first frame of the ring. -/
theorem scan_succ (hring : s.frames.ring = f :: rest) :
    scan (steps + 1) full s = match s.candidate f with
      | none => scan steps full (s.turned f)
      | some pl => ((tryVictim f pl.owner).attempt >>= fun q : Except PagerError Bool =>
          match q with
          | .ok true => do
            modify fun s => { s with evictions := s.evictions + 1 }
            report (.evicted pl.address pl.space f)
            return f
          | .ok false => scan steps full
          | .error .swapExhausted => scan steps true
          | .error e => throw e) (s.turned f) := by
  have hlive : (s.frames.get? f).isSome = true := by
    rw [← FrameTable.mem_ring, hring]
    exact List.mem_cons_self ..
  obtain ⟨fr, hf⟩ := Option.isSome_iff_exists.1 hlive
  have hadvance : onFrames (fun frames => .ok frames.advance) s = .ok (.ok (some f), s.turned f) :=
    onFrames_eq_ok.2 ⟨some f, _, congrArg Except.ok (FrameTable.advance_of_ring_cons hring).1, rfl, rfl⟩
  have hcandidate : candidate? f (s.turned f) =
      .ok (.ok ((s.candidate f).map Place.owner), s.turned f) := by
    have hf : (s.turned f).frames.get? f = some fr := hf
    rw [candidate?_eq hf, candidate_turned]
  rw [scan, Action.bind_of_ok hadvance]
  dsimp only
  rw [Action.bind_of_ok hcandidate]
  cases s.candidate f <;> rfl

/-- The hand passes over a frame that is not due. -/
theorem scan_skip (h : Coherent ⟨s, none⟩) (hfits : s.Fits) (hring : s.frames.ring = f :: rest)
    (hdue : s.due f = false) :
    scan (steps + 1) full s = scan steps (full || s.blocked f) (s.passOver f) := by
  rw [scan_succ hring]
  unfold due at hdue
  unfold blocked
  cases hc : s.candidate f with
  | none => rw [passOver_of_none hc, Option.any_none, Bool.or_false]
  | some pl =>
    rw [hc, Option.any_some] at hdue
    dsimp only
    rw [Option.any_some]
    have hturned : (s.turned f).candidate f = some pl := by rw [candidate_turned, hc]
    cases ha : s.accessed pl with
    | true =>
      rw [Action.attempt_bind_of_ok (tryVictim_of_accessed hturned ha)]
      have hpass : s.passOver f = { s.turned f with
          spaces := (s.turned f).spaces.modify pl.space fun sp =>
            { sp with directory := sp.directory.set pl.address .accessed false } } := by
        unfold passOver
        rw [hc]
        dsimp only
        rw [ha]
        rfl
      rw [hpass]
      simp
    | false =>
      have hstuck : s.movable pl = false := by
        rw [ha] at hdue
        simpa using hdue
      obtain ⟨r, t, hrun, ⟨-, rfl, rfl⟩ | ⟨hmovable, -⟩⟩ :=
        tryVictim_of_unaccessed (coherent_turned h hring) hfits hturned ha
      · rw [Action.attempt_bind_of_ok hrun, passOver_of_unaccessed hc ha]
        simp [hstuck]
      · exact absurd (hmovable.symm.trans hstuck) (by decide)

/-- The hand takes a frame that is due. -/
theorem scan_take (h : Coherent ⟨s, none⟩) (hfits : s.Fits) (hring : s.frames.ring = f :: rest)
    (hdue : s.due f = true) :
    ∃ r t, scan (steps + 1) full s = .ok (r, t) ∧ ((∃ e, r = .error (.store e)) ∨
      r = .ok f ∧ ∃ pl u, s.candidate f = some pl ∧
        Move (.evict pl) ⟨s.turned f, none⟩ ⟨u, some f⟩ ∧
        t = { u with
          evictions := u.evictions + 1
          events := .evicted pl.address pl.space f :: u.events }) := by
  rw [scan_succ hring]
  unfold due at hdue
  cases hc : s.candidate f with
  | none =>
    rw [hc] at hdue
    cases hdue
  | some pl =>
    rw [hc, Option.any_some, Bool.and_eq_true, Bool.not_eq_true'] at hdue
    obtain ⟨hmovable, ha⟩ := hdue
    have hturned : (s.turned f).candidate f = some pl := by rw [candidate_turned, hc]
    dsimp only
    obtain ⟨r, t, hrun, ⟨hstuck, -⟩ | ⟨-, ⟨e, rfl⟩ | ⟨rfl, hmove⟩⟩⟩ :=
      tryVictim_of_unaccessed (coherent_turned h hring) hfits hturned ha
    · exact absurd (hmovable.symm.trans hstuck) (by decide)
    · rw [Action.attempt_bind_of_ok hrun]
      exact ⟨_, t, rfl, .inl ⟨e, rfl⟩⟩
    · rw [Action.attempt_bind_of_ok hrun]
      exact ⟨_, _, rfl, .inr ⟨rfl, pl, t, rfl, hmove, rfl⟩⟩

theorem candidate_inj (h : Coherent ⟨s, none⟩) {g : FrameId} (hf : s.candidate f = some pl)
    (hg : s.candidate g = some pl) : f = g := by
  obtain ⟨fr, hfr, -, ho, -⟩ := candidate_eq_some_iff.1 hf
  obtain ⟨gr, hgr, -, ho', -⟩ := candidate_eq_some_iff.1 hg
  obtain ⟨p, hp, hres⟩ := h.linked.owner_page hfr ho
  obtain ⟨q, hq, hres'⟩ := h.linked.owner_page hgr ho'
  rw [hp] at hq
  cases hq
  rw [hres] at hres'
  exact Option.some.inj hres'

/-- A frame that was not swept finds its page as it was. -/
theorem accessed_sweep_of_notMem (h : Coherent ⟨s, none⟩) (hf : f ∉ fs)
    (hc : s.candidate f = some pl) : (s.sweep fs).accessed pl = s.accessed pl := by
  have hnot : pl ∉ fs.filterMap s.candidate := by
    intro hmem
    obtain ⟨g, hg, hcg⟩ := List.mem_filterMap.1 hmem
    exact hf (candidate_inj h hc hcg ▸ hg)
  rw [accessed_sweep, decide_eq_true hnot, Bool.and_true]

theorem accessed_sweep_of_mem (hf : f ∈ fs) (hc : s.candidate f = some pl) :
    (s.sweep fs).accessed pl = false := by
  have hmem : pl ∈ fs.filterMap s.candidate := List.mem_filterMap.2 ⟨f, hf, hc⟩
  rw [accessed_sweep, decide_eq_false (not_not.2 hmem), Bool.and_false]

theorem due_sweep_of_notMem (h : Coherent ⟨s, none⟩) (hf : f ∉ fs) :
    (s.sweep fs).due f = s.due f := by
  unfold due
  rw [candidate_sweep, movable_sweep]
  cases hc : s.candidate f with
  | none => rfl
  | some pl => rw [Option.any_some, Option.any_some, accessed_sweep_of_notMem h hf hc]

/-- After a round every page that can be moved out is due. -/
theorem due_sweep_of_mem (hf : f ∈ fs) : (s.sweep fs).due f = s.evictable f := by
  unfold due evictable
  rw [candidate_sweep, movable_sweep]
  cases hc : s.candidate f with
  | none => rfl
  | some pl =>
    rw [Option.any_some, Option.any_some, accessed_sweep_of_mem hf hc, Bool.not_false, Bool.and_true]

theorem isSome_of_blocked (h : s.blocked f = true) : (s.candidate f).isSome = true := by
  unfold blocked at h
  cases hc : s.candidate f with
  | none =>
    rw [hc] at h
    cases h
  | some pl => rfl

/-- After a round every other page that may be taken is stuck for want of a slot. -/
theorem blocked_sweep_of_mem (hf : f ∈ fs) (he : s.evictable f = false) :
    (s.sweep fs).blocked f = (s.candidate f).isSome := by
  unfold blocked
  unfold evictable at he
  rw [candidate_sweep, movable_sweep]
  cases hc : s.candidate f with
  | none => rfl
  | some pl =>
    rw [hc, Option.any_some] at he
    rw [Option.any_some, accessed_sweep_of_mem hf hc, he]
    rfl

theorem coherent_sweep (h : Coherent ⟨s, none⟩) (hring : s.frames.ring = fs ++ rest) :
    Coherent ⟨s.sweep fs, none⟩ := h.moves (sweep_moves hring)

theorem fits_sweep (hfits : s.Fits) (fs : List FrameId) : (s.sweep fs).Fits := by
  have hpages : Pager.pageAt (s.sweep fs).spaces = Pager.pageAt s.spaces := pageAt_sweep s fs
  unfold Fits
  rw [hpages]
  exact hfits

/-- The hand passes over frames that are not due. -/
theorem scan_sweep (steps : Nat) (full : Bool) (h : Coherent ⟨s, none⟩) (hfits : s.Fits)
    (hring : s.frames.ring = fs ++ rest) (hdue : ∀ f ∈ fs, s.due f = false) :
    ∃ full', scan (fs.length + steps) full s = scan steps full' (s.sweep fs) ∧
      (full' = true → full = true ∨ ∃ f ∈ fs, (s.candidate f).isSome = true) ∧
      ((full = true ∨ ∃ f ∈ fs, s.blocked f = true) → full' = true) := by
  induction fs generalizing s full rest with
  | nil =>
    refine ⟨full, by rw [List.length_nil, Nat.zero_add]; rfl, fun hf => .inl hf, ?_⟩
    rintro (hf | ⟨_, hmem, -⟩)
    · exact hf
    · cases hmem
  | cons f fs ih =>
    have hnotin : f ∉ fs := by
      have hnodup := s.frames.nodup_ring
      rw [hring] at hnodup
      exact fun hmem => (List.nodup_cons.1 hnodup).1 (List.mem_append_left _ hmem)
    have hother : ∀ g ∈ fs, g ∉ [f] := fun g hg hmem => by
      rw [List.mem_singleton] at hmem
      exact hnotin (hmem ▸ hg)
    have hfirst : (s.passOver f).frames.ring = fs ++ (rest ++ [f]) := by
      rw [← List.append_assoc]
      exact (FrameTable.advance_of_ring_cons hring).2
    have hblocked : ∀ g ∈ fs, (s.passOver f).blocked g = s.blocked g := by
      intro g hg
      show (s.sweep [f]).blocked g = s.blocked g
      unfold blocked
      rw [candidate_sweep, movable_sweep]
      cases hc : s.candidate g with
      | none => rfl
      | some pl => rw [Option.any_some, Option.any_some, accessed_sweep_of_notMem h (hother g hg) hc]
    obtain ⟨full', hrun, hsome, htrue⟩ := ih (full || s.blocked f)
      (h.moves (passOver_moves hring)) (fits_sweep hfits [f]) hfirst fun g hg =>
        (due_sweep_of_notMem h (hother g hg)).trans (hdue g (List.mem_cons_of_mem _ hg))
    refine ⟨full', ?_, fun hf => ?_, ?_⟩
    · rw [List.length_cons, Nat.add_right_comm, scan_skip h hfits hring (hdue f (List.mem_cons_self ..)),
        hrun, sweep_cons]
    · rcases hsome hf with hor | ⟨g, hg, hc⟩
      · rcases Bool.or_eq_true_iff.1 hor with hfull | hstuck
        · exact .inl hfull
        · exact .inr ⟨f, List.mem_cons_self .., isSome_of_blocked hstuck⟩
      · rw [candidate_passOver] at hc
        exact .inr ⟨g, List.mem_cons_of_mem _ hg, hc⟩
    · rintro (hfull | ⟨g, hg, hstuck⟩)
      · exact htrue (.inl (by rw [hfull, Bool.true_or]))
      · rcases List.mem_cons.1 hg with rfl | hg
        · exact htrue (.inl (by rw [hstuck, Bool.or_true]))
        · exact htrue (.inr ⟨g, hg, (hblocked g hg).trans hstuck⟩)

theorem passed_of_due (hring : s.frames.ring = fs ++ f :: rest) (hclear : ∀ g ∈ fs, s.due g = false)
    (hdue : s.due f = true) : s.passed = fs := by
  have hany : s.frames.ring.any s.due = true :=
    List.any_eq_true.2 ⟨f, by rw [hring]; simp, hdue⟩
  unfold passed
  rw [if_pos hany, hring, List.takeWhile_append_of_pos fun g hg => by rw [hclear g hg]; rfl,
    List.takeWhile_cons_of_neg (by simp [hdue]), List.append_nil]

theorem passed_of_none (h : ∀ f ∈ s.frames.ring, s.due f = false) : s.passed = s.frames.ring := by
  unfold passed
  rw [if_neg]
  intro hany
  obtain ⟨f, hf, hdue⟩ := List.any_eq_true.1 hany
  rw [h f hf] at hdue
  cases hdue

/-- What moving a page out means, seen from before the frames `fs` were passed over. -/
theorem reclaims_of_evict (h : Coherent ⟨s.sweep fs, none⟩)
    (hpassed : ∀ pl, pl ∈ fs.filterMap s.candidate ↔ pl ∈ s.passed.filterMap s.candidate)
    (hc : s.candidate f = some pl)
    (hmove : Move (.evict pl) ⟨(s.sweep fs).turned f, none⟩ ⟨u, some f⟩) (events : List Event) :
    s.Reclaims { u with evictions := u.evictions + 1, events } f pl := by
  cases hmove with
  | @evict _ _ _ fr sp p t hf ho hs hp hout =>
    have hpage : (s.sweep fs).pageAt pl = some p := Coherent.pageAt_eq hs hp
    obtain ⟨p', hp', hres⟩ := h.linked.owner_page hf ho
    have hframe : p.frame = some f := by
      have hp' : (s.sweep fs).pageAt pl = some p' := hp'
      rw [hpage] at hp'
      cases hp'
      exact hres
    have hresting : ({ t.page with frame := none } : Page).resting = p.resting := by
      cases Transfer.evict_eq_ok hout with
      | parked hkind =>
        have hkind : p.kind = .anonymous none := hkind
        unfold Page.resting
        rw [hkind]
      | filed => rfl
    have hframes : (s.sweep fs).frames.get? = s.frames.get? := frames_sweep s fs
    have hput := (FrameTable.put_spec h.frames (Option.isSome_iff_exists.2 ⟨fr, hf⟩)
      { fr with owner := none, pinned := false }).1
    refine ⟨hc, ⟨p, _, (congrFun (pageAt_sweep s fs) pl).symm.trans hpage, hframe, rfl, hresting, ?_⟩,
      ⟨fr, (congrFun hframes f).symm.trans hf, ?_⟩, ?_, rfl, ?_, fun other hne => ?_⟩
    · rw [← pageAt_sweep s fs]
      exact Coherent.pageAt_put hs _ rfl
    · rw [← hframes]
      exact hput
    · exact congrArg (· + 1) (evictions_sweep s fs)
    · exact (congrFun (Coherent.entryAt_unmap hs rfl) pl).trans (update_self ..)
    · unfold Clears
      rw [← if_congr (hpassed other) rfl rfl, ← entryAt_sweep]
      exact (congrFun (Coherent.entryAt_unmap hs rfl) other).trans (update_of_ne hne ..)

/-- The search has come to the frame that it is to stop at. -/
theorem scan_found (h : Coherent ⟨s.sweep fs, none⟩) (hfits : s.Fits)
    (hring : (s.sweep fs).frames.ring = f :: rest) (hdue : (s.sweep fs).due f = true)
    (hpassed : ∀ pl, pl ∈ fs.filterMap s.candidate ↔ pl ∈ s.passed.filterMap s.candidate) :
    ∃ r t, scan (steps + 1) full (s.sweep fs) = .ok (r, t) ∧
      ((∃ e, r = .error (.store e)) ∨ r = .ok f ∧ ∃ pl, s.Reclaims t f pl) := by
  obtain ⟨r, t, hrun, hio | ⟨hr, pl, u, hc, hmove, rfl⟩⟩ :=
    scan_take h (fits_sweep hfits fs) hring hdue
  · exact ⟨r, t, hrun, .inl hio⟩
  · rw [candidate_sweep] at hc
    exact ⟨r, _, hrun, .inr ⟨hr, pl, reclaims_of_evict h hpassed hc hmove _⟩⟩

/-- What is to come of a search for a frame. -/
def Answers (s t : Machine) (r : Except PagerError FrameId) : Prop :=
  match s.victim? with
  | some f => r = .ok f ∧ ∃ pl, s.Reclaims t f pl
  | none =>
    r = .error (if s.frames.ring.any fun f => (s.candidate f).isSome then .swapExhausted
      else .outOfMemory) ∧ s.Spares t

/-- The first frame that is due is taken in the first round. -/
theorem scan_first (h : Coherent ⟨s, none⟩) (hfits : s.Fits)
    (hfind : s.frames.ring.find? s.due = some f) :
    ∃ r t, scan (2 * s.frames.ring.length + 1) false s = .ok (r, t) ∧
      ((∃ e, r = .error (.store e)) ∨ r = .ok f ∧ ∃ pl, s.Reclaims t f pl) := by
  obtain ⟨hdue, fs, rest, hring, hclear⟩ := List.find?_eq_some_iff_append.1 hfind
  have hclear : ∀ g ∈ fs, s.due g = false := fun g hg => by simpa using hclear g hg
  have hnotin : f ∉ fs := by
    have hnodup := s.frames.nodup_ring
    rw [hring] at hnodup
    exact fun hmem => (List.nodup_append.1 hnodup).2.2 f hmem f (List.mem_cons_self ..) rfl
  have hsteps : 2 * s.frames.ring.length + 1 =
      fs.length + (s.frames.ring.length + rest.length + 1 + 1) := by
    rw [hring, List.length_append, List.length_cons]
    omega
  obtain ⟨full, hrun, -⟩ := scan_sweep (s.frames.ring.length + rest.length + 1 + 1) false h hfits
    hring hclear
  rw [hsteps, hrun]
  refine scan_found (coherent_sweep h hring) hfits (ring_sweep hring)
    ((due_sweep_of_notMem h hnotin).trans hdue) fun pl => ?_
  rw [passed_of_due hring hclear hdue]

/-- After a round without a frame that is due. -/
theorem scan_round (steps : Nat) (h : Coherent ⟨s, none⟩) (hfits : s.Fits)
    (hnone : ∀ f ∈ s.frames.ring, s.due f = false) :
    ∃ full, scan (s.frames.ring.length + steps) false s =
        scan steps full (s.sweep s.frames.ring) ∧
      Coherent ⟨s.sweep s.frames.ring, none⟩ ∧
      (s.sweep s.frames.ring).frames.ring = s.frames.ring ∧
      (full = true → ∃ f ∈ s.frames.ring, (s.candidate f).isSome = true) := by
  have hring : s.frames.ring = s.frames.ring ++ [] := (List.append_nil _).symm
  obtain ⟨full, hrun, hsome, -⟩ := scan_sweep steps false h hfits hring hnone
  refine ⟨full, hrun, coherent_sweep h hring, (ring_sweep hring).trans (List.nil_append _), ?_⟩
  intro hfull
  rcases hsome hfull with hf | hf
  · cases hf
  · exact hf

/-- If every page that can be moved out was accessed, the first of them goes in the second
round. -/
theorem scan_second (h : Coherent ⟨s, none⟩) (hfits : s.Fits)
    (hnone : ∀ f ∈ s.frames.ring, s.due f = false)
    (hfind : s.frames.ring.find? s.evictable = some f) :
    ∃ r t, scan (2 * s.frames.ring.length + 1) false s = .ok (r, t) ∧
      ((∃ e, r = .error (.store e)) ∨ r = .ok f ∧ ∃ pl, s.Reclaims t f pl) := by
  obtain ⟨hevictable, fs, rest, hring, hstuck⟩ := List.find?_eq_some_iff_append.1 hfind
  have hmem : ∀ g ∈ fs, g ∈ s.frames.ring := fun g hg => by rw [hring]; simp [hg]
  have hfmem : f ∈ s.frames.ring := by rw [hring]; simp
  have hsteps : 2 * s.frames.ring.length + 1 =
      s.frames.ring.length + (fs.length + (rest.length + 1 + 1)) := by
    rw [hring, List.length_append, List.length_cons]
    omega
  obtain ⟨full, hrun, hround, hagain, -⟩ := scan_round (fs.length + (rest.length + 1 + 1)) h
    hfits hnone
  have hagain' := hagain.trans hring
  obtain ⟨full', hrun', -⟩ := scan_sweep (rest.length + 1 + 1) full hround
    (fits_sweep hfits _) hagain' fun g hg => by
      rw [due_sweep_of_mem (hmem g hg)]
      simpa using hstuck g hg
  have hdue : (s.sweep (s.frames.ring ++ fs)).due f = true :=
    (due_sweep_of_mem (List.mem_append_left _ hfmem)).trans hevictable
  have hlast : (s.sweep (s.frames.ring ++ fs)).frames.ring = f :: rest ++ fs := by
    rw [sweep_append]
    exact ring_sweep hagain'
  rw [hsteps, hrun, hrun', ← sweep_append]
  refine scan_found ?_ hfits hlast hdue fun pl => ?_
  · rw [sweep_append]
    exact coherent_sweep hround hagain'
  · rw [passed_of_none hnone, List.filterMap_append, List.mem_append, or_iff_left_iff_imp]
    intro hpl
    obtain ⟨g, hg, hc⟩ := List.mem_filterMap.1 hpl
    exact List.mem_filterMap.2 ⟨g, hmem g hg, hc⟩

theorem spares_of_sweep (hpassed : ∀ pl, pl ∈ fs.filterMap s.candidate ↔
      pl ∈ s.passed.filterMap s.candidate) (events : List Event) :
    s.Spares { s.sweep fs with events } where
  pages := pageAt_sweep s fs
  frames := frames_sweep s fs
  evictions := evictions_sweep s fs
  entries pl := (entryAt_sweep s fs pl).trans (if_congr (hpassed pl) rfl rfl)

/-- The last step of a search in vain. -/
theorem scan_last (full : Bool) (h : Coherent ⟨s, none⟩) (hfits : s.Fits)
    (hclear : ∀ f ∈ s.frames.ring, s.due f = false) :
    ∃ fs, (∀ f ∈ fs, f ∈ s.frames.ring) ∧
      scan 1 full s = noVictim (full || fs.any s.blocked) (s.sweep fs) := by
  cases hring : s.frames.ring with
  | nil =>
    have hadvance : onFrames (fun frames => .ok frames.advance) s = .ok (.ok none, s) :=
      onFrames_eq_ok.2 ⟨none, _, congrArg Except.ok (FrameTable.advance_of_ring_nil hring), rfl, rfl⟩
    refine ⟨[], by simp, ?_⟩
    rw [scan, Action.bind_of_ok hadvance, List.any_nil, Bool.or_false]
    rfl
  | cons f rest =>
    have hf : f ∈ s.frames.ring := by rw [hring]; exact List.mem_cons_self ..
    refine ⟨[f], by simp, ?_⟩
    rw [scan_skip h hfits hring (hclear f hf), scan, List.any_cons, List.any_nil, Bool.or_false]
    rfl

/-- If no page can be moved out, two rounds are made in vain. -/
theorem scan_vain (h : Coherent ⟨s, none⟩) (hfits : s.Fits)
    (hstuck : ∀ f ∈ s.frames.ring, s.evictable f = false) :
    ∃ t, scan (2 * s.frames.ring.length + 1) false s = .ok
        (.error (if s.frames.ring.any fun f => (s.candidate f).isSome then .swapExhausted
          else .outOfMemory), t) ∧ s.Spares t := by
  have hnone : ∀ f ∈ s.frames.ring, s.due f = false := fun f hf => by
    have hfalse := hstuck f hf
    unfold evictable at hfalse
    unfold due
    cases hc : s.candidate f with
    | none => rfl
    | some pl =>
      rw [hc, Option.any_some] at hfalse
      rw [Option.any_some, hfalse, Bool.false_and]
  have hsteps : 2 * s.frames.ring.length + 1 =
      s.frames.ring.length + (s.frames.ring.length + 1) := by omega
  obtain ⟨full, hrun, hround, hagain, hsome⟩ := scan_round (s.frames.ring.length + 1) h hfits
    hnone
  have hring : (s.sweep s.frames.ring).frames.ring = s.frames.ring ++ [] :=
    hagain.trans (List.append_nil _).symm
  obtain ⟨full', hrun', hsome', hfull'⟩ := scan_sweep 1 full hround
    (fits_sweep hfits _) hring fun g hg => (due_sweep_of_mem hg).trans (hstuck g hg)
  -- the second round meets every page while its bit is clear, and so learns what is stuck
  have hfull : full' = s.frames.ring.any fun f => (s.candidate f).isSome := by
    rw [Bool.eq_iff_iff, List.any_eq_true]
    constructor
    · intro hf
      rcases hsome' hf with hf | ⟨g, hg, hc⟩
      · exact hsome hf
      · exact ⟨g, hg, by rwa [candidate_sweep] at hc⟩
    · rintro ⟨g, hg, hc⟩
      exact hfull' (.inr ⟨g, hg, (blocked_sweep_of_mem hg (hstuck g hg)).trans hc⟩)
  have hagain' : (s.sweep (s.frames.ring ++ s.frames.ring)).frames.ring = s.frames.ring := by
    rw [sweep_append]
    exact (ring_sweep hring).trans (List.nil_append _)
  have hround' : Coherent ⟨s.sweep (s.frames.ring ++ s.frames.ring), none⟩ := by
    rw [sweep_append]
    exact coherent_sweep hround hring
  have hclear : ∀ f ∈ s.frames.ring,
      (s.sweep (s.frames.ring ++ s.frames.ring)).due f = false := fun f hf =>
    (due_sweep_of_mem (List.mem_append_left _ hf)).trans (hstuck f hf)
  obtain ⟨fs, hfs, hlast⟩ := scan_last full' hround' (fits_sweep hfits _)
    (by rw [hagain']; exact hclear)
  rw [hagain'] at hfs
  -- the step left over comes to a page that was met twice already
  have hover : (full' || fs.any (s.sweep (s.frames.ring ++ s.frames.ring)).blocked) =
      s.frames.ring.any fun f => (s.candidate f).isSome := by
    rw [hfull, Bool.or_eq_left_iff_imp, List.any_eq_true, List.any_eq_true]
    rintro ⟨g, hg, hblocked⟩
    refine ⟨g, hfs g hg, ?_⟩
    have hc := isSome_of_blocked hblocked
    rwa [candidate_sweep] at hc
  have hpassed : ∀ pl, pl ∈ (s.frames.ring ++ s.frames.ring ++ fs).filterMap s.candidate ↔
      pl ∈ s.passed.filterMap s.candidate := by
    intro pl
    rw [passed_of_none hnone, List.mem_filterMap, List.mem_filterMap]
    refine exists_congr fun g => and_congr_left fun _ => ?_
    rw [List.mem_append, List.mem_append, or_self, or_iff_left_iff_imp]
    exact hfs g
  rw [hsteps, hrun, hrun', ← sweep_append, hlast, noVictim_eq, hover, ← sweep_append]
  exact ⟨_, rfl, spares_of_sweep hpassed _⟩

/-- A search comes to what it is to come to, or a device fails. -/
theorem scan_answers (h : Coherent ⟨s, none⟩) (hfits : s.Fits) :
    ∃ r t, scan (2 * s.frames.live + 1) false s = .ok (r, t) ∧
      ((∃ e, r = .error (.store e)) ∨ s.Answers t r) := by
  rw [← h.frames.length_ring]
  unfold Answers victim?
  cases hdue : s.frames.ring.find? s.due with
  | some f => exact scan_first h hfits hdue
  | none =>
    have hnone : ∀ f ∈ s.frames.ring, s.due f = false := by simpa using hdue
    cases hevictable : s.frames.ring.find? s.evictable with
    | some f => exact scan_second h hfits hnone hevictable
    | none =>
      obtain ⟨t, hrun, hspares⟩ := scan_vain h hfits (by simpa using hevictable)
      exact ⟨_, t, hrun, .inr ⟨rfl, hspares⟩⟩

/-- The same machine with the hand anywhere, and with any of the spaces held by others. -/
structure Posed (s u : Machine) : Prop where
  machine : ∃ hand spaces, u = { s with frames := { s.frames with hand }, spaces }
  spaces : ∀ id, (u.spaces.get? id).map (fun sp => { sp with busy := false }) =
    (s.spaces.get? id).map fun sp => { sp with busy := false }

namespace Posed

theorem get?_eq {α : Type} (h : Posed s u) (view : Space → α)
    (hview : ∀ sp : Space, view { sp with busy := false } = view sp) (id : SpaceId) :
    (u.spaces.get? id).map view = (s.spaces.get? id).map view := by
  have hid := congrArg (Option.map view) (h.spaces id)
  simpa only [Option.map_map, Function.comp_def, hview] using hid

theorem pageAt (h : Posed s u) : Pager.pageAt u.spaces = Pager.pageAt s.spaces := by
  funext pl
  have hpages := congrArg (fun view => view.bind fun pages : PageTable => pages.pages.get? pl.key)
    (h.get?_eq Space.pages (fun _ => rfl) pl.space)
  simpa [Pager.pageAt, Option.bind_map, Function.comp_def] using hpages

theorem entryAt (h : Posed s u) : Pager.entryAt u.spaces = Pager.entryAt s.spaces := by
  funext pl
  have hentries := congrArg
    (fun view => view.bind fun directory : Directory .emulated => directory.entries.get? pl.key)
    (h.get?_eq Space.directory (fun _ => rfl) pl.space)
  simpa [Pager.entryAt, Option.bind_map, Function.comp_def] using hentries

theorem coherent (h : Posed s u) (hs : Coherent ⟨s, none⟩) : Coherent ⟨u, none⟩ := by
  have hpages := h.pageAt
  have hentries := h.entryAt
  have hfresh : ∀ id, s.spaces.get? id = none → u.spaces.get? id = none := fun id hid => by
    simpa [hid] using h.spaces id
  obtain ⟨hand, spaces, rfl⟩ := h.machine
  refine ⟨hs.pool, ⟨hs.frames.vacant_nodup, hs.frames.mem_vacant, hs.frames.live_eq⟩, hs.swap, ?_,
    hs.backed, ?_, ?_, fun id hid => hfresh id (hs.fresh id hid)⟩
  · show Linked (Pager.pageAt spaces) (Pager.entryAt spaces) _ _
    rw [hpages, hentries]
    exact hs.linked
  · show Parked (slotsOf (Pager.pageAt spaces)) _
    rw [hpages]
    exact hs.parked
  · show Typed (Pager.pageAt spaces)
    rw [hpages]
    exact hs.typed

end Posed

/-- Every search for a frame ends, and comes to what it is to come to unless a device fails. -/
theorem Reachable.second_chance (h : Reachable s) (hposed : s.Posed u)
    (hempty : u.pool.take? = none) (hfits : u.Fits)
    (hio : ∀ e t, obtainFrame u ≠ .ok (.error (.store e), t)) :
    ∃ r t, obtainFrame u = .ok (r, t) ∧ u.Answers t r := by
  have hrun : obtainFrame u = scan (2 * u.frames.live + 1) false u := by
    unfold obtainFrame evict
    rw [Action.get_bind, hempty]
    rfl
  obtain ⟨r, t, hscan, ⟨e, rfl⟩ | hanswers⟩ := scan_answers (hposed.coherent h.coherent) hfits
  · exact absurd (hrun.trans hscan) (hio e t)
  · exact ⟨r, t, hrun.trans hscan, hanswers⟩

/-- Three frames fill up with two pages of one space, the first of them stored to, and a page of
another space. -/
def crossing : List Op := [.createSpace, .createSpace,
  .onSpace 1 0x10000 (.registerAnonymous true), .onSpace 1 0x11000 (.registerAnonymous true),
  .onSpace 2 0x10000 (.registerAnonymous true), .onSpace 1 0x10000 (.copyTo [7]),
  .onSpace 1 0x11000 .claim, .onSpace 2 0x10000 .claim]

/-- Somebody works on the second space, and the hand is at its page. -/
def crossed (s : Machine) : Machine := { s with
  frames := { s.frames with hand := 2 }
  spaces := s.spaces.modify 2 fun sp => { sp with busy := true } }

theorem posed_crossed (s : Machine) : s.Posed s.crossed where
  machine := ⟨2, _, rfl⟩
  spaces id := by
    show ((s.spaces.modify 2 _).get? id).map _ = _
    rw [Table.get?_modify]
    split
    · rename_i hid
      rw [hid, Option.map_map]
      rfl
    · rfl

/-- The hand passes by the page that is worked on, gives the page that was stored to a second
chance, and takes the third. -/
theorem second_chance_of_crossing : ∃ s t, Reachable s ∧ s.crossed.frames.ring = [2, 0, 1] ∧
    s.crossed.accessed ⟨1, 0x10000⟩ = true ∧ t.accessed ⟨1, 0x10000⟩ = false ∧
    obtainFrame s.crossed = .ok (.ok 1, t) ∧ ∃ pl, s.crossed.Reclaims t 1 pl := by
  have hend : (boot 3 8 [] >>= fun start => run crossing start >>= fun last =>
      obtainFrame last.2.crossed >>= fun found =>
        .ok (match found.1 with
          | .ok f => some f
          | .error _ => none, last.2.crossed.frames.ring, last.2.crossed.victim?,
          last.2.crossed.pool.take?.isNone, last.2.crossed.accessed ⟨1, 0x10000⟩,
          found.2.accessed ⟨1, 0x10000⟩)) =
      .ok (some 1, [2, 0, 1], some 1, true, true, false) := by decide +kernel
  obtain ⟨start, hboot, hend⟩ := except_bind_eq_ok.1 hend
  obtain ⟨⟨results, s⟩, hrun, hend⟩ := except_bind_eq_ok.1 hend
  obtain ⟨⟨r, t⟩, hfound, hend⟩ := except_bind_eq_ok.1 hend
  have hs : Reachable s := ⟨3, 8, [], _, start, results, hboot, hrun⟩
  obtain ⟨hr, hrest⟩ := Prod.mk.inj (Except.ok.inj hend)
  obtain ⟨hring, hrest⟩ := Prod.mk.inj hrest
  obtain ⟨hvictim, hrest⟩ := Prod.mk.inj hrest
  obtain ⟨hempty, hrest⟩ := Prod.mk.inj hrest
  obtain ⟨hbefore, hafter⟩ := Prod.mk.inj hrest
  have hfits : s.crossed.Fits := by
    have hlast : s.Fits := run_fits (boot_coherent hboot) hrun
      (by simp [crossing, Op.Overreaches, SpaceOp.Overreaches]) (boot_fits hboot)
    unfold Fits at hlast ⊢
    rw [(posed_crossed s).pageAt]
    exact hlast
  have hio : ∀ e t, obtainFrame s.crossed ≠ .ok (.error (.store e), t) := by
    intro e u hu
    rw [hu] at hfound
    cases hfound
    cases hr
  obtain ⟨r', t', hrun', hanswers⟩ := hs.second_chance (posed_crossed s)
    (Option.isNone_iff_eq_none.1 hempty) hfits hio
  rw [hrun'] at hfound
  cases hfound
  unfold Answers at hanswers
  rw [hvictim] at hanswers
  obtain ⟨rfl, hreclaims⟩ := hanswers
  exact ⟨s, t, hs, hring, hbefore, hafter, hrun', hreclaims⟩

end Machine
end Pager
