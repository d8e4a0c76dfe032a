import Pager.Proofs.Access
import Pager.Proofs.Twins

/-!
Claims on twins. The search for a frame looks at no bytes but those of dirty pages of
files, which twins share, so both machines take the same frames from the same pages and
give them the same slots. A page that is claimed is then filled from its backing, whatever
its new frame held before; where the backing may be seen, both frames end up alike.
-/
namespace Pager

namespace Label

/-- Bytes come to no page, and a page that is registered will take no notice of its frame. -/
def Quiet (l : Label) : Prop := l.Still ∧ ∀ pl p, l = .register pl p → p.Oblivious

theorem quiet_of_place?_eq_none {l : Label} (h : l.place? = none) : l.Quiet := by
  refine ⟨fun pl hbrings => ?_, ?_⟩
  · cases l with
    | populate | store | seat => cases h
    | _ => rcases hbrings with hloads | hseat <;> contradiction
  · rintro pl p rfl
    cases h

theorem quiet_register {pl : Place} {p : Page} (h : p.Oblivious) : (register pl p).Quiet := by
  refine ⟨?_, ?_⟩
  · rintro other (hloads | hseat)
    · exact hloads
    · cases hseat
  · rintro other q heq
    cases heq
    exact h

end Label

theorem Label.Seeks.quiet {l : Label} (h : l.Seeks) : l.Quiet := by
  refine Label.quiet_of_place?_eq_none ?_
  cases l with
  | note | turn | take | mark | evict | spare => rfl
  | _ => exact h.elim

namespace Machine

variable {hidden : SpaceId → Prop} {s s' t t' : Machine} {pl : Place} {f : FrameId} {fr : Frame}
  {id : SpaceId} {a : VirtualAddress}

/-- Quiet moves keep machines twins. -/
theorem Twins.of_quiet (h : Twins hidden s s') {kinds kinds' : Label → Prop}
    (hmoves : Moves kinds ⟨s, none⟩ ⟨t, none⟩) (hmoves' : Moves kinds' ⟨s', none⟩ ⟨t', none⟩)
    (halike : t'.outline = t.outline) (hkinds : ∀ l, kinds l → l.Quiet)
    (hkinds' : ∀ l, kinds' l → l.Quiet) : Twins hidden t t' :=
  h.of_moves hmoves hmoves' halike (fun l hl => (hkinds l hl).1) (fun l hl => (hkinds' l hl).1)
    (h.oblivious.after h.coherent hmoves fun _ _ hl => (hkinds _ hl).2 _ _ rfl)

theorem Twins.of_move (h : Twins hidden s s') {l l' : Label} (hmove : Move l ⟨s, none⟩ ⟨t, none⟩)
    (hmove' : Move l' ⟨s', none⟩ ⟨t', none⟩) (halike : t'.outline = t.outline) (hl : l.Quiet)
    (hl' : l'.Quiet) : Twins hidden t t' :=
  h.of_quiet (.single hmove hl) (.single hmove' hl') halike (fun _ hk => hk) fun _ hk => hk

/-- A page is moved out the same way by both, since what it gives to a file is the same. -/
theorem tryVictim_mirrors (h : Twins hidden s s') (hf : s.frames.get? f = some fr)
    (ho : fr.owner = some pl.owner) : Mirrors (Shares outline) Eq
      (tryVictim f ⟨pl.space, pl.address⟩ s) (tryVictim f ⟨pl.space, pl.address⟩ s') := by
  obtain ⟨p, hpage, hres⟩ := h.coherent.linked.owner_page hf ho
  simp only [Place.space_owner, Place.page_owner, Place.value_address] at hpage
  have hk := (h.coherent.linked.keyed hpage).2
  unfold tryVictim
  refine space_bind_mirrors h.alike fun {sp} hs => ?_
  by_cases haccessed : sp.directory.has pl.address .accessed = true
  · rw [if_pos haccessed]
    exact ((blind_modifySpace _ _).bind fun _ => .pure false).mirrors h.alike
  · rw [if_neg haccessed]
    refine space_bind_mirrors h.alike fun {sp'} hs' => ?_
    cases hs.symm.trans hs'
    by_cases hunregistered : (!sp.pages.contains pl.address) = true
    · rw [if_pos hunregistered]
      exact .bug _
    · rw [if_neg hunregistered]
      refine addressOfFrame_bind_mirrors h.alike fun {fr'} hf' => ?_
      cases hf.symm.trans hf'
      refine Mirrors.bind (transfer_mirrors h.alike fun {_ q _ _} hs' hp hbytes hbytes' hstart =>
        Transfer.evict_mirrors hstart _ fun file hkind => ?_) fun _ _ _ hu => ?_
      · rw [PageTable.get?_address hk] at hp
        cases hpage.symm.trans (Coherent.pageAt_eq hs' hp)
        have hkind : p.kind = .fileBacked file := hkind
        have htype : p.type = .fileBacked := by rw [Page.type, hkind]
        obtain ⟨-, -, rfl⟩ := FramePool.read_eq_ok.1 hbytes
        obtain ⟨-, -, rfl⟩ := FramePool.read_eq_ok.1 hbytes'
        exact h.bytesAt_eq hpage hres hf (.inr htype)
      · exact ((blind_modifySpace _ _).bind fun _ => (blind_page _ _).bind fun _ =>
          (blind_onFrames _).bind fun _ => (blind_modifySpace _ _).bind fun _ => .pure true).mirrors hu

/-- A page that was spared by one is spared by both, and both remain twins. -/
theorem Twins.tryVictim (h : Twins hidden s s') (hf : s.frames.get? f = some fr)
    (ho : fr.owner = some pl.owner) {r : Except PagerError Bool}
    (run : tryVictim f ⟨pl.space, pl.address⟩ s = .ok (r, t))
    (run' : tryVictim f ⟨pl.space, pl.address⟩ s' = .ok (r, t')) (halike : t'.outline = t.outline)
    (hr : r ≠ .ok true) : Twins hidden t t' := by
  have hf' : s'.frames.get? f = some fr := frames_of_alike h.alike ▸ hf
  have hquiet : ∀ {u v : Machine}, Coherent ⟨u, none⟩ → u.frames.get? f = some fr →
      Machine.tryVictim f ⟨pl.space, pl.address⟩ u = .ok (r, v) →
      Moves Label.Quiet ⟨u, none⟩ ⟨v, none⟩ := by
    intro u v hu hf run
    rcases tryVictim_move hu hf ho run with ⟨htrue, -⟩ | ⟨-, -, hmove⟩ | ⟨e, -, -, hmove⟩
    · exact absurd htrue hr
    · exact .single hmove (Label.quiet_of_place?_eq_none rfl)
    · exact .single hmove (Label.quiet_of_place?_eq_none rfl)
  exact h.of_quiet (hquiet h.coherent hf run) (hquiet h.coherent' hf' run') halike
    (fun _ hl => hl) fun _ hl => hl

theorem scan_mirrors (h : Twins hidden s s') {steps : Nat} {full : Bool} :
    Mirrors (Shares outline) Eq (scan steps full s) (scan steps full s') := by
  induction steps generalizing s s' full with
  | zero => exact (blind_noVictim full).mirrors h.alike
  | succ steps ih =>
    unfold scan
    refine ((blind_onFrames _).mirrors h.alike).bind fun {found _ u u'} hturn hturn' heq hu => ?_
    subst heq
    have hturned : Twins hidden u u' := by
      obtain ⟨_, frames, hframes, -, rfl⟩ := onFrames_eq_ok.1 hturn
      obtain ⟨_, frames', hframes', -, rfl⟩ := onFrames_eq_ok.1 hturn'
      have hpair : s.frames.advance = (_, frames) := Except.ok.inj hframes
      have hpair' : s'.frames.advance = (_, frames') := Except.ok.inj hframes'
      have hmove : Move .turn ⟨s, none⟩ ⟨{ s with frames }, none⟩ := by
        have hturn : Move .turn ⟨s, none⟩ ⟨{ s with frames := s.frames.advance.2 }, none⟩ := .turn
        rwa [hpair] at hturn
      have hmove' : Move .turn ⟨s', none⟩ ⟨{ s' with frames := frames' }, none⟩ := by
        have hturn : Move .turn ⟨s', none⟩ ⟨{ s' with frames := s'.frames.advance.2 }, none⟩ := .turn
        rwa [hpair'] at hturn
      exact h.of_move hmove hmove' hu (Label.quiet_of_place?_eq_none rfl)
        (Label.quiet_of_place?_eq_none rfl)
    cases found with
    | none => exact (blind_noVictim full).mirrors hu
    | some frame =>
      refine ((blind_candidate? frame).mirrors hu).bind fun {owner? _ v v'} hpick hpick' heq hv => ?_
      subst heq
      obtain ⟨rfl, howner⟩ := candidate?_cases hpick
      obtain ⟨rfl, -⟩ := candidate?_cases hpick'
      rcases howner with hnone | ⟨fr, owner, hsome, hf, -, ho⟩
      · cases hnone
        exact ih hturned
      · cases hsome
        have ho : fr.owner = some (Place.owner ⟨owner.space, owner.page.value⟩) := ho
        refine (tryVictim_mirrors hturned hf ho).attempt_bind fun {q w w'} htry htry' hw => ?_
        cases q with
        | ok taken =>
          cases taken with
          | true =>
            have htaken : Blind (do
                modify fun s => { s with evictions := s.evictions + 1 }
                report (.evicted owner.page owner.space frame)
                return frame : Act FrameId) := by
              refine .bind (.modify ?_) fun _ => (blind_report _).bind fun _ => .pure frame
              exact fun _ => rfl
            exact htaken.mirrors hw
          | false => exact ih (hturned.tryVictim hf ho htry htry' hw (by simp))
        | error e =>
          cases e with
          | swapExhausted => exact ih (hturned.tryVictim hf ho htry htry' hw (by simp))
          | _ => exact .failed _ hw

/-- Twins find the same frame. -/
theorem obtainFrame_mirrors (h : Twins hidden s s') :
    Mirrors (Shares outline) Eq (obtainFrame s) (obtainFrame s') := by
  unfold obtainFrame
  rw [Action.get_bind, Action.get_bind, frames_of_alike h.alike]
  rcases FramePool.take?_of_alike (pool_of_alike h.alike) with
    ⟨hnone, hnone'⟩ | ⟨address, pool, pool', hsome, hsome', hpool⟩
  · rw [hnone, hnone']
    unfold evict
    dsimp only
    rw [Action.get_bind, Action.get_bind, frames_of_alike h.alike]
    exact scan_mirrors h
  · rw [hsome, hsome']
    exact .done rfl (congrArg (fun o : Machine => { o with
      frames := (s.frames.insert address).2 }) (alike_pool h.alike hpool))

/-- A frame that could not be filled is given back by both. -/
theorem settle_mirrors (halike : s'.outline = s.outline) {m : Act Unit}
    (hm : Mirrors (Shares outline) Eq (m s) (m s')) :
    Mirrors (Shares outline) Eq (settle id a f m s) (settle id a f m s') := by
  refine addressOfFrame_bind_mirrors halike fun {fr} hf => ?_
  refine (hm.bind fun _ _ _ hu => (blind_install id a fr.address).mirrors hu).attempt_bind
    fun {q _ _} _ _ hv => ?_
  cases q with
  | ok _ => exact .done rfl hv
  | error e => exact ((blind_returnFrame f).bind fun _ => .throw e).mirrors hv

/-- A page is found in the same state by both claims, and found or filled by both. -/
theorem claim_mirrors (h : Twins hidden s s') :
    Mirrors (Shares outline) Eq (claim id a s) (claim id a s') := by
  have hk := Place.aligned_of id a
  unfold claim
  refine page_bind_mirrors h.alike h.alike fun {sp p} hs hp => ?_
  cases hframe : p.frame with
  | some f => exact .done rfl h.alike
  | none =>
    have hp : sp.pages.get? (Place.of id a).address = some p := hp
    rw [PageTable.get?_address hk] at hp
    have hpage : Pager.pageAt s.spaces (.of id a) = some p := Coherent.pageAt_eq hs hp
    refine (obtainFrame_mirrors h).bind fun {f f' u u'} hsearch hsearch' heq hu => ?_
    subst heq
    have hseek := obtainFrame_moves h.coherent hsearch
    refine addressOfFrame_bind_mirrors hu fun {fr} hf => ?_
    refine Mirrors.bind (settle_mirrors hu (transfer_mirrors hu
      fun {sp' q bytes _} hs' hq hbytes _ hstart => Transfer.populate_mirrors hstart ?_ ?_))
      fun _ _ _ hv => ?_
    · obtain ⟨-, -, rfl⟩ := FramePool.read_eq_ok.1 hbytes
      exact (h.coherent.moves hseek).length_frame hf
    · intro w hw
      have hq : sp'.pages.get? (Place.of id a).address = some q := hq
      rw [PageTable.get?_address hk] at hq
      have hqpage : Pager.pageAt u.spaces (.of id a) = some q := Coherent.pageAt_eq hs' hq
      cases (pageAt_of_seeks h.coherent hseek hpage hframe).symm.trans hqpage
      exact h.oblivious _ p hpage w hw
    · exact ((blind_modifySpace _ _).bind fun _ => (blind_bindFrame _ _ _).bind fun _ =>
        .pure f).mirrors hv

/-- What is in a frame that was filled for a page. -/
theorem frame_of_populate (h : Coherent ⟨s, some f⟩)
    (hmove : Move (.populate pl) ⟨s, some f⟩ ⟨t, none⟩) :
    ∃ fr p u, s.frames.get? f = some fr ∧ Pager.pageAt s.spaces pl = some p ∧ p.frame = none ∧
      Transfer.Populated ⟨p, s.pool.bytesAt fr.address, s.swap, s.files, []⟩ u ∧
      Pager.pageAt t.spaces pl = some { u.page with frame := some f } ∧
      t.frameBytes f = u.frame := by
  cases hmove with
  | @populate _ _ _ fr sp p u pool directory hf hs hp habs hfill hw =>
    have hlen := h.length_frame hf
    rcases Transfer.populate_eq_ok h.swap hlen hfill with ⟨-, ht⟩ | ⟨e, he, -⟩
    · refine ⟨fr, p, u, hf, Coherent.pageAt_eq hs hp, habs, ht, ?_, ?_⟩
      · exact (congrFun (Coherent.pageAt_put hs _ rfl) pl).trans (Function.update_self ..)
      · obtain ⟨-, -, -, hframe, -⟩ := ht.spec h.swap hlen
        have hput := (h.write hw).frameBytes_put hf { fr with owner := some pl.owner } rfl
        refine (congrFun hput f).trans ?_
        rw [h.frameBytes_write hf hw, Function.update_self, frameBytes_of_get? hf,
          Bytes.overlay_zero (hframe.trans hlen.symm)]
    · cases he

/-- A claim that fails brings no bytes to any page. -/
theorem Claimed.quiet {e : PagerError} (hclaim : Claimed s pl (.error e) t)
    (h : Coherent ⟨s, none⟩) : Moves Label.Quiet ⟨s, none⟩ ⟨t, none⟩ := by
  cases hclaim with
  | unregistered => exact .refl
  | frameless _ _ hsearch => exact (obtainFrame_moves h hsearch).mono fun _ hl => hl.quiet
  | abandoned _ _ hsearch _ _ _ hmoves =>
    refine ((obtainFrame_moves h hsearch).mono fun _ hl => hl.quiet).trans (hmoves.mono fun l hl => ?_)
    refine Label.quiet_of_place?_eq_none ?_
    cases l with
    | request | scribble | attempt | giveBack => rfl
    | _ => exact hl.elim
  | refused _ _ hsearch _ _ hmoves =>
    refine ((obtainFrame_moves h hsearch).mono fun _ hl => hl.quiet).trans (hmoves.mono fun l hl => ?_)
    cases l with
    | lose | giveBack =>
      refine ⟨fun other hbrings => ?_, by simp⟩
      rcases hbrings with hloads | hseat
      · exact hloads
      · cases hseat
    | _ => exact hl.elim

/-- Pages that both machines fill from a backing that may be seen hold the same. -/
theorem Twins.matching_of_seated (h : Twins hidden s s') {u u' : Machine} {p : Page}
    (hp : Pager.pageAt s.spaces pl = some p) (habs : p.frame = none)
    (hseek : Moves Label.Seeks ⟨s, none⟩ ⟨u, some f⟩)
    (hseek' : Moves Label.Seeks ⟨s', none⟩ ⟨u', some f⟩) (hu : u'.outline = u.outline)
    (hmove : Move (.populate pl) ⟨u, some f⟩ ⟨t, none⟩)
    (hmove' : Move (.populate pl) ⟨u', some f⟩ ⟨t', none⟩) (halike : t'.outline = t.outline) :
    Matching hidden t t' pl := by
  have hcu := h.coherent.moves hseek
  have hcu' := h.coherent'.moves hseek'
  have hpu : Pager.pageAt u.spaces pl = some p := pageAt_of_seeks h.coherent hseek hp habs
  have hpu' : Pager.pageAt u'.spaces pl = some p := spaces_of_alike hu ▸ hpu
  obtain ⟨fr, q, v, hf, hq, -, hfilled, hpt, hbytes⟩ := frame_of_populate hcu hmove
  obtain ⟨fr', q', v', hf', hq', -, hfilled', hpt', hbytes'⟩ := frame_of_populate hcu' hmove'
  cases hpu.symm.trans hq
  cases hpu'.symm.trans hq'
  rw [frames_of_alike hu] at hf'
  cases hf.symm.trans hf'
  have hlen := hcu.length_frame hf
  have hlen' := hcu'.length_frame (frames_of_alike hu ▸ hf)
  have hstart : Transfer.outline ⟨p, u'.pool.bytesAt fr.address, u'.swap, u'.files, []⟩ =
      Transfer.outline ⟨p, u.pool.bytesAt fr.address, u.swap, u.files, []⟩ := by
    rw [Transfer.outline, Transfer.outline, Bytes.blank_eq_iff.2 (hlen'.trans hlen.symm),
      swap_of_alike hu, files_of_alike hu]
  have hseeks : ∀ l : Label, l.Seeks → l.place? = none := fun l hl => by
    cases l with
    | note | turn | take | mark | evict | spare => rfl
    | _ => exact hl.elim
  -- The slot of an anonymous page that may be seen holds the same, since its cell shows it.
  have hframe : ¬ hidden pl.space ∨ p.type = .fileBacked → t'.frameBytes f = t.frameBytes f := by
    intro hseen
    rw [hbytes, hbytes']
    refine hfilled.frame_eq hfilled' hstart hlen (h.oblivious pl p hp) ?_
    intro n hn
    have hn : p.slot = some n := hn
    obtain ⟨hkind, htype⟩ : p.kind = .anonymous (some n) ∧ p.type = .anonymous := by
      cases hkind : p.kind with
      | anonymous slot =>
        rw [Page.slot, hkind] at hn
        exact ⟨congrArg _ hn, by rw [Page.type, hkind]⟩
      | _ =>
        rw [Page.slot, hkind] at hn
        cases hn
    have hflat := (h.matching pl).flat (hseen.resolve_right (by simp [htype]))
    rw [← h.coherent.flat_still_moves hseek hseeks, ← h.coherent'.flat_still_moves hseek' hseeks,
      flat_of_page hpu, flat_of_page hpu', cell_of_anonymous hkind, cell_of_anonymous hkind,
      contents_of_slot habs hn, contents_of_slot habs hn] at hflat
    exact Cell.holding.inj (Option.some.inj hflat)
  have htype : Page.type { v.page with frame := some f } = p.type :=
    (hfilled.spec hcu.swap hlen).1.type
  have hpt' : Pager.pageAt t'.spaces pl = some { v.page with frame := some f } :=
    spaces_of_alike halike ▸ hpt
  constructor
  · intro hseen
    rcases (hcu.move hmove).flat_resident hpt rfl with ⟨hnone, hfile⟩ | hholds
    · rcases (hcu'.move hmove').flat_resident hpt' rfl with ⟨hnone', -⟩ | hholds'
      · exact hnone'.trans hnone.symm
      · rw [flat_of_page hpt', cell_of_fileBacked hfile] at hholds'
        cases hholds'
    · rcases (hcu'.move hmove').flat_resident hpt' rfl with ⟨hnone', hfile⟩ | hholds'
      · rw [flat_of_page hpt, cell_of_fileBacked hfile] at hholds
        cases hholds
      · rw [hholds, hholds', hframe (.inl hseen)]
  · intro q g hq hfile hg
    cases hpt.symm.trans hq
    cases hg
    exact hframe (.inr (htype.symm.trans hfile))

/-- Twins remain twins when a page is claimed by both. -/
theorem Twins.claim (h : Twins hidden s s') {r : Except PagerError FrameId}
    (run : claim id a s = .ok (r, t)) (run' : claim id a s' = .ok (r, t'))
    (halike : t'.outline = t.outline) : Twins hidden t t' := by
  have hclaim := claim_cases h.coherent run
  have hclaim' := claim_cases h.coherent' run'
  cases r with
  | error e =>
    exact h.of_quiet (hclaim.quiet h.coherent) (hclaim'.quiet h.coherent') halike
      (fun _ hl => hl) fun _ hl => hl
  | ok f =>
    have hmoves := hclaim.moves h.coherent
    have hmoves' := hclaim'.moves h.coherent'
    have hspaces := spaces_of_alike h.alike
    refine ⟨h.coherent.moves hmoves, h.coherent'.moves hmoves', halike,
      h.oblivious.after h.coherent hmoves fun _ _ hl => hl.elim, fun pl => ?_⟩
    by_cases hpl : pl = .of id a
    · subst hpl
      cases hclaim with
      | resident hpage hframe =>
        cases hclaim' with
        | resident => exact h.matching _
        | seated hpage' habs =>
          rw [hspaces] at hpage'
          cases hpage.symm.trans hpage'
          cases hframe.symm.trans habs
      | seated hpage habs hsearch hmove =>
        cases hclaim' with
        | resident hpage' hframe' =>
          rw [hspaces] at hpage'
          cases hpage.symm.trans hpage'
          cases hframe'.symm.trans habs
        | seated _ _ hsearch' hmove' =>
          have hboth := obtainFrame_mirrors h
          rw [hsearch, hsearch'] at hboth
          cases hboth with
          | done _ hu =>
            exact h.matching_of_seated hpage habs (obtainFrame_moves h.coherent hsearch)
              (obtainFrame_moves h.coherent' hsearch') hu hmove hmove' halike
    · have hbrings : ∀ l : Label, l.Claims (· = .of id a) → ¬ l.Brings pl := by
        rintro l hl (hloads | rfl)
        · cases l with
          | populate other => exact hpl (hloads.symm.trans hl)
          | store => exact hl
          | _ => exact hloads
        · exact hl
      exact h.matching_of_moves hmoves hmoves' halike hbrings hbrings

/-- Claiming a page comes to the same for twins, and leaves them twins. -/
theorem claim_twins (h : Twins hidden s s') :
    Mirrors (Twins hidden) Eq (claim id a s) (claim id a s') :=
  (claim_mirrors h).strengthen fun run run' halike => h.claim run run' halike

end Machine
end Pager
