import Pager.Proofs.Agreement

/-!
Pinned pages stay put. The search for a frame passes by every pinned one, so a
pinned page leaves its frame only when it is taken away itself; and since a
frame is unpinned whenever it leaves its page, a pin is not handed on to the
page that gets the frame next.
-/
namespace Pager

namespace Label

/-- The page `p` at `pl` is not taken from its frame, and no frame is pinned or unpinned. -/
def Leaves (pl : Place) (p : Page) : Label → Prop
  | evict other => other ≠ pl
  | unseat other q => other = pl → q ≠ p
  | pin => False
  | _ => True

/-- Pages are not moved out, taken from their frames or pinned. -/
def Rests : Label → Prop
  | evict _ | unseat .. | pin => False
  | _ => True

theorem Rests.leaves {l : Label} (h : l.Rests) (pl : Place) (p : Page) : l.Leaves pl p := by
  cases l <;> first | exact h.elim | trivial

theorem Abandons.rests {l : Label} (h : l.Abandons) : l.Rests := by
  cases l <;> first | exact h.elim | trivial

theorem Loses.rests {l : Label} {pl : Place} (h : l.Loses pl) : l.Rests := by
  cases l <;> first | exact h.elim | trivial

theorem Unmaps.leaves {l : Label} {id : SpaceId} {mapping : MappingId} (h : l.Unmaps id mapping)
    {pl : Place} {p : Page} (hne : pl.space = id → p.mapping ≠ some mapping) : l.Leaves pl p := by
  cases l with
  | unseat other q =>
    rintro rfl rfl
    exact hne h.1 h.2
  | _ => first | exact h.elim | trivial

end Label

theorem Place.base_eq {id other : SpaceId} {a b : VirtualAddress}
    (h : Place.of id a = Place.of other b) : a.pageBase = b.pageBase := congrArg Place.address h

/-- The page at `pl` lies in a frame. -/
structure Seated (m : Moment) (pl : Place) (p : Page) (f : FrameId) (fr : Frame) : Prop where
  page : pageAt m.machine.spaces pl = some p
  resident : p.frame = some f
  tracked : m.machine.frames.get? f = some fr

namespace Seated

variable {m n : Moment} {l : Label} {pl : Place} {p : Page} {f g : FrameId} {fr gr : Frame}

theorem owner (h : Seated m pl p f fr) (hc : Coherent m) : fr.owner = some pl.owner := by
  obtain ⟨gr, -, hf, ho, -⟩ := hc.linked.page_frame h.page h.resident
  rw [h.tracked] at hf
  cases hf
  exact ho

/-- A frame with another owner, or with none, is another frame. -/
theorem ne (h : Seated m pl p f fr) (hc : Coherent m) (hg : m.machine.frames.get? g = some gr)
    (ho : gr.owner ≠ some pl.owner) : f ≠ g := by
  rintro rfl
  rw [h.tracked] at hg
  cases hg
  exact ho (h.owner hc)

theorem ne_held (h : Seated m pl p f fr) (hc : Coherent m) (hg : m.held = some g) : f ≠ g :=
  hc.linked.frame_ne_held h.page h.resident hg

/-- Another frame changes, and so may another page. -/
theorem of_put (h : Seated m pl p f fr) (hc : Coherent m)
    (hg : (m.machine.frames.get? g).isSome = true) (hne : f ≠ g)
    (hframes : n.machine.frames = m.machine.frames.put g gr)
    (hpage : pageAt n.machine.spaces pl = pageAt m.machine.spaces pl) : Seated n pl p f fr where
  page := hpage.trans h.page
  resident := h.resident
  tracked := by
    rw [hframes, (FrameTable.put_spec hc.frames hg gr).1, Function.update_of_ne hne]
    exact h.tracked

/-- Only other pages change. -/
theorem of_page (h : Seated m pl p f fr) (hframes : n.machine.frames = m.machine.frames)
    (hpage : pageAt n.machine.spaces pl = pageAt m.machine.spaces pl) : Seated n pl p f fr where
  page := hpage.trans h.page
  resident := h.resident
  tracked := by
    rw [hframes]
    exact h.tracked

/-- A page without a frame is another page. -/
theorem ne_of_absent (h : Seated m pl p f fr) {other : Place} {sp : Space} {q : Page}
    (hs : m.machine.spaces.get? other.space = some sp)
    (hq : sp.pages.pages.get? other.key = some q) (habs : q.frame = none) : pl ≠ other := by
  rintro rfl
  have hpage := h.page
  rw [Coherent.pageAt_eq hs hq] at hpage
  cases hpage
  cases habs.symm.trans h.resident

theorem move (h : Seated m pl p f fr) (hc : Coherent m) (hl : l.Leaves pl p) (hm : Move l m n) :
    Seated n pl p f fr := by
  cases hm with
  | note | scribble | request | handles | outside | switch | spare | attempt | store =>
    exact ⟨h.page, h.resident, h.tracked⟩
  | turn =>
    refine ⟨h.page, h.resident, ?_⟩
    exact (congrFun (FrameTable.get?_advance _) f).trans h.tracked
  | take =>
    refine ⟨h.page, h.resident, ?_⟩
    obtain ⟨hnone, hget, -⟩ := FrameTable.insert_spec hc.frames _
    refine (congrFun hget f).trans ((Function.update_of_ne ?_ ..).trans h.tracked)
    rintro rfl
    cases hnone.symm.trans h.tracked
  | giveBack hr =>
    refine ⟨h.page, h.resident, ?_⟩
    obtain ⟨-, hget, -⟩ := FrameTable.remove_spec hc.frames hr
    exact (congrFun hget f).trans ((Function.update_of_ne (h.ne_held hc rfl) ..).trans h.tracked)
  | mark hs | soil hs | adjust hs | number hs | record hs | unrecord hs =>
    refine h.of_page rfl (congrFun ?_ pl)
    exact pageAt_insert_of_eq hs rfl
  | pin => exact hl.elim
  | @evict s other g gr sp q t hg ho hs hq =>
    refine h.of_put hc (Option.isSome_of_eq_some hg) (h.ne hc hg ?_) rfl ?_
    · rw [ho]
      exact fun heq => hl (Place.eq_of_owner (Option.some.inj heq))
    · exact (congrFun (Coherent.pageAt_put hs _ rfl) pl).trans (Function.update_of_ne hl.symm ..)
  | populate hg hs hq habs =>
    refine h.of_put hc (Option.isSome_of_eq_some hg) (h.ne_held hc rfl) rfl ?_
    exact (congrFun (Coherent.pageAt_put hs _ rfl) pl).trans
      (Function.update_of_ne (h.ne_of_absent hs hq habs) ..)
  | lose hg hs hq habs =>
    refine h.of_page rfl ?_
    exact (congrFun (Coherent.pageAt_put hs _ rfl) pl).trans
      (Function.update_of_ne (h.ne_of_absent hs hq habs) ..)
  | seat hg hs hq habs =>
    refine h.of_put hc (Option.isSome_of_eq_some hg) (h.ne_held hc rfl) rfl ?_
    exact (congrFun (Coherent.pageAt_put hs _ rfl) pl).trans
      (Function.update_of_ne (h.ne_of_absent hs hq habs) ..)
  | @unseat s other g gr sp q hg hs hq hres =>
    have hne : pl ≠ other := by
      rintro rfl
      have hpage := h.page
      rw [Coherent.pageAt_eq hs hq] at hpage
      exact hl rfl (Option.some.inj hpage)
    refine h.of_put hc (Option.isSome_of_eq_some hg) ?_ rfl ?_
    · rintro rfl
      exact hne (hc.linked.place_unique h.page h.resident (Coherent.pageAt_eq hs hq) hres)
    · exact (congrFun (Coherent.pageAt_put hs _ rfl) pl).trans (Function.update_of_ne hne ..)
  | @register s held other sp page hs hvacant =>
    refine h.of_page rfl ?_
    refine (congrFun (Coherent.pageAt_put hs _ rfl) pl).trans (Function.update_of_ne ?_ ..)
    rintro rfl
    have hnone := (pageAt_of_get? hs pl.key).trans hvacant
    cases h.page.symm.trans hnone
  | remove hs hq habs =>
    refine h.of_page rfl ?_
    exact (congrFun (Coherent.pageAt_erase hs rfl) pl).trans
      (Function.update_of_ne (h.ne_of_absent hs hq habs) ..)
  | create =>
    exact h.of_page rfl (congrFun (pageAt_insert_new (hc.fresh _ (Nat.le_refl _))) pl)
  | drop hs hempty => exact h.of_page rfl (congrFun (pageAt_erase_empty hs hempty) pl)

theorem moves {kinds : Label → Prop} (h : Seated m pl p f fr) (hc : Coherent m)
    (hm : Moves kinds m n) (hkinds : ∀ l, kinds l → l.Leaves pl p) : Seated n pl p f fr :=
  hc.preserves (P := fun n => Seated n pl p f fr) hm
    (fun hl hc h hmove => h.move hc (hkinds _ hl) hmove) h

/-- The page is the only one in its frame. -/
theorem eq_of_owner (h : Seated m pl p f fr) (hc : Coherent m)
    (hg : m.machine.frames.get? g = some gr) (ho : gr.owner = some pl.owner) :
    g = f ∧ gr = fr := by
  obtain ⟨q, hq, hres⟩ := hc.linked.owner_page hg ho
  cases h.page.symm.trans hq
  cases h.resident.symm.trans hres
  cases h.tracked.symm.trans hg
  exact ⟨rfl, rfl⟩

end Seated

/-- The frame in hand is not pinned. -/
def Moment.Loose (m : Moment) : Prop :=
  ∀ f fr, m.held = some f → m.machine.frames.get? f = some fr → fr.pinned = false

/-- Every frame that is pinned in `n` was so, by the same page, in `m`. -/
def Moment.Pins (m n : Moment) : Prop :=
  ∀ f fr, n.machine.frames.get? f = some fr → fr.pinned = true → m.machine.frames.get? f = some fr

namespace Moment.Pins

variable {m n : Moment} {g : FrameId} {gr : Frame}

theorem of_eq (h : n.machine.frames = m.machine.frames) : m.Pins n := by
  intro f fr hf _
  rw [← h]
  exact hf

/-- A frame that is not pinned takes the place of another, or of none. -/
theorem of_update (hget : n.machine.frames.get? =
      Function.update m.machine.frames.get? g (some gr)) (hloose : gr.pinned = false) :
    m.Pins n := by
  intro f fr hf hpinned
  rw [hget, Function.update_apply] at hf
  split at hf
  · cases hf
    cases hpinned.symm.trans hloose
  · exact hf

end Moment.Pins

/-- Frames come to hand unpinned, so whatever page gets one of them does not find it pinned. -/
theorem Move.pins {l : Label} {m n : Moment} (hm : Move l m n) (h : Coherent m) (hloose : m.Loose)
    (hl : l ≠ .pin) : n.Loose ∧ m.Pins n := by
  have hput : ∀ {g : FrameId} {gr : Frame}, m.machine.frames.get? g = some gr → ∀ after : Frame,
      (m.machine.frames.put g after).get? =
        Function.update m.machine.frames.get? g (some after) :=
    fun hg after => (FrameTable.put_spec h.frames (Option.isSome_of_eq_some hg) after).1
  cases hm with
  | note | scribble | request | handles | outside | switch | mark | soil | adjust | spare | lose |
    attempt | store | register | remove | number | record | unrecord | create | drop =>
    exact ⟨hloose, .of_eq rfl⟩
  | turn =>
    refine ⟨fun f fr hheld hf => hloose f fr hheld ?_, fun f fr hf _ => ?_⟩
    · rw [← FrameTable.get?_advance]
      exact hf
    · rw [← FrameTable.get?_advance]
      exact hf
  | take =>
    obtain ⟨-, hget, -⟩ := FrameTable.insert_spec h.frames _
    refine ⟨?_, .of_update hget rfl⟩
    rintro f fr ⟨⟩ hf
    cases hf.symm.trans ((congrFun hget _).trans (Function.update_self ..))
    rfl
  | giveBack hr =>
    refine ⟨fun f fr hheld => (Option.some_ne_none _ hheld.symm).elim, fun f fr hf _ => ?_⟩
    obtain ⟨-, hget, -⟩ := FrameTable.remove_spec h.frames hr
    have hf := (congrFun hget f).symm.trans hf
    rw [Function.update_apply] at hf
    split at hf
    · cases hf
    · exact hf
  | pin => exact absurd rfl hl
  | evict hg | unseat hg =>
    refine ⟨?_, .of_update (hput hg _) rfl⟩
    rintro f fr ⟨⟩ hf
    cases hf.symm.trans ((congrFun (hput hg _) _).trans (Function.update_self ..))
    rfl
  | populate hg | seat hg =>
    refine ⟨fun f fr hheld => (Option.some_ne_none _ hheld.symm).elim, ?_⟩
    have hunpinned := hloose _ _ rfl hg
    exact .of_update (hput hg _) hunpinned

/-- Between two operations pins come from nowhere else than from pinning. -/
theorem Coherent.pins {kinds : Label → Prop} {m n : Moment} (h : Coherent m) (hloose : m.Loose)
    (hm : Moves kinds m n) (hl : ∀ l, kinds l → l ≠ .pin) : m.Pins n := by
  have hboth := h.preserves (P := fun n => n.Loose ∧ m.Pins n) hm
    (fun hkind hc hn hmove => by
      obtain ⟨hafter, hpins⟩ := hmove.pins hc hn.1 (hl _ hkind)
      exact ⟨hafter, fun f fr hf hpinned => hn.2 f fr (hpins f fr hf hpinned) hpinned⟩)
    ⟨hloose, .of_eq rfl⟩
  exact hboth.2

namespace Machine

variable {s t : Machine} {pl : Place} {p : Page} {f : FrameId} {fr : Frame} {id : SpaceId}
  {a : VirtualAddress}

theorem scan_seated (h : Coherent ⟨s, none⟩) (hseat : Seated ⟨s, none⟩ pl p f fr)
    (hpinned : fr.pinned = true) {steps : Nat} {full : Bool} {r : Except PagerError FrameId}
    (run : scan steps full s = .ok (r, t)) : Seated ⟨t, r.toOption⟩ pl p f fr := by
  induction steps generalizing s full with
  | zero =>
    cases run
    exact ⟨hseat.page, hseat.resident, hseat.tracked⟩
  | succ steps ih =>
    have hturn := hseat.move h (l := .turn) trivial .turn
    have hturned := h.turn
    cases scan_cases h run with
    | ended events => exact ⟨hturn.page, hturn.resident, hturn.tracked⟩
    | passed hrest => exact ih hturned hturn hrest
    | @evicted g gr other u evictions events hg hloose ho hmove =>
      -- the frame of another page, since this one is pinned
      have hne : other ≠ pl := by
        rintro rfl
        obtain ⟨-, rfl⟩ := hturn.eq_of_owner hturned hg ho
        cases hpinned.symm.trans hloose
      have hevicted := hturn.move hturned (l := .evict other) hne hmove
      exact ⟨hevicted.page, hevicted.resident, hevicted.tracked⟩
    | turned hmove hrest =>
      exact ih (hturned.move hmove) (hturn.move hturned (l := .mark) trivial hmove) hrest
    | @spared _ _ _ _ other hmove hrest =>
      exact ih (hturned.move hmove) (hturn.move hturned (l := .spare other) trivial hmove) hrest
    | @failed _ _ other hmove => exact hturn.move hturned (l := .spare other) trivial hmove

/-- The search for a frame passes a pinned page by. -/
theorem obtainFrame_seated (h : Coherent ⟨s, none⟩) (hseat : Seated ⟨s, none⟩ pl p f fr)
    (hpinned : fr.pinned = true) {r : Except PagerError FrameId}
    (run : obtainFrame s = .ok (r, t)) : Seated ⟨t, r.toOption⟩ pl p f fr := by
  rcases obtainFrame_cases run with ⟨g, rfl, hmove⟩ | ⟨steps, hscan⟩
  · exact hseat.move h (l := .take) trivial hmove
  · exact scan_seated h hseat hpinned hscan

theorem claim_seated (h : Coherent ⟨s, none⟩) (hseat : Seated ⟨s, none⟩ pl p f fr)
    (hpinned : fr.pinned = true) {r : Except PagerError FrameId}
    (run : claim id a s = .ok (r, t)) : Seated ⟨t, none⟩ pl p f fr := by
  cases claim_cases h run with
  | unregistered | resident => exact hseat
  | frameless _ _ hsearch => exact obtainFrame_seated h hseat hpinned hsearch
  | abandoned _ _ hsearch _ _ _ hmoves =>
    have hfound := obtainFrame_seated h hseat hpinned hsearch
    exact hfound.moves (h.moves (obtainFrame_moves h hsearch)) hmoves fun l hl => hl.rests.leaves pl p
  | refused _ _ hsearch _ _ hmoves =>
    have hfound := obtainFrame_seated h hseat hpinned hsearch
    exact hfound.moves (h.moves (obtainFrame_moves h hsearch)) hmoves fun l hl => hl.rests.leaves pl p
  | seated _ _ hsearch hmove =>
    have hfound := obtainFrame_seated h hseat hpinned hsearch
    exact hfound.move (h.moves (obtainFrame_moves h hsearch)) (l := .populate _) trivial hmove

/-- Pinning a page a second time changes nothing for it. -/
theorem pin_seated (h : Coherent ⟨s, none⟩) (hseat : Seated ⟨s, none⟩ pl p f fr)
    (hpinned : fr.pinned = true) {r : Except PagerError Unit} (run : pin id a s = .ok (r, t)) :
    Seated ⟨t, none⟩ pl p f fr := by
  rcases pin_cases run with ⟨e, rfl, hclaim⟩ | ⟨rfl, g, u, gr, hclaim, hg, rfl⟩
  · exact claim_seated h hseat hpinned hclaim
  · have hu := h.moves (claim_moves h hclaim).1
    have hclaimed := claim_seated h hseat hpinned hclaim
    refine ⟨hclaimed.page, hclaimed.resident, ?_⟩
    refine (congrFun (FrameTable.put_spec hu.frames (Option.isSome_of_eq_some hg) _).1 f).trans ?_
    by_cases hfg : f = g
    · subst hfg
      cases hclaimed.tracked.symm.trans hg
      rw [Function.update_self, ← hpinned]
    · rw [Function.update_of_ne hfg]
      exact hclaimed.tracked

theorem unpin_seated (h : Coherent ⟨s, none⟩) (hseat : Seated ⟨s, none⟩ pl p f fr)
    (hne : .of id a ≠ pl) {r : Except PagerError Unit} (run : unpin id a s = .ok (r, t)) :
    Seated ⟨t, none⟩ pl p f fr := by
  rcases unpin_cases run with rfl | ⟨q, g, gr, hq, hres, hg, rfl⟩
  · exact hseat
  · refine hseat.of_put h (Option.isSome_of_eq_some hg) ?_ rfl rfl
    rintro rfl
    exact hne (h.linked.place_unique hq hres hseat.page hseat.resident)

theorem readPieces_seated (h : Coherent ⟨s, none⟩) (hseat : Seated ⟨s, none⟩ pl p f fr)
    (hpinned : fr.pinned = true) {pieces : List Piece} {r : Except PagerError Bytes}
    (run : readPieces id a pieces s = .ok (r, t)) : Seated ⟨t, none⟩ pl p f fr := by
  refine (readPieces_keep (P := fun u => Coherent ⟨u, none⟩ ∧ Seated ⟨u, none⟩ pl p f fr)
    (fun {_ _ q u v} hu hpiece => ?_) ⟨h, hseat⟩ run).2
  refine ⟨hu.1.moves (readPiece_moves hu.1 hpiece).1, ?_⟩
  rcases readPiece_cases hu.1 hpiece with ⟨e, -, hclaim⟩ | ⟨g, w, gr, hclaim, hmark, -⟩
  · exact claim_seated hu.1 hu.2 hpinned hclaim
  · have hw := hu.1.moves (claim_moves hu.1 hclaim).1
    exact (claim_seated hu.1 hu.2 hpinned hclaim).move hw (l := .mark) trivial hmark

theorem readUser_seated (h : Coherent ⟨s, none⟩) (hseat : Seated ⟨s, none⟩ pl p f fr)
    (hpinned : fr.pinned = true) {length : Nat} {r : Except PagerError Bytes}
    (run : readUser id a length s = .ok (r, t)) : Seated ⟨t, none⟩ pl p f fr := by
  unfold readUser at run
  rcases Action.ofResult_bind_eq_ok.1 run with ⟨_, -, run⟩ | ⟨e, -, rfl, rfl⟩
  · exact readPieces_seated h hseat hpinned run
  · exact hseat

theorem writePieces_seated (h : Coherent ⟨s, none⟩) (hseat : Seated ⟨s, none⟩ pl p f fr)
    (hpinned : fr.pinned = true) {pieces : List Piece} {bytes : Bytes}
    {r : Except PagerError Unit} (run : writePieces id a bytes pieces s = .ok (r, t)) :
    Seated ⟨t, none⟩ pl p f fr := by
  refine (writePieces_keep (P := fun u => Coherent ⟨u, none⟩ ∧ Seated ⟨u, none⟩ pl p f fr)
    (fun {_ _ q u v} hu hpiece => ?_) ⟨h, hseat⟩ run).2
  refine ⟨hu.1.moves (writePiece_copies hu.1 hpiece), ?_⟩
  rcases writePiece_cases hu.1 hpiece with
    ⟨e, -, rfl | hclaim⟩ | ⟨-, g, w, x, y, hclaim, hmark, hsoil, hstore⟩
  · exact hu.2
  · exact claim_seated hu.1 hu.2 hpinned hclaim
  · have hw := hu.1.moves (claim_moves hu.1 hclaim).1
    have hmarked := (claim_seated hu.1 hu.2 hpinned hclaim).move hw (l := .mark) trivial hmark
    have hx := hw.move hmark
    have hsoiled := hmarked.move hx (l := .soil _) trivial hsoil
    exact hsoiled.move (hx.move hsoil) (l := .store ..) trivial hstore

theorem writeUser_seated (h : Coherent ⟨s, none⟩) (hseat : Seated ⟨s, none⟩ pl p f fr)
    (hpinned : fr.pinned = true) {bytes : Bytes} {r : Except PagerError Unit}
    (run : writeUser id a bytes s = .ok (r, t)) : Seated ⟨t, none⟩ pl p f fr := by
  unfold writeUser at run
  rcases Action.ofResult_bind_eq_ok.1 run with ⟨_, -, run⟩ | ⟨e, -, rfl, rfl⟩
  · exact writePieces_seated h hseat hpinned run
  · exact hseat

/-- A page that is added is another page. -/
theorem Adds.seated {pages : List Page} (hadds : Adds id pages s t) (h : Coherent ⟨s, none⟩)
    (hseat : Seated ⟨s, none⟩ pl p f fr) (hp : ∀ p ∈ pages, p.Enters) :
    Seated ⟨t, none⟩ pl p f fr := by
  have hmoves : Moves (fun l => ∃ other q, l = .register other q) ⟨s, none⟩ ⟨t, none⟩ := by
    refine .of_trace (hadds.trace hp) fun l hl => ?_
    obtain ⟨q, -, rfl⟩ := List.mem_map.1 hl
    exact ⟨_, _, rfl⟩
  refine hseat.moves h hmoves ?_
  rintro l ⟨other, q, rfl⟩
  trivial

theorem serveFault_seated (h : Coherent ⟨s, none⟩) (hseat : Seated ⟨s, none⟩ pl p f fr)
    (hpinned : fr.pinned = true) {fault : PageFault} {r : Except PagerError Unit}
    (run : serveFault id fault s = .ok (r, t)) : Seated ⟨t, none⟩ pl p f fr := by
  obtain ⟨v, reports, hresolved, rfl⟩ := serveFault_cases run
  have hend : Seated ⟨v, none⟩ pl p f fr := by
    cases hresolved with
    | refused events => exact hseat.move h (l := .note) trivial (.note s.evictions events)
    | claimed _ _ hready hclaim =>
      refine claim_seated (hready.coherent h) ?_ hpinned hclaim
      cases hready with
      | registered events => exact hseat.move h (l := .note) trivial (.note s.evictions events)
      | @grown u _ events _ hgrows =>
        have hgrown : Seated ⟨u, none⟩ pl p f fr := hgrows.adds.seated h hseat fun q hq => by
          rw [List.mem_singleton.1 hq]
          exact (Page.isNew_ofStack _).toEnters
        exact hgrown.move (hgrows.coherent h) (l := .note) trivial (.note u.evictions events)
  exact ⟨hend.page, hend.resident, hend.tracked⟩

theorem inherit_seated (h : Coherent ⟨s, none⟩) (hseat : Seated ⟨s, none⟩ pl p f fr)
    (hpinned : fr.pinned = true) {parent : SpaceId} {other : Place} {r : Except PagerError Unit}
    (hinherit : Inherited s parent other r t) : Seated ⟨t, none⟩ pl p f fr := by
  have hscribbled : ∀ {g u v}, obtainFrame s = .ok (.ok g, u) →
      Moves (· = .scribble) ⟨u, some g⟩ ⟨v, some g⟩ →
        Coherent ⟨v, some g⟩ ∧ Seated ⟨v, some g⟩ pl p f fr := by
    intro g u v hsearch hcopies
    have hu := h.moves (obtainFrame_moves h hsearch)
    refine ⟨hu.moves hcopies, ?_⟩
    refine (obtainFrame_seated h hseat hpinned hsearch).moves hu hcopies ?_
    rintro l rfl
    trivial
  cases hinherit with
  | frameless hsearch => exact obtainFrame_seated h hseat hpinned hsearch
  | abandoned hsearch hcopies hback =>
    obtain ⟨hv, hkept⟩ := hscribbled hsearch hcopies
    exact hkept.move hv (l := .giveBack) trivial hback
  | seated hsearch hcopies _ _ hmove =>
    obtain ⟨hv, hkept⟩ := hscribbled hsearch hcopies
    exact hkept.move hv (l := .seat _) trivial hmove

theorem duplicatePage_seated (h : Coherent ⟨s, none⟩) (hseat : Seated ⟨s, none⟩ pl p f fr)
    (hpinned : fr.pinned = true) {parent : SpaceId} {other : Place}
    (hk : other.key % pageSize = 0) {r : Except PagerError Unit}
    (run : duplicatePage parent other.space other.address s = .ok (r, t)) :
    Seated ⟨t, none⟩ pl p f fr := by
  obtain ⟨sp, hs, ⟨-, rfl, -⟩ | ⟨q, hq, htype, ⟨e, -, rfl⟩ | ⟨u, hadds, hrest⟩⟩⟩ :=
    duplicatePage_cases hk run
  · exact hseat
  · exact hseat
  · have hpage : Pager.pageAt s.spaces ⟨parent, other.key⟩ = some q :=
      (pageAt_of_get? hs other.key).trans hq
    have hregister := (hadds.resting h hpage htype).1
    have hu := h.move hregister
    have hadded := hseat.move h (l := .register ..) trivial hregister
    rcases hrest with ⟨-, -, rfl⟩ | ⟨hinit, hinherit⟩
    · exact hadded
    · obtain ⟨spc, hspc, hcopy, hkind, -⟩ :=
        hadds.inherits (h.linked.keyed hpage).1 htype hinit
      exact inherit_seated hu hadded hpinned (inherit_cases hu hspc hcopy rfl hkind hinherit)

theorem duplicatePages_seated (h : Coherent ⟨s, none⟩) (hseat : Seated ⟨s, none⟩ pl p f fr)
    (hpinned : fr.pinned = true) {parent child : SpaceId} {addresses : List VirtualAddress}
    (haligned : ∀ a ∈ addresses, a.value % pageSize = 0) {r : Except PagerError Unit}
    (run : duplicatePages parent child addresses s = .ok (r, t)) :
    Seated ⟨t, none⟩ pl p f fr := by
  refine (duplicatePages_keep (P := fun u => Coherent ⟨u, none⟩ ∧ Seated ⟨u, none⟩ pl p f fr)
    (fun {other q u v} _ hk hu hpage => ?_) haligned ⟨h, hseat⟩ run).2
  exact ⟨hu.1.moves (duplicatePage_moves hu.1 hk hpage),
    duplicatePage_seated hu.1 hu.2 hpinned hk hpage⟩

theorem teardown_seated (h : Coherent ⟨s, none⟩) (hseat : Seated ⟨s, none⟩ pl p f fr)
    (hne : pl.space ≠ id) {r : Except PagerError Unit} (run : teardown id s = .ok (r, t)) :
    Seated ⟨t, none⟩ pl p f fr := by
  refine hseat.moves h (teardown_moves h run).2.1 fun l hl => ?_
  cases l with
  | unseat other q =>
    rintro rfl
    exact absurd hl hne
  | _ => first | exact hl.elim | trivial

/-- The frames of a copy come from other pages. If it fails, only the copy goes. -/
theorem duplicate_seated (h : Coherent ⟨s, none⟩) (hseat : Seated ⟨s, none⟩ pl p f fr)
    (hpinned : fr.pinned = true) {parent : SpaceId} {refuses : Option PagerError}
    {r : Except PagerError SpaceId} (run : duplicate parent refuses s = .ok (r, t)) :
    Seated ⟨t, none⟩ pl p f fr := by
  have hfresh := h.fresh s.nextSpace (Nat.le_refl _)
  have hne : pl.space ≠ s.nextSpace := by
    intro heq
    obtain ⟨sp, hs, -⟩ := exists_space_of_pageAt hseat.page
    rw [heq] at hs
    cases hfresh.symm.trans hs
  obtain ⟨sp, v, w, hs, htrace, -, hcase⟩ := duplicate_cases h run
  have hprepared : Moves Label.Rests ⟨s, none⟩ ⟨v, none⟩ :=
    .of_trace htrace (by simp [Label.Rests])
  have hv := h.moves hprepared
  have hkept := hseat.moves h hprepared fun l hl => hl.leaves pl p
  have haligned := aligned_addresses h hs
  rcases hcase with ⟨-, hpages, hlast, -⟩ | ⟨e, -, hpages, hteardown⟩
  · have hw := hv.moves (duplicatePages_moves hv haligned hpages)
    have hfilled := duplicatePages_seated hv hkept hpinned haligned hpages
    have hclosing : Moves Label.Rests ⟨w, none⟩ ⟨t, none⟩ :=
      .of_trace hlast (by simp [Label.Rests])
    exact hfilled.moves hw hclosing fun l hl => hl.leaves pl p
  · have hw := hv.moves (duplicatePages_moves hv haligned hpages)
    have hfilled := duplicatePages_seated hv hkept hpinned haligned hpages
    exact teardown_seated hw hfilled hne hteardown

theorem munmap_seated (h : Coherent ⟨s, none⟩) (hseat : Seated ⟨s, none⟩ pl p f fr)
    (hne : ∀ sp mapping, pl.space = id → s.spaces.get? id = some sp →
      sp.mappings.get? a.value = some mapping → p.mapping ≠ some mapping.id)
    {r : Except PagerError Unit} (run : munmap id a s = .ok (r, t)) :
    Seated ⟨t, none⟩ pl p f fr := by
  obtain ⟨sp, hs, ⟨-, -, rfl⟩ |
    ⟨mapping, failure, addresses, u, v, events, hmapping, -, hunrecord, hu, hpages, rfl, -⟩⟩ :=
    munmap_cases h run
  · exact hseat
  · have hunrecorded := hseat.move h (l := .unrecord ..) trivial hunrecord
    have hcoherent := h.move hunrecord
    obtain ⟨-, hmoves, -⟩ := unmapPages_cases hcoherent hu hpages
    have hend := hunrecorded.moves hcoherent hmoves fun l hl =>
      hl.leaves fun hspace => hne sp mapping hspace hs hmapping
    exact ⟨hend.page, hend.resident, hend.tracked⟩

/-- The operation may end the pin of the page that holds `a`. -/
def Releases (s : Machine) (id : SpaceId) (a : VirtualAddress) : Op → Prop
  | .onSpace other address .unpin | .onSpace other address .remove =>
    other = id ∧ (⟨address⟩ : VirtualAddress).pageBase = a.pageBase
  | .onSpace other address .munmap =>
    other = id ∧ ∃ sp mapping p, s.spaces.get? id = some sp ∧
      sp.mappings.get? address = some mapping ∧ s.page? id a = some p ∧
      p.mapping = some mapping.id
  | .onSpace other _ .teardown => other = id
  | _ => False

/-- An operation that does not end the pin of a page leaves it where it is. -/
theorem step_seated (h : Coherent ⟨s, none⟩) (hseat : Seated ⟨s, none⟩ (.of id a) p f fr)
    (hpinned : fr.pinned = true) {op : Op} (hop : ¬ s.Releases id a op)
    {r : Except Failure Value} (run : step op s = .ok (r, t)) :
    Seated ⟨t, none⟩ (.of id a) p f fr := by
  -- operations of no space, and those that say what their moves are
  have hrests : (∀ l, op.Makes s l → l.Leaves (.of id a) p) → Seated ⟨t, none⟩ (.of id a) p f fr :=
    fun hl => hseat.moves h (step_moves h run) hl
  cases op with
  | onSpace other address op =>
    rcases onSpace_cases run with ⟨-, -, hrun⟩ | ⟨-, rfl⟩
    · cases op with
      | teardown =>
        obtain ⟨q, hq, -⟩ := liftPager_eq_ok.1 hrun
        exact teardown_seated h hseat (Ne.symm hop) hq
      | munmap =>
        obtain ⟨q, hq, -⟩ := liftPager_eq_ok.1 hrun
        refine munmap_seated h hseat (fun sp mapping hspace hs hmapping hp => ?_) hq
        obtain rfl : id = other := hspace
        exact hop ⟨rfl, sp, mapping, p, hs, hmapping, page?_eq.trans hseat.page, hp⟩
      | remove =>
        refine hrests fun l ⟨mapping, hl⟩ => ?_
        cases l with
        | unseat pl q =>
          rintro rfl
          exact absurd ⟨(congrArg Place.space hl.1).symm, Place.base_eq hl.1.symm⟩ hop
        | _ => first | exact hl.elim | trivial
      | claim =>
        obtain ⟨q, hq, -⟩ := liftPager_eq_ok.1 hrun
        exact claim_seated h hseat hpinned hq
      | pin =>
        obtain ⟨q, hq, -⟩ := liftPager_eq_ok.1 hrun
        exact pin_seated h hseat hpinned hq
      | unpin =>
        obtain ⟨q, hq, -⟩ := liftPager_eq_ok.1 hrun
        refine unpin_seated h hseat (fun hplace => hop ?_) hq
        exact ⟨congrArg Place.space hplace, Place.base_eq hplace⟩
      | copyFrom length =>
        obtain ⟨q, hq, -⟩ := liftPager_eq_ok.1 hrun
        exact readUser_seated h hseat hpinned hq
      | copyTo bytes =>
        obtain ⟨q, hq, -⟩ := liftPager_eq_ok.1 hrun
        exact writeUser_seated h hseat hpinned hq
      | fault write user notPresent stackPointer =>
        obtain ⟨sp, -, hrun⟩ := Action.liftM_bind_eq_ok.1 hrun
        obtain ⟨q, hq, -⟩ := liftPager_eq_ok.1 hrun
        exact serveFault_seated h hseat hpinned hq
      | duplicate refuses =>
        obtain ⟨q, hq, -⟩ := liftPager_eq_ok.1 hrun
        exact duplicate_seated h hseat hpinned hq
      | touch write =>
        refine hrests fun l hl => ?_
        rcases hl with rfl | rfl <;> trivial
      | registerAnonymous | register | registerSegment | mmap | lookup | count | setStackPointer |
        refuseEntries | lock =>
        refine hrests fun l hl => ?_
        cases l <;> first | exact hl.elim | trivial
    · exact hseat
  | createSpace =>
    refine hrests fun l hl => ?_
    rcases hl with rfl | rfl <;> trivial
  | unlock =>
    refine hrests fun l hl => ?_
    cases l <;> first | exact hl.elim | trivial
  | openFile | closeFile | writeFile | switchFile | switchDisk =>
    refine hrests fun l hl => ?_
    rw [hl]
    trivial

theorem loose (s : Machine) : Moment.Loose ⟨s, none⟩ :=
  fun _ _ hheld => (Option.some_ne_none _ hheld.symm).elim

/-- A claimed page's frame backs it. -/
theorem claim_seats (h : Coherent ⟨s, none⟩) (run : claim id a s = .ok (.ok f, t)) :
    ∃ p fr, Seated ⟨t, none⟩ (.of id a) p f fr := by
  obtain ⟨hmoves, hclaimed⟩ := claim_moves h run
  obtain ⟨p, hp, hres⟩ := hclaimed f rfl
  obtain ⟨fr, -, hf, -⟩ := (h.moves hmoves).linked.page_frame hp hres
  exact ⟨p, fr, hp, hres, hf⟩

/-- The page that was pinned lies in a pinned frame. -/
theorem pin_seats (h : Coherent ⟨s, none⟩) (run : pin id a s = .ok (.ok (), t)) :
    ∃ p f fr, Seated ⟨t, none⟩ (.of id a) p f fr ∧ fr.pinned = true := by
  rcases pin_cases run with ⟨e, hr, -⟩ | ⟨-, f, u, fr, hclaim, hf, rfl⟩
  · cases hr
  · obtain ⟨p, gr, hseat⟩ := claim_seats h hclaim
    cases hseat.tracked.symm.trans hf
    have hu := h.moves (claim_moves h hclaim).1
    refine ⟨p, f, { fr with pinned := true }, ⟨hseat.page, hseat.resident, ?_⟩, rfl⟩
    refine (congrFun (FrameTable.put_spec hu.frames (Option.isSome_of_eq_some hf) _).1 f).trans ?_
    exact Function.update_self ..

/-- A frame is pinned for the page that was pinned, and for no other. -/
theorem pin_pins (h : Coherent ⟨s, none⟩) {r : Except PagerError Unit}
    (run : pin id a s = .ok (r, t)) (hf : t.frames.get? f = some fr) (hpinned : fr.pinned = true) :
    s.frames.get? f = some fr ∨ r = .ok () ∧ fr.owner = some ⟨id, a.pageBase⟩ := by
  have hclaims : ∀ l : Label, l.Claims (· = .of id a) → l ≠ .pin := by
    rintro l hl rfl
    exact hl
  rcases pin_cases run with ⟨e, rfl, hclaim⟩ | ⟨rfl, g, u, gr, hclaim, hg, rfl⟩
  · exact .inl (h.pins s.loose (claim_moves h hclaim).1 hclaims f fr hf hpinned)
  · have hu := h.moves (claim_moves h hclaim).1
    have hf := (congrFun (FrameTable.put_spec hu.frames (Option.isSome_of_eq_some hg) _).1 f).symm.trans hf
    by_cases hfg : f = g
    · subst hfg
      rw [Function.update_self] at hf
      cases hf
      obtain ⟨p, kr, hseat⟩ := claim_seats h hclaim
      cases hseat.tracked.symm.trans hg
      exact .inr ⟨rfl, hseat.owner hu⟩
    · rw [Function.update_of_ne hfg] at hf
      exact .inl (h.pins s.loose (claim_moves h hclaim).1 hclaims f fr hf hpinned)

/-- The page of an operation that pins it. -/
def PinsFor (op : Op) (r : Except Failure Value) (o : Owner) : Prop :=
  ∃ id address, op = .onSpace id address .pin ∧ r = .ok .unit ∧
    o = ⟨id, (⟨address⟩ : VirtualAddress).pageBase⟩

/-- A pinned frame was pinned before, by the same page, or it is pinned for its page now. -/
theorem step_pins (h : Coherent ⟨s, none⟩) {op : Op} {r : Except Failure Value}
    (run : step op s = .ok (r, t)) (hf : t.frames.get? f = some fr) (hpinned : fr.pinned = true) :
    s.frames.get? f = some fr ∨ ∃ o, fr.owner = some o ∧ PinsFor op r o := by
  have hmoves : (∀ l, op.Makes s l → l ≠ .pin) → s.frames.get? f = some fr :=
    fun hl => h.pins s.loose (step_moves h run) hl f fr hf hpinned
  cases op with
  | onSpace id address op =>
    rcases onSpace_cases run with ⟨-, -, hrun⟩ | ⟨-, rfl⟩
    · cases op with
      | pin =>
        obtain ⟨q, hq, rfl⟩ := liftPager_eq_ok.1 hrun
        rcases pin_pins h hq hf hpinned with hbefore | ⟨rfl, ho⟩
        · exact .inl hbefore
        · exact .inr ⟨_, ho, id, address, rfl, rfl, rfl⟩
      | unpin =>
        obtain ⟨q, hq, -⟩ := liftPager_eq_ok.1 hrun
        rcases unpin_cases hq with rfl | ⟨p, g, gr, -, -, hg, rfl⟩
        · exact .inl hf
        · have hput := (FrameTable.put_spec h.frames (Option.isSome_of_eq_some hg)
            { gr with pinned := false }).1
          exact .inl (Moment.Pins.of_update (m := ⟨s, none⟩) (n := ⟨_, none⟩) hput rfl f fr hf hpinned)
      | _ =>
        refine .inl (hmoves ?_)
        rintro l hl rfl
        simp [Op.Makes, SpaceOp.Makes, Label.Clears, Label.Registers, Label.Maps, Label.Dismantles,
          Label.Removes, Label.Claims, Label.Adjusts, Label.Copies, Label.Founds, Label.Inherits,
          Label.Seeks] at hl
    · exact .inl hf
  | _ =>
    refine .inl (hmoves ?_)
    rintro l hl rfl
    simp [Op.Makes, Label.Adjusts] at hl

/-- The page that holds `a` lies pinned in a frame, and the processor finds it there. -/
structure PinnedIn (s : Machine) (id : SpaceId) (a : VirtualAddress) (p : Page) (f : FrameId)
    (address : PhysicalAddress) : Prop where
  page : s.page? id a = some p
  resident : p.frame = some f
  frame : s.frames.get? f = some { address, owner := some ⟨id, a.pageBase⟩, pinned := true }
  translation : s.translate id a.pageBase = some address
  writable : (s.entry? id a.pageBase).map (·.flags.has .writable) = some p.writable

theorem pinnedIn_of_seated (h : Coherent ⟨s, none⟩) (hseat : Seated ⟨s, none⟩ (.of id a) p f fr)
    (hpinned : fr.pinned = true) : s.PinnedIn id a p f fr.address := by
  obtain ⟨gr, e, hg, ho, he, hshows⟩ := h.linked.page_frame hseat.page hseat.resident
  cases hseat.tracked.symm.trans hg
  have he : s.entry? id a.pageBase = some e := he
  have ho : fr.owner = some ⟨id, a.pageBase⟩ := ho
  refine ⟨page?_eq.trans hseat.page, hseat.resident, ?_, ?_, ?_⟩
  · rw [← ho, ← hpinned]
    exact hg
  · rw [translate_eq, he]
    exact hshows.1
  · rw [he, ← hshows.2]
    rfl

/-- No operation of the run may end the pin of the page that holds `a`. -/
def Unreleased (id : SpaceId) (a : VirtualAddress) : List Op → Machine → Prop
  | [], _ => True
  | op :: rest, s =>
    ¬ s.Releases id a op ∧ ∀ r t, step op s = .ok (r, t) → Unreleased id a rest t

/-- A run that does not end the pin of a page leaves it where it is, all the time. -/
theorem visited_seated (h : Coherent ⟨s, none⟩) (hseat : Seated ⟨s, none⟩ (.of id a) p f fr)
    (hpinned : fr.pinned = true) {ops : List Op} (hops : Unreleased id a ops s) :
    ∀ u ∈ s :: visited ops s, u.PinnedIn id a p f fr.address := by
  induction ops generalizing s with
  | nil =>
    intro u hu
    rw [List.mem_singleton.1 hu]
    exact pinnedIn_of_seated h hseat hpinned
  | cons op rest ih =>
    intro u hu
    rcases List.mem_cons.1 hu with rfl | hu
    · exact pinnedIn_of_seated h hseat hpinned
    · unfold visited at hu
      cases hstep : step op s with
      | error b =>
        rw [hstep] at hu
        cases hu
      | ok last =>
        obtain ⟨r, t⟩ := last
        rw [hstep] at hu
        exact ih (h.moves (step_moves h hstep)) (step_seated h hseat hpinned hops.1 hstep)
          (hops.2 r t hstep) u hu

/-- A page that was pinned stays in its frame until it is released, whatever is asked of any
space meanwhile, and the page that gets a frame next does not find it pinned. -/
theorem Reachable.pins_stay (hs : Reachable s) :
    (∀ id address value t, step (.onSpace id address .pin) s = .ok (.ok value, t) →
      ∃ p f physical, ∀ ops, Unreleased id ⟨address⟩ ops t →
        ∀ u ∈ t :: visited ops t, u.PinnedIn id ⟨address⟩ p f physical) ∧
    ∀ op r t, step op s = .ok (r, t) → ∀ f fr, t.frames.get? f = some fr → fr.pinned = true →
      s.frames.get? f = some fr ∨ ∃ o, fr.owner = some o ∧ PinsFor op r o := by
  have h := hs.coherent
  refine ⟨fun id address value t run => ?_, fun op r t run f fr => step_pins h run⟩
  rcases requireIdle_cases run with ⟨sp, -, -, hrun⟩ | ⟨⟨reason, hr⟩, -⟩
  · obtain ⟨b, hb, hrun⟩ := Action.liftM_bind_eq_ok.1 hrun
    obtain ⟨-, rfl⟩ := Address.make_eq_ok.1 hb
    obtain ⟨q, hq, hr⟩ := liftPager_eq_ok.1 hrun
    cases q with
    | error e => cases hr
    | ok =>
      obtain ⟨p, f, fr, hseat, hpinned⟩ := pin_seats h hq
      refine ⟨p, f, fr.address, fun ops hops => ?_⟩
      exact visited_seated (h.moves (pin_moves h hq)) hseat hpinned hops
  · cases hr

/-- Two spaces share two frames; the first registers one page and the second two. -/
def sharing : List Op := [.createSpace, .createSpace,
  .onSpace 1 0x10000 (.registerAnonymous true), .onSpace 2 0x10000 (.registerAnonymous true),
  .onSpace 2 0x11000 (.registerAnonymous true)]

/-- The second space claims both its pages, and its second page keeps the frame that is left while
the first space is copied. -/
def pressing : List Op := [.onSpace 2 0x10000 .claim, .onSpace 2 0x11000 .claim,
  .onSpace 2 0x11000 .unpin, .onSpace 1 0 (.duplicate none)]

/-- The page is still in the first frame after two evictions from the other one. -/
theorem pins_stay_of_pressing : ∃ s t p, Reachable s ∧
    step (.onSpace 1 0x10010 .pin) s = .ok (.ok .unit, t) ∧
    (visited pressing t).map Machine.evictions = [0, 1, 1, 2] ∧
    (∀ u ∈ t :: visited pressing t, u.PinnedIn 1 ⟨0x10010⟩ p 0 ⟨0⟩) ∧
    ∀ f fr, t.frames.get? f = some fr → fr.pinned = true → fr.owner = some ⟨1, ⟨0x10000⟩⟩ := by
  have hend : (boot 2 64 [] >>= fun start => run sharing start >>= fun last =>
      step (.onSpace 1 0x10010 .pin) last.2 >>= fun pinned =>
        .ok (last.2.frames.slots.length, pinned.1.toBool,
          (visited pressing pinned.2).map Machine.evictions,
          (pinned.2.page? 1 ⟨0x10010⟩).bind Page.frame,
          (pinned.2.translate 1 ⟨0x10000⟩).map Address.value)) =
      .ok (0, true, [0, 1, 1, 2], some 0, some 0) := by decide +kernel
  obtain ⟨start, hboot, hend⟩ := except_bind_eq_ok.1 hend
  obtain ⟨⟨results, s⟩, hrun, hend⟩ := except_bind_eq_ok.1 hend
  obtain ⟨⟨r, t⟩, hpin, hend⟩ := except_bind_eq_ok.1 hend
  obtain ⟨hslots, hrest⟩ := Prod.mk.inj (Except.ok.inj hend)
  obtain ⟨hr, hrest⟩ := Prod.mk.inj hrest
  obtain ⟨hevictions, hrest⟩ := Prod.mk.inj hrest
  obtain ⟨hframe, haddress⟩ := Prod.mk.inj hrest
  obtain rfl : r = .ok .unit := by
    rcases requireIdle_cases hpin with ⟨sp, -, -, hidle⟩ | ⟨⟨e, rfl⟩, -⟩
    · obtain ⟨a, -, hidle⟩ := Action.liftM_bind_eq_ok.1 hidle
      obtain ⟨q, -, rfl⟩ := liftPager_eq_ok.1 hidle
      cases q with
      | error e => cases hr
      | ok => rfl
    · cases hr
  have hs : Reachable s := ⟨2, 64, [], sharing, start, results, hboot, hrun⟩
  obtain ⟨hstay, hpins⟩ := hs.pins_stay
  obtain ⟨p, f, physical, hkept⟩ := hstay 1 0x10010 .unit t hpin
  have hpinned := hkept pressing (by simp [Unreleased, Releases, pressing])
  -- which frame it is can be read off the state after the pin
  have hfirst := hpinned t (List.mem_cons_self ..)
  rw [hfirst.page, Option.bind_some, hfirst.resident] at hframe
  cases hframe
  rw [show t.translate 1 ⟨0x10000⟩ = some physical from hfirst.translation] at haddress
  obtain rfl : physical = ⟨0⟩ := Address.ext (Option.some.inj haddress)
  refine ⟨s, t, p, hs, hpin, hevictions, hpinned, fun f fr hf hfr => ?_⟩
  rcases hpins _ _ _ hpin f fr hf hfr with hbefore | ⟨o, ho, id, address, hop, -, rfl⟩
  · rw [FrameTable.get?, List.length_eq_zero_iff.1 hslots] at hbefore
    cases hbefore
  · cases hop
    exact ho

end Machine
end Pager
