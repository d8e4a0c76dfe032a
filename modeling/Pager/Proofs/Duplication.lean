import Pager.Proofs.Cells
import Pager.Proofs.Lifetime
import Pager.Proofs.Paging
import Pager.Proofs.Roster

/-!
Copying a space. A page that was never populated is copied with its initializer;
a populated one gets a frame of its own, filled with what the parent's page holds
at that moment. The search for that frame may move the parent's page out, but it
changes neither the parent's contents nor the child's.
-/
namespace Pager

open Function

namespace Label

/-- Pages of no mapping are added to one space and get frames as they are. -/
def Inherits (id : SpaceId) : Label → Prop
  | scribble | giveBack => True
  | register pl page => pl.space = id ∧ page.mapping = none ∧ page.type = .anonymous
  | seat pl => pl.space = id
  | l => l.Seeks

/-- The page at `pl` gets a frame with contents from elsewhere, if one is found. -/
def Fills (pl : Place) : Label → Prop
  | scribble | giveBack => True
  | seat other => other = pl
  | l => l.Seeks

/-- A child is created and filled. -/
def Founds (child : SpaceId) (refuses : Option PagerError) : Label → Prop
  | create id => id = child
  | adjust answer => answer = refuses ∨ answer = none
  | l => l.Inherits child

theorem Inherits.place?_ne {l : Label} {id : SpaceId} (h : l.Inherits id) {pl : Place}
    (hne : pl.space ≠ id) : l.place? ≠ some pl := by
  intro hl
  cases l with
  | register other _ =>
    cases hl
    exact hne h.1
  | seat other =>
    cases hl
    exact hne h
  | _ => cases hl <;> cases h

theorem Clears.place?_ne {l : Label} {id : SpaceId} (h : l.Clears id) {pl : Place}
    (hne : pl.space ≠ id) : l.place? ≠ some pl := by
  intro hl
  cases l with
  | unseat other _ | remove other _ =>
    cases hl
    exact hne h
  | _ => cases hl <;> cases h

theorem Inherits.founds {l : Label} {id : SpaceId} {refuses : Option PagerError}
    (h : l.Inherits id) : l.Founds id refuses := by
  cases l <;> first | exact h | cases h

theorem Seeks.fills {l : Label} {pl : Place} (h : l.Seeks) : l.Fills pl := by
  cases l <;> first | exact h | cases h

theorem Fills.inherits {l : Label} {pl : Place} (h : l.Fills pl) : l.Inherits pl.space := by
  cases l with
  | seat other => exact congrArg Place.space h
  | _ => first | exact h | cases h

theorem Inherits.bookless {l : Label} {id : SpaceId} (h : l.Inherits id) : l.Bookless := by
  cases l <;> trivial

end Label

namespace Machine

variable {s t : Machine} {f : FrameId} {fr : Frame} {parent : SpaceId} {pl : Place} {sp : Space}
  {p : Page} {r : Except PagerError Unit}

/-- The frame in hand gets what the parent's page holds, wherever that is kept. -/
theorem copyContents_moves (h : Coherent ⟨s, some f⟩) (hf : s.frames.get? f = some fr)
    (hk : pl.key % pageSize = 0) (run : copyContents parent pl.address fr.address s = .ok (r, t)) :
    Moves (· = .scribble) ⟨s, some f⟩ ⟨t, some f⟩ ∧
      (r = .ok () → ∃ q, Pager.pageAt s.spaces ⟨parent, pl.key⟩ = some q ∧
        t.frameBytes f = s.contents q) := by
  have hlen := h.length_frame hf
  have hstored : ∀ {bytes : Bytes} {pool : FramePool},
      s.pool.write fr.address 0 bytes = .ok pool → bytes.length = pageSize →
      frameBytes { s with pool } f = bytes := by
    intro bytes pool hw hb
    rw [h.frameBytes_write hf hw, Function.update_self, frameBytes_of_get? hf,
      Bytes.overlay_zero (hb.trans hlen.symm)]
  unfold copyContents at run
  obtain ⟨sp, hs, ⟨q, hq, run⟩ | ⟨-, rfl, rfl⟩⟩ := page_bind_eq_ok.1 run
  · rw [PageTable.get?_address hk] at hq
    have hpage : Pager.pageAt s.spaces ⟨parent, pl.key⟩ = some q := (pageAt_of_get? hs _).trans hq
    have hcontents := h.length_contents hpage
    cases hframe : q.frame with
    | some g =>
      rw [hframe] at run
      dsimp only at run
      obtain ⟨gr, hg, run⟩ := addressOfFrame_bind_eq_ok.1 run
      obtain ⟨bytes, hread, run⟩ := readFrame_bind_eq_ok.1 run
      obtain ⟨-, -, rfl⟩ := FramePool.read_eq_ok.1 hread
      obtain ⟨pool, hw, rfl, rfl⟩ := writeFrame_eq_ok.1 run
      have hbytes : s.contents q = s.pool.bytesAt gr.address := by
        rw [contents_of_frame hframe, frameBytes_of_get? hg]
      rw [hbytes] at hcontents
      exact ⟨.single (.scribble hf hw) rfl, fun _ => ⟨q, hpage, by rw [hstored hw hcontents, hbytes]⟩⟩
    | none =>
      rw [hframe] at run
      cases hslot : q.slot with
      | some n =>
        rw [hslot] at run
        dsimp only at run
        rw [Action.get_bind] at run
        obtain ⟨stale, hread, run⟩ := readFrame_bind_eq_ok.1 run
        obtain ⟨⟨bytes, result⟩, hpages, run⟩ := Action.liftM_bind_eq_ok.1 run
        obtain ⟨hb, hfull⟩ := SwapTable.readPage_spec h.swap hpages
        rcases Action.bind_eq_ok.1 run with ⟨_, u, hwrite, hlast⟩ | ⟨e, hwrite, -⟩
        · obtain ⟨pool, hw, -, rfl⟩ := writeFrame_eq_ok.1 hwrite
          cases hlast
          refine ⟨.single (.scribble hf hw) rfl, fun hr => ⟨q, hpage, ?_⟩⟩
          cases result with
          | error e => cases hr
          | ok _ =>
            have hlt := SwapTable.lt_of_isUsed (h.isUsed_of_slot hpage hslot)
            rw [hstored hw hb, contents_of_slot hframe hslot, hfull rfl hlt]
        · obtain ⟨_, -, hr, -⟩ := writeFrame_eq_ok.1 hwrite
          cases hr
      | none =>
        rw [hslot] at run
        obtain ⟨pool, hw, rfl, rfl⟩ := writeFrame_eq_ok.1 run
        refine ⟨.single (.scribble hf hw) rfl, fun _ => ⟨q, hpage, ?_⟩⟩
        rw [hstored hw (Bytes.length_zeros pageSize), contents_of_neither hframe hslot]
  · exact ⟨.refl, fun hr => by cases hr⟩

/-- The spaces are as they were after something was stored in the frame in hand. -/
theorem spaces_of_scribble {m n : Moment} (h : Moves (· = .scribble) m n) :
    n.machine.spaces = m.machine.spaces ∧ n.machine.frames = m.machine.frames := by
  refine h.preserves (P := fun n => n.machine.spaces = m.machine.spaces ∧
    n.machine.frames = m.machine.frames) (fun {l _ _} hl hm hmove => ?_) ⟨rfl, rfl⟩
  subst hl
  cases hmove
  exact hm

/-- How the child's page at `pl` gets a frame: one is searched for, filled with what the parent's
page holds then, and either seated or given up. -/
inductive Inherited (s : Machine) (parent : SpaceId) (pl : Place) :
    Except PagerError Unit → Machine → Prop
  | frameless {e : PagerError} {t : Machine} (search : obtainFrame s = .ok (.error e, t)) :
      Inherited s parent pl (.error e) t
  | abandoned {f : FrameId} {e : PagerError} {u v t : Machine}
      (search : obtainFrame s = .ok (.ok f, u))
      (copies : Moves (· = .scribble) ⟨u, some f⟩ ⟨v, some f⟩)
      (back : Move .giveBack ⟨v, some f⟩ ⟨t, none⟩) : Inherited s parent pl (.error e) t
  | seated {f : FrameId} {u v t : Machine} {q : Page} (search : obtainFrame s = .ok (.ok f, u))
      (copies : Moves (· = .scribble) ⟨u, some f⟩ ⟨v, some f⟩)
      (source : Pager.pageAt u.spaces ⟨parent, pl.key⟩ = some q)
      (contents : v.frameBytes f = u.contents q)
      (seat : Move (.seat pl) ⟨v, some f⟩ ⟨t, none⟩) : Inherited s parent pl (.ok ()) t

theorem inherit_cases (h : Coherent ⟨s, none⟩) (hs : s.spaces.get? pl.space = some sp)
    (hp : sp.pages.pages.get? pl.key = some p) (habs : p.frame = none)
    (hkind : p.kind = .anonymous none) (run : inherit parent pl.space pl.address s = .ok (r, t)) :
    Inherited s parent pl r t := by
  have hpage := Coherent.pageAt_eq hs hp
  have hk : pl.key % pageSize = 0 := (h.linked.keyed hpage).2
  unfold inherit at run
  rcases Action.bind_eq_ok.1 run with ⟨f, u, hobtain, hnext⟩ | ⟨e, hobtain, rfl⟩
  · have hseek := obtainFrame_moves h hobtain
    have hu := h.moves hseek
    obtain ⟨su, hsu, hpu⟩ := exists_space_of_pageAt (pageAt_of_seeks h hseek hpage habs)
    have hsu : u.spaces.get? pl.space = some su := hsu
    obtain ⟨fr, hf, hnext⟩ := addressOfFrame_bind_eq_ok.1 hnext
    rcases Action.bind_eq_ok.1 hnext with ⟨_, w, hsettle, hlast⟩ | ⟨e, hsettle, rfl⟩
    · rcases settle_cases hf hsettle with ⟨hcopy, -⟩ | ⟨e, _, -, hr, -⟩
      · rcases Action.bind_eq_ok.1 hcopy with ⟨_, v, hcopied, hinstall⟩ | ⟨e, -, hr⟩
        · obtain ⟨hscribble, hsame⟩ := copyContents_moves hu hf hk hcopied
          obtain ⟨q, hq, hbytes⟩ := hsame rfl
          obtain ⟨hspaces, hframes⟩ := spaces_of_scribble hscribble
          dsimp only at hspaces hframes
          have hsv : v.spaces.get? pl.space = some su := by rw [hspaces, hsu]
          have hfv : v.frames.get? f = some fr := by rw [hframes, hf]
          rcases install_cases hk hsv hpu hinstall with ⟨e, -, hr, -⟩ | ⟨directory, hmap, -, rfl⟩
          · cases hr
          · have hget := Table.get?_insert_self v.spaces pl.space { su with directory }
            have hpu' : ({ su with directory } : Space).pages.pages.get? pl.key = some p := hpu
            obtain ⟨rfl, -, fr', hf', -, rfl⟩ := bindFrame_cases hk hget hpu' hlast
            have hf' : v.frames.get? f = some fr' := hf'
            rw [hfv] at hf'
            cases hf'
            have hmove := Move.seat hfv hsv hpu habs hkind hmap
            simp only [Table.insert_insert]
            exact .seated hobtain hscribble hq hbytes hmove
        · cases hr
      · cases hr
    · rcases settle_cases hf hsettle with ⟨-, hr⟩ | ⟨e', v, hcopy, -, hback⟩
      · cases hr
      · have hscribble : Moves (· = .scribble) ⟨u, some f⟩ ⟨v, some f⟩ := by
          rcases Action.bind_eq_ok.1 hcopy with ⟨_, x, hcopied, hinstall⟩ | ⟨e, hcopied, -⟩
          · obtain ⟨hscribble, -⟩ := copyContents_moves hu hf hk hcopied
            have hsx : x.spaces.get? pl.space = some su := by
              rw [show x.spaces = u.spaces from (spaces_of_scribble hscribble).1, hsu]
            rcases install_cases hk hsx hpu hinstall with ⟨e, -, -, rfl⟩ | ⟨directory, -, hr, -⟩
            · exact hscribble
            · cases hr
          · exact (copyContents_moves hu hf hk hcopied).1
        exact .abandoned hobtain hscribble hback
  · exact .frameless hobtain

/-- The child's page gets a frame with what the parent's page holds, or nothing has changed but
where other pages lie. -/
theorem inherit_moves (h : Coherent ⟨s, none⟩) (hs : s.spaces.get? pl.space = some sp)
    (hp : sp.pages.pages.get? pl.key = some p) (habs : p.frame = none)
    (hkind : p.kind = .anonymous none) (run : inherit parent pl.space pl.address s = .ok (r, t)) :
    Moves (Label.Fills pl) ⟨s, none⟩ ⟨t, none⟩ ∧
      (r = .ok () → ∃ f u v q, Moves Label.Seeks ⟨s, none⟩ ⟨u, some f⟩ ∧
        Moves (· = .scribble) ⟨u, some f⟩ ⟨v, some f⟩ ∧
        Pager.pageAt u.spaces ⟨parent, pl.key⟩ = some q ∧ v.frameBytes f = u.contents q ∧
        Move (.seat pl) ⟨v, some f⟩ ⟨t, none⟩) := by
  have hseeks : ∀ l : Label, l.Seeks → l.Fills pl := fun l hl => hl.fills
  have hscribbles : ∀ l : Label, l = .scribble → l.Fills pl := by
    rintro _ rfl
    trivial
  cases inherit_cases h hs hp habs hkind run with
  | frameless hsearch =>
    exact ⟨(obtainFrame_moves h hsearch).mono hseeks, fun hr => by cases hr⟩
  | abandoned hsearch hcopies hback =>
    have hseek := (obtainFrame_moves h hsearch).mono hseeks
    exact ⟨(hseek.trans (hcopies.mono hscribbles)).tail hback trivial, fun hr => by cases hr⟩
  | @seated f u v _ q hsearch hcopies hsource hcontents hseat =>
    have hseek := obtainFrame_moves h hsearch
    refine ⟨((hseek.mono hseeks).trans (hcopies.mono hscribbles)).tail hseat rfl, fun _ => ?_⟩
    exact ⟨f, u, v, q, hseek, hcopies, hsource, hcontents, hseat⟩

theorem inherit_flat (h : Coherent ⟨s, none⟩) (hs : s.spaces.get? pl.space = some sp)
    (hp : sp.pages.pages.get? pl.key = some p) (habs : p.frame = none)
    (hkind : p.kind = .anonymous none) {bytes : Bytes}
    (hflat : s.flat ⟨parent, pl.key⟩ = some (.holding bytes))
    (run : inherit parent pl.space pl.address s = .ok (.ok (), t)) :
    t.flat = Function.update s.flat pl (some (.holding bytes)) := by
  obtain ⟨f, u, v, q, hseek, hscribble, hq, hbytes, hseat⟩ :=
    (inherit_moves h hs hp habs hkind run).2 rfl
  have hu := h.moves hseek
  have hsought : u.flat = s.flat := h.flat_still_moves hseek fun l hl => by
    cases l <;> first | rfl | cases hl
  have hscribbled : v.flat = u.flat := hu.flat_still_moves hscribble fun l hl => by
    rw [hl]
    rfl
  obtain ⟨g, hg, ht⟩ := (hu.moves hscribble).flat_seat hseat
  cases hg
  have hcell : u.cell q = some (.holding bytes) := by
    rw [← flat_of_page hq, hsought, hflat]
  rw [contents_of_cell hcell] at hbytes
  exact ht.trans (by rw [hbytes]; exact congrArg (Function.update · pl _) (hscribbled.trans hsought))

/-- Copying one of the parent's pages does nothing to a page of a file. For any other the page is
registered as it rests, and filled if the parent's was populated. -/
theorem duplicatePage_cases (hk : pl.key % pageSize = 0)
    (run : duplicatePage parent pl.space pl.address s = .ok (r, t)) :
    ∃ sp, s.spaces.get? parent = some sp ∧
      ((r = .ok () ∧ t = s ∧ ∀ p, sp.pages.pages.get? pl.key = some p → p.type = .fileBacked) ∨
        ∃ p, sp.pages.pages.get? pl.key = some p ∧ p.type = .anonymous ∧
          ((∃ e, r = .error e ∧ t = s) ∨
            ∃ u, Adds pl.space [p.resting] s u ∧
              (p.isInitialized = false ∧ r = .ok () ∧ t = u ∨
                p.isInitialized = true ∧ inherit parent pl.space pl.address u = .ok (r, t)))) := by
  unfold duplicatePage at run
  obtain ⟨sp, hs, run⟩ := space_bind_eq_ok.1 run
  rw [PageTable.get?_address hk] at run
  refine ⟨sp, hs, ?_⟩
  cases hp : sp.pages.pages.get? pl.key with
  | none =>
    rw [hp] at run
    cases run
    exact .inl ⟨rfl, rfl, fun p hp => by cases hp⟩
  | some p =>
    rw [hp] at run
    dsimp only at run
    by_cases htype : p.type = .fileBacked
    · rw [if_pos htype] at run
      cases run
      refine .inl ⟨rfl, rfl, fun q hq => ?_⟩
      cases hq
      exact htype
    rw [if_neg htype] at run
    have hanonymous : p.type = .anonymous := by
      cases ht : p.type with
      | anonymous => rfl
      | fileBacked => exact absurd ht htype
    refine .inr ⟨p, rfl, hanonymous, ?_⟩
    cases hkind : p.kind with
    | unpopulated page =>
      have hresting : p.copyUnpopulated = some p.resting := by
        simp only [Page.copyUnpopulated, Page.resting, hkind]
      rw [hresting] at run
      rcases insertPages_cases run with ⟨rfl, hadds⟩ | ⟨e, rfl, rfl⟩
      · exact .inr ⟨t, hadds, .inl ⟨by simp only [Page.isInitialized, hkind], rfl, rfl⟩⟩
      · exact .inl ⟨e, rfl, rfl⟩
    | anonymous slot =>
      have hnone : p.copyUnpopulated = none := by simp only [Page.copyUnpopulated, hkind]
      rw [hnone] at run
      rcases Action.bind_eq_ok.1 run with ⟨_, u, hinsert, hinherit⟩ | ⟨e, hinsert, rfl⟩
      · rcases insertPages_cases hinsert with ⟨-, hadds⟩ | ⟨e, hr, -⟩
        · rw [← Page.resting_of_anonymous hkind] at hadds
          exact .inr ⟨u, hadds, .inr ⟨by simp only [Page.isInitialized, hkind], hinherit⟩⟩
        · cases hr
      · rcases insertPages_cases hinsert with ⟨hr, -⟩ | ⟨e', -, rfl⟩
        · cases hr
        · exact .inl ⟨e, rfl, rfl⟩
    | fileBacked file => simp [Page.type, hkind] at htype

/-- What the parent's page is copied as is registered like a new page. -/
theorem Adds.resting {u : Machine} (h : Coherent ⟨s, none⟩)
    (hp : Pager.pageAt s.spaces ⟨parent, pl.key⟩ = some p) (htype : p.type = .anonymous)
    (hadds : Adds pl.space [p.resting] s u) :
    Move (.register pl p.resting) ⟨s, none⟩ ⟨u, none⟩ ∧
      p.resting.mapping = none ∧ p.resting.type = .anonymous := by
  obtain ⟨hkeyed, hk⟩ := h.linked.keyed hp
  have haddress : p.address = pl.address := hkeyed
  have hmapping : p.mapping = none := by
    cases hm : p.mapping with
    | none => rfl
    | some mapping =>
      have hfile := h.typed _ _ hp (by rw [hm]; rfl)
      rw [htype] at hfile
      cases hfile
  have hslot : p.resting.slot = none := by
    unfold Page.resting Page.slot
    cases p.kind <;> rfl
  obtain ⟨spc, hsc, hvacant, rfl⟩ := hadds.single
  have hkey : p.resting.address.value = pl.key := by rw [Page.address_resting, haddress]; rfl
  rw [hkey] at hvacant ⊢
  refine ⟨.register hsc hvacant haddress hk rfl hslot fun hm => ?_, ?_, ?_⟩
  · rw [Page.mapping_resting, hmapping] at hm
    cases hm
  · rw [Page.mapping_resting, hmapping]
  · rw [Page.type_resting, htype]

/-- The page that was registered for a populated one waits for the frame that it inherits. -/
theorem Adds.inherits {u : Machine} (hadds : Adds pl.space [p.resting] s u)
    (haddress : p.address = pl.address) (htype : p.type = .anonymous)
    (hinit : p.isInitialized = true) :
    ∃ spc, u.spaces.get? pl.space = some spc ∧ spc.pages.pages.get? pl.key = some p.resting ∧
      p.resting.kind = .anonymous none ∧ s.cell p = some (.holding (s.contents p)) := by
  obtain ⟨spc, -, -, rfl⟩ := hadds.single
  have hkey : p.resting.address.value = pl.key := by rw [Page.address_resting, haddress]; rfl
  rw [hkey]
  refine ⟨_, Table.get?_insert_self .., Table.get?_insert_self .., ?_⟩
  cases hkind : p.kind with
  | unpopulated page => simp [Page.isInitialized, hkind] at hinit
  | anonymous slot =>
    refine ⟨?_, cell_of_anonymous hkind⟩
    rw [Page.resting_of_anonymous hkind]
    rfl
  | fileBacked file => simp [Page.type, hkind] at htype

theorem duplicatePage_moves (h : Coherent ⟨s, none⟩) (hk : pl.key % pageSize = 0)
    (run : duplicatePage parent pl.space pl.address s = .ok (r, t)) :
    Moves (Label.Inherits pl.space) ⟨s, none⟩ ⟨t, none⟩ := by
  obtain ⟨sp, hs, ⟨-, rfl, -⟩ | ⟨p, hp, htype, ⟨e, -, rfl⟩ | ⟨u, hadds, hcase⟩⟩⟩ :=
    duplicatePage_cases hk run
  · exact .refl
  · exact .refl
  · have hpage : Pager.pageAt s.spaces ⟨parent, pl.key⟩ = some p := (pageAt_of_get? hs _).trans hp
    obtain ⟨hmove, hresting⟩ := hadds.resting h hpage htype
    have hfirst : Moves (Label.Inherits pl.space) ⟨s, none⟩ ⟨u, none⟩ :=
      .single hmove ⟨rfl, hresting⟩
    rcases hcase with ⟨-, -, rfl⟩ | ⟨hinit, hinherit⟩
    · exact hfirst
    · obtain ⟨spc, hsc, hpc, hkind, -⟩ :=
        hadds.inherits (h.linked.keyed hpage).1 htype hinit
      exact hfirst.trans ((inherit_moves (h.move hmove) hsc hpc rfl hkind hinherit).1.mono
        fun l hl => hl.inherits)

/-- A page of the parent's that is anonymous is copied as its cell stands. -/
theorem duplicatePage_flat (h : Coherent ⟨s, none⟩) (hk : pl.key % pageSize = 0)
    (hne : parent ≠ pl.space) (hvacant : s.flat pl = none)
    (run : duplicatePage parent pl.space pl.address s = .ok (.ok (), t)) :
    t.flat = update s.flat pl (s.flat ⟨parent, pl.key⟩) := by
  obtain ⟨sp, hs, ⟨-, rfl, hfile⟩ | ⟨p, hp, htype, ⟨e, hr, -⟩ | ⟨u, hadds, hcase⟩⟩⟩ :=
    duplicatePage_cases hk run
  · have hparent : t.flat ⟨parent, pl.key⟩ = none := by
      cases hp : sp.pages.pages.get? pl.key with
      | none => exact flat_of_none ((pageAt_of_get? hs _).trans hp)
      | some p =>
        rw [flat_of_page ((pageAt_of_get? hs _).trans hp), cell_of_fileBacked (hfile p hp)]
    rw [hparent, ← hvacant, update_eq_self]
  · cases hr
  · have hpage : Pager.pageAt s.spaces ⟨parent, pl.key⟩ = some p := (pageAt_of_get? hs _).trans hp
    obtain ⟨hmove, -⟩ := hadds.resting h hpage htype
    have hflat := Coherent.flat_register hmove
    rcases hcase with ⟨hinit, -, rfl⟩ | ⟨hinit, hinherit⟩
    · have hsame : s.cell p.resting = s.cell p := by
        cases hkind : p.kind with
        | unpopulated page => simp only [cell, Page.resting, hkind]
        | anonymous slot => simp [Page.isInitialized, hkind] at hinit
        | fileBacked file => simp [Page.type, hkind] at htype
      rw [flat_of_page hpage, ← hsame]
      exact hflat
    · obtain ⟨spc, hsc, hpc, hkind, hholding⟩ :=
        hadds.inherits (h.linked.keyed hpage).1 htype hinit
      have hflat : u.flat = update s.flat pl (s.cell p.resting) := hflat
      have hparent : u.flat ⟨parent, pl.key⟩ = some (.holding (s.contents p)) := by
        rw [hflat, update_of_ne fun he => hne (congrArg Place.space he), flat_of_page hpage, hholding]
      rw [inherit_flat (h.move hmove) hsc hpc rfl hkind hparent hinherit, hflat, update_idem,
        flat_of_page hpage, hholding]

/-- What the parent's page is copied as, if it is anonymous. -/
def anonymousOf (page : Option Page) : Option Page := page.filter (·.type = .anonymous)

/-- Exactly the anonymous pages are copied, as they rest. -/
theorem duplicatePage_roster (h : Coherent ⟨s, none⟩) (hk : pl.key % pageSize = 0)
    (hvacant : s.roster pl = none)
    (run : duplicatePage parent pl.space pl.address s = .ok (.ok (), t)) :
    t.roster = update s.roster pl (anonymousOf (s.roster ⟨parent, pl.key⟩)) := by
  obtain ⟨sp, hs, ⟨-, rfl, hfile⟩ | ⟨p, hp, htype, ⟨e, hr, -⟩ | ⟨u, hadds, hcase⟩⟩⟩ :=
    duplicatePage_cases hk run
  · have hparent : anonymousOf (t.roster ⟨parent, pl.key⟩) = none := by
      cases hp : sp.pages.pages.get? pl.key with
      | none => rw [roster_of_none ((pageAt_of_get? hs _).trans hp), anonymousOf, Option.filter_none]
      | some p =>
        rw [roster_of_page ((pageAt_of_get? hs _).trans hp), anonymousOf, Option.filter_some]
        simp [hfile p hp]
    rw [hparent, ← hvacant, update_eq_self]
  · cases hr
  · have hpage : Pager.pageAt s.spaces ⟨parent, pl.key⟩ = some p := (pageAt_of_get? hs _).trans hp
    have hparent : anonymousOf (s.roster ⟨parent, pl.key⟩) = some p.resting := by
      rw [roster_of_page hpage, anonymousOf, Option.filter_some]
      simp [htype]
    obtain ⟨hmove, -⟩ := hadds.resting h hpage htype
    have hregistered : u.roster = update s.roster pl (some p.resting) := by
      rw [← Page.resting_resting p]
      exact Coherent.roster_register hmove
    rw [hparent, ← hregistered]
    rcases hcase with ⟨-, -, rfl⟩ | ⟨hinit, hinherit⟩
    · rfl
    · obtain ⟨spc, hsc, hpc, hkind, -⟩ := hadds.inherits (h.linked.keyed hpage).1 htype hinit
      obtain ⟨f, v, w, q, hseek, hscribble, -, -, hseat⟩ :=
        (inherit_moves (h.move hmove) hsc hpc rfl hkind hinherit).2 rfl
      have hv := (h.move hmove).moves hseek
      have hsought : v.roster = u.roster :=
        (h.move hmove).roster_still_moves hseek fun l hl => by cases l <;> first | rfl | cases hl
      have hscribbled : w.roster = v.roster :=
        hv.roster_still_moves hscribble fun l hl => by rw [hl]; rfl
      exact ((hv.moves hscribble).roster_still hseat rfl).trans (hscribbled.trans hsought)

/-- What the copy of every page keeps is kept by all of them. The pages at the addresses are copied
one by one, up to the first that fails. -/
theorem duplicatePages_keep {P : Machine → Prop} {child : SpaceId}
    {addresses : List VirtualAddress} {r : Except PagerError Unit}
    (hpage : ∀ {pl : Place} {q : Except PagerError Unit} {u v : Machine}, pl.space = child →
      pl.key % pageSize = 0 → P u → duplicatePage parent pl.space pl.address u = .ok (q, v) → P v)
    (haligned : ∀ a ∈ addresses, a.value % pageSize = 0) (hs : P s)
    (run : duplicatePages parent child addresses s = .ok (r, t)) : P t := by
  induction addresses generalizing s with
  | nil =>
    cases run
    exact hs
  | cons a rest ih =>
    unfold duplicatePages at run
    have hk := haligned a (List.mem_cons_self ..)
    obtain ⟨pl, rfl, rfl⟩ : ∃ pl : Place, child = pl.space ∧ a = pl.address :=
      ⟨⟨child, a.value⟩, rfl, rfl⟩
    rcases Action.bind_eq_ok.1 run with ⟨_, u, hfirst, hnext⟩ | ⟨e, hfirst, -⟩
    · exact ih (fun b hb => haligned b (List.mem_cons_of_mem _ hb)) (hpage rfl hk hs hfirst) hnext
    · exact hpage rfl hk hs hfirst

theorem duplicatePages_moves {child : SpaceId} {addresses : List VirtualAddress}
    (h : Coherent ⟨s, none⟩) (haligned : ∀ a ∈ addresses, a.value % pageSize = 0)
    (run : duplicatePages parent child addresses s = .ok (r, t)) :
    Moves (Label.Inherits child) ⟨s, none⟩ ⟨t, none⟩ := by
  refine duplicatePages_keep (P := fun u => Moves (Label.Inherits child) ⟨s, none⟩ ⟨u, none⟩)
    (fun {pl q u v} hspace hk hmoves hpage => ?_) haligned .refl run
  have hcopy := duplicatePage_moves (h.moves hmoves) hk hpage
  rw [hspace] at hcopy
  exact hmoves.trans hcopy

/-- If what is seen at a place is copied page by page, it is copied for the whole list. -/
theorem duplicatePages_shows {α : Type} (view : Machine → Place → Option α)
    (copied : Option α → Option α) {child : SpaceId} (hne : parent ≠ child)
    (hpage : ∀ {pl : Place} {s t : Machine}, Coherent ⟨s, none⟩ → pl.key % pageSize = 0 →
      pl.space = child → view s pl = none →
      duplicatePage parent pl.space pl.address s = .ok (.ok (), t) →
        view t = update (view s) pl (copied (view s ⟨parent, pl.key⟩)))
    {addresses : List VirtualAddress} (h : Coherent ⟨s, none⟩)
    (haligned : ∀ a ∈ addresses, a.value % pageSize = 0)
    (hdistinct : (addresses.map Address.value).Nodup)
    (hvacant : ∀ a ∈ addresses, view s ⟨child, a.value⟩ = none)
    (run : duplicatePages parent child addresses s = .ok (.ok (), t)) :
    view t = fun pl => if pl.space = child ∧ pl.key ∈ addresses.map Address.value
      then copied (view s ⟨parent, pl.key⟩) else view s pl := by
  induction addresses generalizing s with
  | nil =>
    cases run
    simp
  | cons a rest ih =>
    unfold duplicatePages at run
    have hk := haligned a (List.mem_cons_self ..)
    obtain ⟨pl, rfl, rfl⟩ : ∃ pl : Place, child = pl.space ∧ a = pl.address :=
      ⟨⟨child, a.value⟩, rfl, rfl⟩
    rcases Action.bind_eq_ok.1 run with ⟨_, u, hrun, hnext⟩ | ⟨e, -, hr⟩
    · obtain ⟨hnotin, hdistinct⟩ := List.nodup_cons.1 hdistinct
      have hfirst := hpage h hk rfl (hvacant _ (List.mem_cons_self ..)) hrun
      have hu := h.moves (duplicatePage_moves h hk hrun)
      have hlater : ∀ b ∈ rest, view u ⟨pl.space, b.value⟩ = none := by
        intro b hb
        rw [hfirst, update_of_ne]
        · exact hvacant b (List.mem_cons_of_mem _ hb)
        · intro he
          exact hnotin (List.mem_map.2 ⟨b, hb, congrArg Place.key he⟩)
      rw [ih hu (fun b hb => haligned b (List.mem_cons_of_mem _ hb)) hdistinct hlater hnext]
      funext other
      have hparent : view u ⟨parent, other.key⟩ = view s ⟨parent, other.key⟩ := by
        rw [hfirst, update_of_ne]
        exact fun he => hne (congrArg Place.space he)
      rw [hparent, hfirst]
      by_cases he : other = pl
      · subst he
        simp
      · have hsame : other.space = pl.space → other.key ≠ pl.key := by
          intro hspace hkey
          exact he (Place.ext hspace hkey)
        rw [update_of_ne he]
        refine if_congr (and_congr_right fun hspace => ?_) rfl rfl
        simp [hsame hspace]
    · cases hr

theorem createSpace_moves {r : Except PagerError SpaceId} (run : createSpace s = .ok (r, t)) :
    r = .ok s.nextSpace ∧ Trace [.create s.nextSpace, .note] ⟨s, none⟩ ⟨t, none⟩ ∧
      t.spaces = s.spaces.insert s.nextSpace {} ∧ t.nextSpace = s.nextSpace + 1 := by
  cases run
  exact ⟨rfl, .cons .create (.cons (.note ..) .nil), rfl, rfl⟩

/-- The child is created and filled, and if that fails it is torn down again. -/
theorem duplicate_cases {refuses : Option PagerError} (h : Coherent ⟨s, none⟩)
    {r : Except PagerError SpaceId} (run : duplicate parent refuses s = .ok (r, t)) :
    ∃ sp v w, s.spaces.get? parent = some sp ∧
      Trace [.create s.nextSpace, .note, .adjust refuses] ⟨s, none⟩ ⟨v, none⟩ ∧
      v.spaces = s.spaces.insert s.nextSpace
        { stackPointer := sp.stackPointer, refusesEntries := refuses } ∧
      ((r = .ok s.nextSpace ∧
          duplicatePages parent s.nextSpace sp.pages.addresses v = .ok (.ok (), w) ∧
          Trace [.note, .adjust none] ⟨w, none⟩ ⟨t, none⟩ ∧
          t.spaces = w.spaces.modify s.nextSpace fun space =>
            { space with refusesEntries := none }) ∨
        ∃ e, r = .error e ∧
          duplicatePages parent s.nextSpace sp.pages.addresses v = .ok (.error e, w) ∧
          teardown s.nextSpace w = .ok (.ok (), t)) := by
  have hfresh := h.fresh s.nextSpace (Nat.le_refl _)
  unfold duplicate at run
  obtain ⟨sp, hs, run⟩ := space_bind_eq_ok.1 run
  have hne : parent ≠ s.nextSpace := by
    rintro rfl
    rw [hfresh] at hs
    cases hs
  rcases Action.bind_eq_ok.1 run with ⟨child, u, hcreate, run⟩ | ⟨e, hcreate, -⟩
  · obtain ⟨hr, htrace, hspaces, -⟩ := createSpace_moves hcreate
    cases hr
    rw [modifySpace_bind] at run
    have hget : u.spaces.get? s.nextSpace = some {} := by rw [hspaces, Table.get?_insert_self]
    rw [Table.modify_eq_insert hget] at run
    have hadjust : Move (.adjust refuses) ⟨u, none⟩ _ := .adjust hget sp.stackPointer refuses false
    have htrace := htrace.append (.cons hadjust .nil)
    obtain ⟨spv, hsv, run⟩ := space_bind_eq_ok.1 run
    have hparent : spv = sp := by
      have hsv : (u.spaces.insert s.nextSpace _).get? parent = some spv := hsv
      rw [hspaces, Table.insert_insert, Table.get?_insert, if_neg hne, hs] at hsv
      exact (Option.some.inj hsv).symm
    subst hparent
    obtain ⟨q, w, hpages, run⟩ := Action.attempt_bind_eq_ok.1 run
    refine ⟨spv, _, w, hs, htrace, ?_, ?_⟩
    · show u.spaces.insert _ _ = _
      rw [hspaces, Table.insert_insert]
    cases q with
    | ok _ =>
      obtain ⟨spw, hsw, run⟩ := space_bind_eq_ok.1 run
      rw [report_bind, modifySpace_bind] at run
      cases run
      refine .inl ⟨rfl, hpages, ?_, rfl⟩
      have hnote : Move .note ⟨w, none⟩ _ :=
        .note w.evictions (.duplicated parent s.nextSpace spw.pages.size :: w.events)
      have hnoted : ({ w with events := .duplicated parent s.nextSpace spw.pages.size :: w.events } :
        Machine).spaces.get? s.nextSpace = some spw := hsw
      rw [Table.modify_eq_insert hsw]
      exact .cons hnote (.cons (.adjust hnoted spw.stackPointer none spw.busy) .nil)
    | error e =>
      have hv := h.moves (.of_trace htrace fun l _ => (trivial : (fun _ => True) l))
      have hw := hv.moves (duplicatePages_moves hv (aligned_addresses h hs) hpages)
      rcases Action.bind_eq_ok.1 run with ⟨_, x, hteardown, hlast⟩ | ⟨e', hteardown, -⟩
      · cases hlast
        exact .inr ⟨e, rfl, hpages, hteardown⟩
      · cases (teardown_moves hw hteardown).1
  · cases (createSpace_moves hcreate).1

/-- A copy of a space shows what the parent shows, and a failed one leaves no trace in memory. -/
theorem duplicate_moves {refuses : Option PagerError} (h : Coherent ⟨s, none⟩)
    {r : Except PagerError SpaceId} (run : duplicate parent refuses s = .ok (r, t)) :
    ∃ w, Moves (Label.Founds s.nextSpace refuses) ⟨s, none⟩ ⟨w, none⟩ ∧
      ((r = .ok s.nextSpace ∧ t = w ∧ t.flat = fun pl =>
        if pl.space = s.nextSpace then s.flat ⟨parent, pl.key⟩ else s.flat pl) ∨
        (∃ e, r = .error e) ∧ Moves (Label.Clears s.nextSpace) ⟨w, none⟩ ⟨t, none⟩ ∧
          t.spaces = w.spaces.erase s.nextSpace ∧ t.flat = s.flat) := by
  have hfresh := h.fresh s.nextSpace (Nat.le_refl _)
  have hvacant : ∀ pl : Place, pl.space = s.nextSpace → s.flat pl = none := by
    intro pl hpl
    refine flat_of_none ?_
    rw [Pager.pageAt, hpl, hfresh, Option.bind_none]
  obtain ⟨sp, v, w, hs, htrace, -, hcase⟩ := duplicate_cases h run
  have hne : parent ≠ s.nextSpace := by
    rintro rfl
    rw [hfresh] at hs
    cases hs
  have hprepared : Moves (Label.Founds s.nextSpace refuses) ⟨s, none⟩ ⟨v, none⟩ :=
    .of_trace htrace (by simp [Label.Founds, Label.Inherits, Label.Seeks])
  have hflat : v.flat = s.flat := h.flat_still_moves (.of_trace htrace (by
    simp [Label.place?]) : Moves (fun l => l.place? = none) _ _) fun l hl => hl
  have hv := h.moves hprepared
  have haligned := aligned_addresses h hs
  have hfilled : ∀ {q}, duplicatePages parent s.nextSpace sp.pages.addresses v = .ok (q, w) →
      Moves (Label.Founds s.nextSpace refuses) ⟨s, none⟩ ⟨w, none⟩ := fun hpages =>
    hprepared.trans ((duplicatePages_moves hv haligned hpages).mono fun l hl => hl.founds)
  rcases hcase with ⟨rfl, hpages, hlast, -⟩ | ⟨e, rfl, hpages, hteardown⟩
  · have hall := hfilled hpages
    have hcopied := duplicatePages_shows flat id hne
      (fun hc hk hspace hnone hrun => duplicatePage_flat hc hk (hspace ▸ hne) hnone hrun)
      hv haligned (by
        rw [value_addresses]
        exact (Table.sorted_keys _).imp Nat.ne_of_lt) (fun a _ => by
          rw [hflat]
          exact hvacant _ rfl) hpages
    refine ⟨t, hall.trans (.of_trace hlast (by simp [Label.Founds, Label.Inherits, Label.Seeks])),
      .inl ⟨rfl, rfl, ?_⟩⟩
    have hreported : t.flat = w.flat := (h.moves hall).flat_still_moves (.of_trace hlast (by
      simp [Label.place?]) : Moves (fun l => l.place? = none) _ _) fun l hl => hl
    rw [hreported, hcopied, hflat]
    funext pl
    by_cases hchild : pl.space = s.nextSpace
    · rw [if_pos hchild]
      split
      · rfl
      · rename_i hkey
        rw [hvacant pl hchild]
        refine (flat_of_none ?_).symm
        refine (pageAt_of_get? hs _).trans ?_
        rw [Table.get?_eq_none_iff, ← value_addresses]
        exact fun hmem => hkey ⟨hchild, hmem⟩
    · rw [if_neg hchild, if_neg fun hboth => hchild hboth.1]
  · have hall := hfilled hpages
    have hw := h.moves hall
    obtain ⟨-, hclear, hx⟩ := teardown_moves hw hteardown
    refine ⟨w, hall, .inr ⟨⟨e, rfl⟩, hclear, hx, ?_⟩⟩
    funext pl
    by_cases hchild : pl.space = s.nextSpace
    · rw [hvacant pl hchild]
      refine flat_of_none ?_
      rw [Pager.pageAt, hx, hchild, Table.get?_erase, if_pos rfl, Option.bind_none]
    · have hcleared := hw.flat_elsewhere_moves hclear fun l hl => hl.place?_ne hchild
      have hinherited := hv.flat_elsewhere_moves (duplicatePages_moves hv haligned hpages)
        fun l hl => hl.place?_ne hchild
      exact hcleared.trans (hinherited.trans (congrFun hflat pl))

end Machine
end Pager
