import Pager.Proofs.Requests

/-!
Bugs in the end of mappings and spaces, and in copies of spaces. The range of every
record lies below the kernel's half, so the addresses of its pages do, and what a
half-built copy holds can be released as it was taken. Only writing back and moving
out can come upon a page that asks its file for more than a page.
-/
namespace Pager

/-- The ranges of the records lie below the kernel's half. -/
def Space.Lies (sp : Space) : Prop :=
  ∀ start record, sp.mappings.get? start = some record →
    start + record.pages * pageSize ≤ kernelBase

theorem Space.Lies.erase {sp after : Space} (h : sp.Lies) {start : Nat}
    (hafter : after.mappings = sp.mappings.erase start) : after.Lies := by
  intro other record hrecord
  rw [hafter, Table.get?_erase] at hrecord
  split at hrecord
  · cases hrecord
  · exact h other record hrecord

namespace Machine

variable {s t : Machine} {id parent : SpaceId} {a start : VirtualAddress} {sp : Space} {p : Page}
  {b : Bug}

/-- A page that is resident and dirty is written back as it is when it is moved out. -/
theorem writeBackIfDirty_bug_cases (h : Coherent ⟨s, none⟩) (hs : s.spaces.get? id = some sp)
    (hp : sp.pages.get? a = some p) (run : writeBackIfDirty id a p s = .error b) :
    ∃ pl f fr, Pager.pageAt s.spaces pl = some p ∧ p.frame = some f ∧ s.frames.get? f = some fr ∧
      Transfer.evict true ⟨p, s.pool.bytesAt fr.address, s.swap, s.files, []⟩ = .error b := by
  unfold writeBackIfDirty at run
  cases hframe : p.frame with
  | none =>
    rw [hframe] at run
    cases run
  | some f =>
    cases hkind : p.kind with
    | unpopulated page | anonymous slot =>
      rw [hframe, hkind] at run
      cases run
    | fileBacked file =>
      rw [hframe, hkind] at run
      dsimp only at run
      rw [space_bind hs] at run
      by_cases hdirty : (!sp.directory.has a .dirty) = true
      · rw [if_pos hdirty] at run
        cases run
      · rw [if_neg hdirty] at run
        have hpage : Pager.pageAt s.spaces (.of id a) = some p := Coherent.pageAt_eq hs hp
        obtain ⟨fr, hf, -⟩ := Backs.of_page h hpage hframe
        rw [addressOfFrame_bind hf] at run
        rcases Action.attempt_bind_eq_bug.1 run with hbug | ⟨q, u, -, run⟩
        · obtain ⟨e, he⟩ := Directory.exists_entry_of_has (by simpa using hdirty :
            sp.directory.has a .dirty = true)
          obtain ⟨pl, rfl, rfl⟩ : ∃ pl : Place, id = pl.space ∧ a = pl.address :=
            ⟨⟨id, a.value⟩, rfl, rfl⟩
          have hentry : Pager.entryAt s.spaces pl = some e := (entryAt_of_get? hs pl.key).trans he
          obtain ⟨p', f', hp', -⟩ := h.linked.entry_page hentry
          rw [PageTable.get?_address (h.linked.keyed hp').2] at hp
          have hout := transfer_eq_bug h hs hp hf hbug
          rw [← Transfer.evict_dirty hkind] at hout
          exact ⟨pl, f, fr, Coherent.pageAt_eq hs hp, rfl, hf, hout⟩
        · cases q with
          | ok _ => cases run
          | error e => cases run

/-- A page can be unmapped unless it wants too much of its file. -/
theorem unmapPage_bug_cases (h : Coherent ⟨s, none⟩) (hs : s.spaces.get? id = some sp)
    {mapping : MappingId} (run : unmapPage id mapping a s = .error b) :
    ∃ p, sp.pages.get? a = some p ∧ p.mapping = some mapping ∧
      writeBackIfDirty id a p s = .error b := by
  unfold unmapPage at run
  rw [space_bind hs] at run
  cases hp : sp.pages.get? a with
  | none =>
    rw [hp] at run
    cases run
  | some p =>
    rw [hp] at run
    dsimp only at run
    by_cases hmapping : p.mapping = some mapping
    · rw [if_neg (not_not.2 hmapping)] at run
      refine ⟨p, rfl, hmapping, ?_⟩
      rcases Action.bind_eq_bug.1 run with hbug | ⟨failure, u, hwrite, run⟩
      · exact hbug
      · obtain ⟨_, -, hcases⟩ := writeBackIfDirty_cases h hs hp hwrite
        have hu : Coherent ⟨u, none⟩ ∧ u.spaces = s.spaces := by
          rcases hcases with ⟨rfl, -, -⟩ | ⟨f, fr, file, q, files, events, -, -, -, -, -, hrequest, -, rfl⟩
          · exact ⟨h, rfl⟩
          · exact ⟨(h.move hrequest).move (.note s.evictions events), rfl⟩
        rcases Action.bind_eq_bug.1 run with hbug | ⟨_, v, -, run⟩
        · exact absurd hbug (remove_ne_bug hu.1 (hu.2 ▸ hs))
        · cases run
    · rw [if_pos hmapping] at run
      cases run

/-- On the way a page of the space is to be unmapped, and that is the bug. -/
def Halts (kinds : Label → Prop) (id : SpaceId) (s : Machine) (b : Bug) : Prop :=
  ∃ u sp mapping a, Moves kinds ⟨s, none⟩ ⟨u, none⟩ ∧ u.spaces.get? id = some sp ∧
    unmapPage id mapping a u = .error b

namespace Halts

variable {kinds more : Label → Prop}

theorem head (hmoves : Moves kinds ⟨s, none⟩ ⟨t, none⟩) (h : Halts kinds id t b) :
    Halts kinds id s b := by
  obtain ⟨u, sp, mapping, a, hrest, hu, hbug⟩ := h
  exact ⟨u, sp, mapping, a, hmoves.trans hrest, hu, hbug⟩

theorem mono (h : Halts kinds id s b) (hk : ∀ l, kinds l → more l) : Halts more id s b := by
  obtain ⟨u, sp, mapping, a, hmoves, hu, hbug⟩ := h
  exact ⟨u, sp, mapping, a, hmoves.mono hk, hu, hbug⟩

theorem overruns (hhalts : Halts kinds id s b) (h : Coherent ⟨s, none⟩) :
    Overruns kinds ⟨s, none⟩ b := by
  obtain ⟨u, sp, mapping, a, hmoves, hs, hbug⟩ := hhalts
  have hu := h.moves hmoves
  obtain ⟨p, hp, -, hwrite⟩ := unmapPage_bug_cases hu hs hbug
  obtain ⟨pl, f, fr, hpage, hres, hf, hout⟩ := writeBackIfDirty_bug_cases hu hs hp hwrite
  exact (evict_overruns hu hf hpage hres hout kinds).head hmoves

end Halts

theorem unmapPages_halts {addresses : List VirtualAddress} (h : Coherent ⟨s, none⟩)
    (hs : s.spaces.get? id = some sp) {mapping : MappingId}
    (run : unmapPages id mapping addresses s = .error b) :
    Halts (Label.Unmaps id mapping) id s b := by
  induction addresses generalizing s sp with
  | nil => cases run
  | cons a rest ih =>
    unfold unmapPages at run
    rcases Action.bind_eq_bug.1 run with hbug | ⟨failure, u, hpage, run⟩
    · exact ⟨s, sp, mapping, a, .refl, hs, hbug⟩
    · have hmoved : Moves (Label.Unmaps id mapping) ⟨s, none⟩ ⟨u, none⟩ ∧
          ∃ after, u.spaces.get? id = some after := by
        obtain ⟨_, -, ⟨rfl, -⟩ | ⟨p, v, directory, -, -, -, -, hmoves, -, hmoves', ht⟩⟩ :=
          unmapPage_cases h hs hpage
        · exact ⟨.refl, sp, hs⟩
        · exact ⟨(hmoves.trans hmoves').mono fun l hl => hl.unmaps, _,
            (congrArg (·.get? id) ht).trans (Table.get?_insert_self ..)⟩
      obtain ⟨hmoves, after, hafter⟩ := hmoved
      rcases Action.bind_eq_bug.1 run with hbug | ⟨later, v, -, run⟩
      · exact (ih (h.moves hmoves) hafter hbug).head hmoves
      · cases run

theorem munmap_halts (h : Coherent ⟨s, none⟩) (hs : s.spaces.get? id = some sp) (hlies : sp.Lies)
    (run : munmap id start s = .error b) : Halts (Label.Dismantles id) id s b := by
  unfold munmap at run
  rw [space_bind hs] at run
  cases hrecord : sp.mappings.get? start.value with
  | none =>
    rw [hrecord] at run
    cases run
  | some record =>
    rw [hrecord] at run
    dsimp only at run
    rw [modifySpace_bind, Table.modify_eq_insert hs] at run
    have hunrecord : Move (.unrecord id start.value) ⟨s, none⟩ _ := .unrecord hs start.value
    rw [Action.mapM_liftM] at run
    rcases Action.liftM_bind_eq_bug.1 run with hbug | ⟨addresses, -, run⟩
    · exact absurd hbug (Address.mapM_add_ne_bug (hlies _ record hrecord))
    · rcases Action.bind_eq_bug.1 run with hbug | ⟨failure, v, -, run⟩
      · have hunmap := unmapPages_halts (h.move hunrecord) (Table.get?_insert_self ..) hbug
        exact (hunmap.mono fun l hl => hl.dismantles).head (.single hunrecord rfl)
      · rw [report_bind] at run
        cases failure with
        | none => cases run
        | some e => cases run

/-- A mapping that is given up takes its record along, and no other. -/
theorem munmap_lies (h : Coherent ⟨s, none⟩) (hs : s.spaces.get? id = some sp) (hlies : sp.Lies)
    {r : Except PagerError Unit} (run : munmap id start s = .ok (r, t)) :
    ∃ after, t.spaces = s.spaces.insert id after ∧ after.Lies ∧
      after.nextMapping = sp.nextMapping := by
  obtain ⟨-, sp', hs', ⟨-, -, rfl⟩ | ⟨_, _, _, _, -, -, ht, -⟩⟩ := munmap_moves h run
  · exact ⟨sp, (Table.insert_of_get? hs).symm, hlies, rfl⟩
  · rw [hs] at hs'
    cases hs'
    exact ⟨_, ht, hlies.erase rfl, rfl⟩

theorem unmapAll_halts {starts : List VirtualAddress} (h : Coherent ⟨s, none⟩)
    (hs : s.spaces.get? id = some sp) (hlies : sp.Lies) (run : unmapAll id starts s = .error b) :
    Halts (Label.Dismantles id) id s b := by
  induction starts generalizing s sp with
  | nil => cases run
  | cons start rest ih =>
    unfold unmapAll at run
    rcases Action.attempt_bind_eq_bug.1 run with hbug | ⟨q, u, hmunmap, run⟩
    · exact munmap_halts h hs hlies hbug
    · have hmoves := (munmap_moves h hmunmap).1
      obtain ⟨after, hu, hlies, -⟩ := munmap_lies h hs hlies hmunmap
      obtain ⟨events, run⟩ : ∃ events, unmapAll id rest { u with events } = .error b := by
        cases q with
        | ok _ => exact ⟨u.events, run⟩
        | error e => exact ⟨.teardownWritebackFailed id start e :: u.events, run⟩
      have hfirst := hmoves.tail (.note u.evictions events) trivial
      have hafter : ({ u with events } : Machine).spaces.get? id = some after := by
        show u.spaces.get? id = _
        rw [hu, Table.get?_insert_self]
      exact (ih (h.moves hfirst) hafter hlies run).head hfirst

theorem removeAll_ne_bug {addresses : List VirtualAddress} (h : Coherent ⟨s, none⟩)
    (hs : s.spaces.get? id = some sp) : removeAll id addresses s ≠ .error b := by
  intro run
  induction addresses generalizing s sp with
  | nil => cases run
  | cons a rest ih =>
    unfold removeAll at run
    rcases Action.bind_eq_bug.1 run with hbug | ⟨_, u, hremove, run⟩
    · exact remove_ne_bug h hs hbug
    · obtain ⟨sp', hs', ⟨-, hr, -⟩ | ⟨p, directory, -, -, hmoves, -, ht⟩⟩ := remove_moves h hremove
      · cases hr
      · exact ih (h.moves hmoves) ((congrArg (·.get? id) ht).trans (Table.get?_insert_self ..)) run

/-- The end of a space comes upon nothing worse than the end of its mappings does. -/
theorem teardown_halts (h : Coherent ⟨s, none⟩) (hs : s.spaces.get? id = some sp) (hlies : sp.Lies)
    (run : teardown id s = .error b) : sp.mappings ≠ .empty ∧ Halts (Label.Clears id) id s b := by
  unfold teardown at run
  rw [space_bind hs] at run
  rcases Action.bind_eq_bug.1 run with hbug | ⟨_, u, hunmap, run⟩
  · refine ⟨fun hempty => ?_, (unmapAll_halts h hs hlies hbug).mono fun l hl => hl.clears⟩
    rw [hempty] at hbug
    cases hbug
  · obtain ⟨-, hmoves, spu, hu⟩ := unmapAll_moves h hs hunmap
    have hsu : u.spaces.get? id = some spu := by rw [hu, Table.get?_insert_self]
    rw [space_bind hsu] at run
    rcases Action.bind_eq_bug.1 run with hbug | ⟨_, v, -, run⟩
    · exact absurd hbug (removeAll_ne_bug (h.moves hmoves) hsu)
    · cases run

theorem copyContents_ne_bug {f : FrameId} {fr : Frame} (h : Coherent ⟨s, some f⟩)
    (hf : s.frames.get? f = some fr) (hs : s.spaces.get? parent = some sp) :
    copyContents parent a fr.address s ≠ .error b := by
  have hwrites : ∀ start bytes, writeFrame fr.address start bytes s ≠ .error b := by
    intro start bytes hbug
    obtain ⟨pool, hpool⟩ := h.write_ok hf start bytes
    rw [writeFrame_eq_bug] at hbug
    cases hbug.symm.trans hpool
  intro run
  unfold copyContents at run
  cases hp : sp.pages.get? a with
  | none =>
    rw [page_bind_none hs hp] at run
    cases run
  | some q =>
    rw [page_bind hs hp] at run
    have hpage : Pager.pageAt s.spaces (.of parent a) = some q := Coherent.pageAt_eq hs hp
    cases hframe : q.frame with
    | some g =>
      rw [hframe] at run
      obtain ⟨gr, hg, -⟩ := Backs.of_page h hpage hframe
      dsimp only at run
      rw [addressOfFrame_bind hg, readFrame_bind (h.read_ok hg)] at run
      exact hwrites _ _ run
    | none =>
      rw [hframe] at run
      cases hslot : q.slot with
      | some n =>
        rw [hslot] at run
        dsimp only at run
        rw [Action.get_bind, readFrame_bind (h.read_ok hf)] at run
        rcases Action.liftM_bind_eq_bug.1 run with hbug | ⟨⟨bytes, result⟩, -, run⟩
        · exact SwapTable.readPage_ne_bug (h.length_frame hf) hbug
        · rcases Action.bind_eq_bug.1 run with hbug | ⟨_, u, -, run⟩
          · exact hwrites _ _ hbug
          · cases run
      | none =>
        rw [hslot] at run
        exact hwrites _ _ run

/-- The child's frame can be searched for with a bug, but not filled with one. -/
theorem inherit_eq_bug {pl : Place} (h : Coherent ⟨s, none⟩)
    (hparent : ∃ sp, s.spaces.get? parent = some sp) (hs : s.spaces.get? pl.space = some sp)
    (hp : sp.pages.pages.get? pl.key = some p) (habs : p.frame = none)
    (run : inherit parent pl.space pl.address s = .error b) :
    Overruns Label.Seeks ⟨s, none⟩ b := by
  have hpage := Coherent.pageAt_eq hs hp
  obtain ⟨ha, hk⟩ := h.linked.keyed hpage
  unfold inherit at run
  rcases Action.bind_eq_bug.1 run with hbug | ⟨f, u, hobtain, run⟩
  · exact obtainFrame_eq_bug h hbug
  · have hseek := obtainFrame_moves h hobtain
    have hu := h.moves hseek
    obtain ⟨fr, hf, ho⟩ := obtainFrame_tracked h hobtain
    obtain ⟨su, hsu, hpu⟩ := exists_space_of_pageAt (pageAt_of_seeks h hseek hpage habs)
    have hsu : u.spaces.get? pl.space = some su := hsu
    obtain ⟨sp, hsp⟩ := hparent
    obtain ⟨sq, hsq, -⟩ := exists_space_of_books hsp
      (hseek.books_kept (fun l hl => (hl.claims fun _ => True).bookless) parent)
    have haligned := (FramePool.read_eq_ok.1 (hu.read_ok hf)).1
    have hfilled : ∀ {q v}, copyContents parent pl.address fr.address u = .ok (q, v) →
        Coherent ⟨v, some f⟩ ∧ v.spaces = u.spaces ∧ v.frames = u.frames := by
      intro q v hcopy
      have hscribble := (copyContents_moves hu hf hk hcopy).1
      exact ⟨hu.moves hscribble, spaces_of_scribble hscribble⟩
    have hreturns : ∀ {q v}, copyContents parent pl.address fr.address u = .ok (q, v) →
        returnFrame f v ≠ .error b := by
      intro q v hcopy
      obtain ⟨hv, -, hframes⟩ := hfilled hcopy
      have hfv : v.frames.get? f = some fr := by rw [hframes, hf]
      obtain ⟨n, hn, ha⟩ := hv.backed.address_taken hfv
      exact returnFrame_ne_bug hv.pool hfv ho hn ha
    rw [addressOfFrame_bind hf] at run
    rcases Action.bind_eq_bug.1 run with hbug | ⟨_, w, hsettle, run⟩
    · exfalso
      rcases settle_eq_bug hf hbug with htry | ⟨e, v, htry, hreturn⟩
      · rcases Action.bind_eq_bug.1 htry with hbug | ⟨_, v, hcopy, hinstall⟩
        · exact copyContents_ne_bug hu hf hsq hbug
        · exact install_ne_bug hk ((hfilled hcopy).2.1 ▸ hsu) hpu haligned hinstall
      · rcases Action.bind_eq_ok.1 htry with ⟨_, v', hcopy, hinstall⟩ | ⟨e', hcopy, -⟩
        · rcases install_cases hk ((hfilled hcopy).2.1 ▸ hsu) hpu hinstall with
            ⟨e', -, -, rfl⟩ | ⟨directory, -, hr, -⟩
          · exact hreturns hcopy hreturn
          · cases hr
        · exact hreturns hcopy hreturn
    · rcases settle_cases hf hsettle with ⟨htry, -⟩ | ⟨e, _, -, hr, -⟩
      · rcases Action.bind_eq_ok.1 htry with ⟨_, v, hcopy, hinstall⟩ | ⟨e, -, hr⟩
        · obtain ⟨hv, hspaces, hframes⟩ := hfilled hcopy
          have hsv : v.spaces.get? pl.space = some su := by rw [hspaces, hsu]
          rcases install_cases hk hsv hpu hinstall with ⟨e, -, hr, -⟩ | ⟨directory, -, -, rfl⟩
          · cases hr
          · refine absurd run (bindFrame_ne_bug hk (Table.get?_insert_self ..) hpu ha habs ?_ ho)
            show v.frames.get? f = some fr
            rw [hframes, hf]
        · cases hr
      · cases hr

/-- Copying a page adds none that wants more than the parent's do. -/
theorem Adds.fits_resting {pl : Place} {u : Machine} (h : Coherent ⟨s, none⟩)
    (hp : Pager.pageAt s.spaces ⟨parent, pl.key⟩ = some p) (htype : p.type = .anonymous)
    (hadds : Adds pl.space [p.resting] s u) (hfits : s.Fits) : u.Fits := by
  refine h.fits_move (hadds.resting h hp htype).1 ?_ hfits
  show p.resting.readBytes ≤ pageSize
  rw [Page.readBytes_resting]
  exact hfits _ _ hp

theorem duplicatePage_fits {pl : Place} (h : Coherent ⟨s, none⟩) (hk : pl.key % pageSize = 0)
    (run : duplicatePage parent pl.space pl.address s = .ok (.ok (), t)) (hfits : s.Fits) :
    t.Fits := by
  obtain ⟨sp, hs, ⟨-, rfl, -⟩ | ⟨p, hp, htype, ⟨e, hr, -⟩ | ⟨u, hadds, hcase⟩⟩⟩ :=
    duplicatePage_cases hk run
  · exact hfits
  · cases hr
  · have hpage : Pager.pageAt s.spaces ⟨parent, pl.key⟩ = some p := (pageAt_of_get? hs _).trans hp
    have hu := hadds.fits_resting h hpage htype hfits
    rcases hcase with ⟨-, -, rfl⟩ | ⟨hinit, hinherit⟩
    · exact hu
    · have hcoherent := h.move (hadds.resting h hpage htype).1
      obtain ⟨spc, hsc, hpc, hkind, -⟩ := hadds.inherits (h.linked.keyed hpage).1 htype hinit
      obtain ⟨f, v, w, q, hseek, hscribble, -, -, hseat⟩ :=
        (inherit_moves hcoherent hsc hpc rfl hkind hinherit).2 rfl
      have hv := hcoherent.moves hseek
      have hsought := hcoherent.fits_moves hseek (fun l hl => hl.fits) hu
      have hscribbled := hv.fits_moves hscribble (fun l hl => by rw [hl]; trivial) hsought
      exact (hv.moves hscribble).fits_move hseat trivial hscribbled

/-- Copying a page is a bug only if a page of the machine wants too much of its file. -/
theorem duplicatePage_eq_bug {pl : Place} (h : Coherent ⟨s, none⟩) (hk : pl.key % pageSize = 0)
    (hs : s.spaces.get? parent = some sp) (hchild : ∃ sc, s.spaces.get? pl.space = some sc)
    (run : duplicatePage parent pl.space pl.address s = .error b) :
    Overruns (Label.Inherits pl.space) ⟨s, none⟩ b ∧ ¬ s.Fits := by
  obtain ⟨sc, hsc⟩ := hchild
  unfold duplicatePage at run
  rw [space_bind hs, PageTable.get?_address hk] at run
  cases hp : sp.pages.pages.get? pl.key with
  | none =>
    rw [hp] at run
    cases run
  | some p =>
    rw [hp] at run
    dsimp only at run
    by_cases htype : p.type = .fileBacked
    · rw [if_pos htype] at run
      cases run
    rw [if_neg htype] at run
    cases hkind : p.kind with
    | unpopulated page =>
      simp only [Page.copyUnpopulated, hkind] at run
      exact absurd run (insertPages_ne_bug hsc)
    | fileBacked file => simp [Page.type, hkind] at htype
    | anonymous slot =>
      simp only [Page.copyUnpopulated, hkind] at run
      have hpage : Pager.pageAt s.spaces ⟨parent, pl.key⟩ = some p := (pageAt_of_get? hs _).trans hp
      have htype : p.type = .anonymous := by simp only [Page.type, hkind]
      rcases Action.bind_eq_bug.1 run with hbug | ⟨_, u, hinsert, hinherit⟩
      · exact absurd hbug (insertPages_ne_bug hsc)
      · rcases insertPages_cases hinsert with ⟨-, hadds⟩ | ⟨e, hr, -⟩
        · rw [← Page.resting_of_anonymous hkind] at hadds
          obtain ⟨hmove, hresting⟩ := hadds.resting h hpage htype
          have hu := h.move hmove
          obtain ⟨spc, hspc, hpc, -⟩ := hadds.inherits (h.linked.keyed hpage).1 htype
            (by simp only [Page.isInitialized, hkind])
          have hfirst : Moves (Label.Inherits pl.space) ⟨s, none⟩ ⟨u, none⟩ :=
            .single hmove ⟨rfl, hresting⟩
          obtain ⟨spu, hspu, -⟩ := exists_space_of_books hs
            (hfirst.books_kept (fun l hl => hl.bookless) parent)
          have hover := inherit_eq_bug hu ⟨spu, hspu⟩ hspc hpc rfl hinherit
          exact ⟨(hover.mono fun l hl => hl.fills.inherits).head hfirst, fun hfits =>
            hover.not_fits hu (fun l hl => hl.fits) (hadds.fits_resting h hpage htype hfits)⟩
        · cases hr

theorem duplicatePages_eq_bug {child : SpaceId} {addresses : List VirtualAddress}
    (h : Coherent ⟨s, none⟩) (haligned : ∀ a ∈ addresses, a.value % pageSize = 0)
    (hs : s.spaces.get? parent = some sp) (hchild : ∃ sc, s.spaces.get? child = some sc)
    (run : duplicatePages parent child addresses s = .error b) :
    Overruns (Label.Inherits child) ⟨s, none⟩ b ∧ ¬ s.Fits := by
  induction addresses generalizing s sp with
  | nil => cases run
  | cons a rest ih =>
    unfold duplicatePages at run
    have hk := haligned a (List.mem_cons_self ..)
    obtain ⟨pl, rfl, rfl⟩ : ∃ pl : Place, child = pl.space ∧ a = pl.address :=
      ⟨⟨child, a.value⟩, rfl, rfl⟩
    rcases Action.bind_eq_bug.1 run with hbug | ⟨_, u, hfirst, run⟩
    · exact duplicatePage_eq_bug h hk hs hchild hbug
    · have hmoves := duplicatePage_moves h hk hfirst
      obtain ⟨spu, hspu, -⟩ := exists_space_of_books hs
        (hmoves.books_kept (fun l hl => hl.bookless) parent)
      obtain ⟨sc, hsc⟩ := hchild
      obtain ⟨scu, hscu, -⟩ := exists_space_of_books hsc
        (hmoves.books_kept (fun l hl => hl.bookless) pl.space)
      obtain ⟨hover, hfits⟩ := ih (h.moves hmoves)
        (fun b hb => haligned b (List.mem_cons_of_mem _ hb)) hspu ⟨scu, hscu⟩ run
      exact ⟨hover.head hmoves, fun hs => hfits (duplicatePage_fits h hk hfirst hs)⟩

/-- A half-built child can be torn down: it has no mappings, so nothing is written back. -/
theorem duplicate_eq_bug {refuses : Option PagerError} (h : Coherent ⟨s, none⟩)
    (hs : s.spaces.get? parent = some sp) (run : duplicate parent refuses s = .error b) :
    Overruns (Label.Founds s.nextSpace refuses) ⟨s, none⟩ b ∧ ¬ s.Fits := by
  have hne : parent ≠ s.nextSpace := by
    rintro rfl
    rw [h.fresh _ (Nat.le_refl _)] at hs
    cases hs
  unfold duplicate at run
  rw [space_bind hs] at run
  rcases Action.bind_eq_bug.1 run with hbug | ⟨child, u, hcreate, run⟩
  · cases hbug
  obtain ⟨hr, htrace, hspaces, -⟩ := createSpace_moves hcreate
  cases hr
  have hget : u.spaces.get? s.nextSpace = some {} := by rw [hspaces, Table.get?_insert_self]
  rw [modifySpace_bind, Table.modify_eq_insert hget] at run
  obtain ⟨founded, hfounded⟩ : ∃ founded : Space, founded =
    { stackPointer := sp.stackPointer, refusesEntries := refuses } := ⟨_, rfl⟩
  obtain ⟨v, hv⟩ : ∃ v : Machine, v =
    { u with spaces := u.spaces.insert s.nextSpace founded } := ⟨_, rfl⟩
  have hadjust : Move (.adjust refuses) ⟨u, none⟩ ⟨v, none⟩ := by
    rw [hv, hfounded]
    exact .adjust hget sp.stackPointer refuses false
  have htrace := htrace.append (.cons hadjust .nil)
  have hprepared : Moves (Label.Founds s.nextSpace refuses) ⟨s, none⟩ ⟨v, none⟩ :=
    .of_trace htrace (by simp [Label.Founds, Label.Inherits, Label.Seeks])
  have hfits : s.Fits → v.Fits := h.fits_moves
    (.of_trace htrace (by simp [Label.Fits]) : Moves Label.Fits _ _) fun l hl => hl
  have hcoherent := h.moves hprepared
  have hchild : v.spaces.get? s.nextSpace = some founded := by rw [hv, Table.get?_insert_self]
  have hparent : v.spaces.get? parent = some sp := by
    rw [hv]
    show (u.spaces.insert s.nextSpace founded).get? parent = some sp
    rw [hspaces, Table.insert_insert, Table.get?_insert, if_neg hne, hs]
  rw [← hfounded, ← hv, space_bind hparent] at run
  have haligned := aligned_addresses h hs
  rcases Action.attempt_bind_eq_bug.1 run with hbug | ⟨q, w, hpages, run⟩
  · obtain ⟨hover, hnot⟩ := duplicatePages_eq_bug hcoherent haligned hparent ⟨_, hchild⟩ hbug
    exact ⟨(hover.mono fun l hl => hl.founds).head hprepared, fun hs => hnot (hfits hs)⟩
  · exfalso
    have hmoves := duplicatePages_moves hcoherent haligned hpages
    obtain ⟨sc, hsc, hbooks⟩ := exists_space_of_books hchild
      (hmoves.books_kept (fun l hl => hl.bookless) s.nextSpace)
    cases q with
    | ok _ =>
      dsimp only at run
      rw [space_bind (s := w) hsc] at run
      cases run
    | error e =>
      have hempty : sc.mappings = .empty :=
        (congrArg Space.mappings hbooks).trans (congrArg Space.mappings hfounded)
      have hlies : sc.Lies := by
        intro start record hrecord
        rw [hempty] at hrecord
        cases hrecord
      rcases Action.bind_eq_bug.1 run with hbug | ⟨_, x, -, run⟩
      · exact (teardown_halts (hcoherent.moves hmoves) hsc hlies hbug).1 hempty
      · cases run

end Machine
end Pager
