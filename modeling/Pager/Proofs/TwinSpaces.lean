import Pager.Proofs.Duplication
import Pager.Proofs.TwinCopies

/-!
Ends and copies of spaces on twins. Both write the same back to files when mappings and
spaces end, and take the same pages away. A space is copied by both or by neither; what the
copy holds can be seen in both machines only if it could be seen in the space itself.
-/
namespace Pager

theorem Label.Clears.quiet {l : Label} {id : SpaceId} (h : l.Clears id) : l.Quiet := by
  cases l with
  | note | request | giveBack | unrecord | drop => exact Label.quiet_of_place?_eq_none rfl
  | unseat | remove =>
    refine ⟨fun pl hbrings => ?_, by simp⟩
    rcases hbrings with hloads | hseat
    · exact hloads
    · cases hseat
  | _ => exact h.elim

theorem Page.Oblivious.resting {p : Page} (h : p.Oblivious) : p.resting.Oblivious := by
  intro u hu
  refine h u ?_
  unfold Page.resting at hu
  cases hkind : p.kind with
  | unpopulated w =>
    rw [hkind] at hu
    exact hu
  | _ =>
    rw [hkind] at hu
    cases hu

namespace Machine

variable {hidden : SpaceId → Prop} {s s' t t' : Machine} {pl : Place} {p : Page} {sp : Space}
  {id parent : SpaceId} {a start : VirtualAddress} {mapping : MappingId}

/-- What is written back is the same. -/
theorem writeBackIfDirty_mirrors (h : Twins hidden s s') (hs : s.spaces.get? id = some sp)
    (hp : sp.pages.get? a = some p) :
    Mirrors (Shares outline) Eq (writeBackIfDirty id a p s) (writeBackIfDirty id a p s') := by
  have hpage : Pager.pageAt s.spaces (.of id a) = some p := Coherent.pageAt_eq hs hp
  unfold writeBackIfDirty
  cases hframe : p.frame with
  | none => exact .done rfl h.alike
  | some f =>
    cases hkind : p.kind with
    | unpopulated | anonymous => exact .done rfl h.alike
    | fileBacked file =>
      have htype : p.type = .fileBacked := by rw [Page.type, hkind]
      dsimp only
      refine space_bind_mirrors h.alike fun {sp'} _ => ?_
      by_cases hclean : (!sp'.directory.has a .dirty) = true
      · rw [if_pos hclean]
        exact .done rfl h.alike
      · rw [if_neg hclean]
        refine addressOfFrame_bind_mirrors h.alike fun {fr} hf => ?_
        have hwrites : Mirrors (Shares outline) Eq
            (transfer id a fr.address (Transfer.writeBack file) s)
            (transfer id a fr.address (Transfer.writeBack file) s') := by
          refine transfer_mirrors h.alike fun hs' hq hbytes hbytes' hstart =>
            Transfer.writeBack_mirrors hstart ?_ file
          obtain ⟨-, -, rfl⟩ := FramePool.read_eq_ok.1 hbytes
          obtain ⟨-, -, rfl⟩ := FramePool.read_eq_ok.1 hbytes'
          exact h.bytesAt_eq hpage hframe hf (.inr htype)
        refine hwrites.attempt_bind fun {q _ _} _ _ hu => ?_
        cases q with
        | ok _ => exact .done rfl hu
        | error e => exact ((blind_report _).bind fun _ => .pure (some e)).mirrors hu

theorem unmapPage_mirrors (h : Twins hidden s s') :
    Mirrors (Shares outline) Eq (unmapPage id mapping a s) (unmapPage id mapping a s') := by
  unfold unmapPage
  refine space_bind_mirrors h.alike fun {sp} hs => ?_
  cases hp : sp.pages.get? a with
  | none => exact .done rfl h.alike
  | some p =>
    dsimp only
    by_cases hother : p.mapping ≠ some mapping
    · rw [if_pos hother]
      exact .done rfl h.alike
    · rw [if_neg hother]
      refine (writeBackIfDirty_mirrors h hs hp).bind fun {failure _ _ _} _ _ heq hu => ?_
      exact heq ▸ ((blind_remove id a).bind fun _ => .pure failure).mirrors hu

/-- A page is unmapped by both. -/
theorem unmapPage_twins (h : Twins hidden s s') :
    Mirrors (Twins hidden) Eq (unmapPage id mapping a s) (unmapPage id mapping a s') := by
  cases hs : s.spaces.get? id with
  | none =>
    have hs' : s'.spaces.get? id = none := spaces_of_alike h.alike ▸ hs
    unfold unmapPage
    rw [space_bind_none hs, space_bind_none hs']
    exact .bug _
  | some sp =>
    have hs' : s'.spaces.get? id = some sp := spaces_of_alike h.alike ▸ hs
    have hquiet : ∀ l : Label, l.Retires (.of id a) mapping → l.Quiet := fun l hl =>
      hl.unmaps.dismantles.clears.quiet
    refine (unmapPage_mirrors h).strengthen fun run run' halike => ?_
    exact h.of_quiet (unmapPage_moves h.coherent hs run).2.1
      (unmapPage_moves h.coherent' hs' run').2.1 halike hquiet hquiet

theorem unmapPages_twins (h : Twins hidden s s') (addresses : List VirtualAddress) :
    Mirrors (Twins hidden) Eq (unmapPages id mapping addresses s)
      (unmapPages id mapping addresses s') := by
  induction addresses generalizing s s' with
  | nil => exact .done rfl h
  | cons a rest ih =>
    unfold unmapPages
    refine (unmapPage_twins h).bind fun {failure _ _ _} _ _ heq hu => ?_
    subst heq
    refine (ih hu).bind fun {later _ _ _} _ _ heq hv => ?_
    subst heq
    exact .done rfl hv

/-- A mapping is given up by both. -/
theorem munmap_mirrors (h : Twins hidden s s') :
    Mirrors (Shares outline) Eq (munmap id start s) (munmap id start s') := by
  unfold munmap
  refine space_bind_mirrors h.alike fun {sp} hs => ?_
  have hs' : s'.spaces.get? id = some sp := spaces_of_alike h.alike ▸ hs
  cases sp.mappings.get? start.value with
  | none => exact .failed _ h.alike
  | some record =>
    dsimp only
    rw [modifySpace_bind, modifySpace_bind, Table.modify_eq_insert hs, Table.modify_eq_insert hs',
      Action.mapM_liftM]
    have hunrecorded := h.of_move (.unrecord hs start.value) (.unrecord hs' start.value)
      (congrArg (fun o : Machine => { o with spaces := o.spaces.insert id { sp with
        mappings := sp.mappings.erase start.value } }) h.alike)
      (Label.quiet_of_place?_eq_none rfl) (Label.quiet_of_place?_eq_none rfl)
    refine .liftM_bind fun {addresses} _ => ?_
    refine ((unmapPages_twins hunrecorded addresses).mono Twins.alike).bind
      fun {failure _ _ _} _ _ heq hu => ?_
    subst heq
    refine ((blind_report _).mirrors hu).bind fun _ _ _ hv => ?_
    cases failure with
    | none => exact .done rfl hv
    | some e => exact .failed e hv

theorem munmap_twins (h : Twins hidden s s') :
    Mirrors (Twins hidden) Eq (munmap id start s) (munmap id start s') :=
  (munmap_mirrors h).strengthen fun run run' halike =>
    h.of_quiet (munmap_moves h.coherent run).1 (munmap_moves h.coherent' run').1 halike
      (fun _ hl => hl.clears.quiet) fun _ hl => hl.clears.quiet

theorem unmapAll_twins (h : Twins hidden s s') (starts : List VirtualAddress) :
    Mirrors (Twins hidden) Eq (unmapAll id starts s) (unmapAll id starts s') := by
  induction starts generalizing s s' with
  | nil => exact .done rfl h
  | cons start rest ih =>
    unfold unmapAll
    refine (munmap_twins h).attempt_bind fun {q _ _} _ _ hu => ?_
    cases q with
    | ok _ => exact ih hu
    | error e => exact (report_twins hu _).bind fun _ _ _ hv => ih hv

/-- A space ends in both machines. -/
theorem teardown_mirrors (h : Twins hidden s s') :
    Mirrors (Shares outline) Eq (teardown id s) (teardown id s') := by
  unfold teardown
  refine space_bind_mirrors h.alike fun {sp} _ => ?_
  refine ((unmapAll_twins h _).mono Twins.alike).bind fun _ _ _ hu => ?_
  refine space_bind_mirrors hu fun {sp} _ => ?_
  refine ((blind_removeAll id _).bind fun _ => (blind_report _).bind fun _ => .modify ?_).mirrors hu
  exact fun _ => rfl

theorem teardown_twins (h : Twins hidden s s') :
    Mirrors (Twins hidden) Eq (teardown id s) (teardown id s') :=
  (teardown_mirrors h).strengthen fun run run' halike =>
    h.of_quiet (teardown_moves h.coherent run).2.1 (teardown_moves h.coherent' run').2.1 halike
      (fun _ hl => hl.quiet) fun _ hl => hl.quiet

/-- What is copied is not looked at. -/
theorem copyContents_mirrors (halike : s'.outline = s.outline) (target : PhysicalAddress) :
    Mirrors (Shares outline) Eq (copyContents parent a target s) (copyContents parent a target s') := by
  unfold copyContents
  refine page_bind_mirrors halike halike fun {_ p} _ _ => ?_
  cases p.frame with
  | some f =>
    refine addressOfFrame_bind_mirrors halike fun {fr} _ => ?_
    exact readFrame_bind_mirrors halike fun _ _ _ => writeFrame_mirrors halike target 0 _ _
  | none =>
    cases p.slot with
    | none => exact writeFrame_mirrors halike target 0 _ _
    | some slot =>
      dsimp only
      rw [Action.get_bind, Action.get_bind]
      refine readFrame_bind_mirrors halike fun {frame frame'} _ _ hlength => ?_
      rcases SwapTable.readPage_of_alike (swap_of_alike halike) slot hlength with
        ⟨b, hb, hb'⟩ | ⟨bytes, bytes', r, hread, hread', _⟩
      · rw [hb, hb']
        exact .bug b
      · rw [hread, hread']
        refine (writeFrame_mirrors halike target 0 bytes bytes').bind fun _ _ _ hu => ?_
        exact .of_result hu

theorem inherit_mirrors (h : Twins hidden s s') :
    Mirrors (Shares outline) Eq (inherit parent id a s) (inherit parent id a s') := by
  refine (obtainFrame_mirrors h).bind fun {f f' _ _} _ _ heq hu => ?_
  subst heq
  refine addressOfFrame_bind_mirrors hu fun {fr} _ => ?_
  exact (settle_mirrors hu (copyContents_mirrors hu fr.address)).bind fun _ _ _ hv =>
    (blind_bindFrame f id a).mirrors hv

/-- Machines of which all anonymous memory is hidden. -/
abbrev Masked : Machine → Machine → Prop := Twins fun _ => True

/-- Where all anonymous memory is hidden, only bytes of files have to stay the same. -/
theorem Twins.masked_of_moves (h : Masked s s') {kinds kinds' : Label → Prop}
    (hmoves : Moves kinds ⟨s, none⟩ ⟨t, none⟩) (hmoves' : Moves kinds' ⟨s', none⟩ ⟨t', none⟩)
    (halike : t'.outline = t.outline) (hkinds : ∀ l, kinds l → ∀ pl, ¬ l.Loads pl)
    (hkinds' : ∀ l, kinds' l → ∀ pl, ¬ l.Loads pl)
    (hregisters : ∀ pl p, kinds (.register pl p) → p.Oblivious) : Masked t t' where
  coherent := h.coherent.moves hmoves
  coherent' := h.coherent'.moves hmoves'
  alike := halike
  oblivious := h.oblivious.after h.coherent hmoves hregisters
  matching pl := ⟨fun hseen => absurd trivial hseen,
    h.filed_of_moves hmoves hmoves' halike (fun l hl => hkinds l hl pl) fun l hl => hkinds' l hl pl⟩

/-- The child's page gets a frame in both machines. -/
theorem inherit_masked (h : Masked s s') (hs : s.spaces.get? pl.space = some sp)
    (hp : sp.pages.pages.get? pl.key = some p) (habs : p.frame = none)
    (hkind : p.kind = .anonymous none) :
    Mirrors Masked Eq (inherit parent pl.space pl.address s)
      (inherit parent pl.space pl.address s') := by
  have hs' : s'.spaces.get? pl.space = some sp := spaces_of_alike h.alike ▸ hs
  have hloads : ∀ l : Label, l.Fills pl → ∀ other, ¬ l.Loads other := by
    intro l hl other hloads
    cases l with
    | populate | store => exact hl
    | _ => exact hloads
  refine (inherit_mirrors h).strengthen fun run run' halike => ?_
  exact h.masked_of_moves (inherit_moves h.coherent hs hp habs hkind run).1
    (inherit_moves h.coherent' hs' hp habs hkind run').1 halike hloads hloads fun _ _ hl => hl.elim

/-- What a page of the parent's is copied as is registered in both machines. -/
theorem insertResting_masked (h : Masked s s') (hp : Pager.pageAt s.spaces ⟨parent, pl.key⟩ = some p)
    (htype : p.type = .anonymous) : Mirrors Masked Eq (insertPages pl.space [p.resting] s)
      (insertPages pl.space [p.resting] s') := by
  refine (blind_insertPages _ _).twins h ?_
  intro u v r hu hspaces run
  rcases insertPages_cases run with ⟨-, hadds⟩ | ⟨e, -, rfl⟩
  · have hpu : Pager.pageAt u.spaces ⟨parent, pl.key⟩ = some p := by rw [hspaces, hp]
    exact .single (hadds.resting hu hpu htype).1
      (Label.quiet_register (h.oblivious _ p hp).resting)
  · exact .refl

theorem duplicatePage_masked (pl : Place) (h : Masked s s') (hk : pl.key % pageSize = 0) :
    Mirrors Masked Eq (duplicatePage parent pl.space pl.address s)
      (duplicatePage parent pl.space pl.address s') := by
  unfold duplicatePage
  refine space_bind_mirrors h.alike fun {sp} hs => ?_
  rw [PageTable.get?_address hk]
  cases hp : sp.pages.pages.get? pl.key with
  | none => exact .done rfl h
  | some p =>
    have hpage : Pager.pageAt s.spaces ⟨parent, pl.key⟩ = some p := (pageAt_of_get? hs _).trans hp
    dsimp only
    by_cases htype : p.type = .fileBacked
    · rw [if_pos htype]
      exact .done rfl h
    rw [if_neg htype]
    have hanonymous : p.type = .anonymous := by
      cases ht : p.type with
      | anonymous => rfl
      | fileBacked => exact absurd ht htype
    have hinsert : Mirrors Masked Eq (insertPages pl.space [p.resting] s)
        (insertPages pl.space [p.resting] s') := insertResting_masked h hpage hanonymous
    cases hkind : p.kind with
    | unpopulated page =>
      have hresting : p.copyUnpopulated = some p.resting := by
        simp only [Page.copyUnpopulated, Page.resting, hkind]
      rw [hresting]
      exact hinsert
    | anonymous slot =>
      have hnone : p.copyUnpopulated = none := by simp only [Page.copyUnpopulated, hkind]
      rw [hnone]
      rw [Page.resting_of_anonymous hkind] at hinsert
      refine hinsert.bind fun run _ _ hu => ?_
      rcases insertPages_cases run with ⟨-, hadds⟩ | ⟨e, he, -⟩
      · rw [← Page.resting_of_anonymous hkind] at hadds
        obtain ⟨spc, hsc, hpc, hblank, -⟩ := hadds.inherits (h.coherent.linked.keyed hpage).1
          hanonymous (by simp only [Page.isInitialized, hkind])
        exact inherit_masked hu hsc hpc rfl hblank
      · cases he
    | fileBacked file => simp [Page.type, hkind] at htype

theorem duplicatePages_masked (h : Masked s s') {child : SpaceId} {addresses : List VirtualAddress}
    (haligned : ∀ a ∈ addresses, a.value % pageSize = 0) :
    Mirrors Masked Eq (duplicatePages parent child addresses s)
      (duplicatePages parent child addresses s') := by
  induction addresses generalizing s s' with
  | nil => exact .done rfl h
  | cons a rest ih =>
    unfold duplicatePages
    exact (duplicatePage_masked ⟨child, a.value⟩ h (haligned a (List.mem_cons_self ..))).bind
      fun _ _ _ hu => ih hu fun b hb => haligned b (List.mem_cons_of_mem _ hb)

theorem duplicate_masked (h : Masked s s') (refuses : Option PagerError) :
    Mirrors Masked Eq (duplicate parent refuses s) (duplicate parent refuses s') := by
  unfold duplicate
  refine space_bind_mirrors h.alike fun {sp} hs => ?_
  have hcreate : Mirrors Masked Eq (createSpace s) (createSpace s') := by
    refine blind_createSpace.twins h ?_
    intro u v r _ _ run
    refine .of_trace (createSpace_moves run).2.1 fun l hl => ?_
    simp only [List.mem_cons, List.not_mem_nil, or_false] at hl
    rcases hl with rfl | rfl
    · exact Label.quiet_of_place?_eq_none rfl
    · exact Label.quiet_of_place?_eq_none rfl
  refine hcreate.bind fun {child child' u u'} _ _ heq hu => ?_
  subst heq
  refine (adjust_twins hu (fun _ => refuses) fun sp' => ⟨sp.stackPointer, sp'.busy, rfl⟩).bind
    fun _ _ _ hv => ?_
  refine space_bind_mirrors hv.alike fun {sp'} hs' => ?_
  have haligned := aligned_addresses hv.coherent hs'
  refine (duplicatePages_masked hv haligned).attempt_bind fun {q _ _} _ _ hw => ?_
  cases q with
  | error e => exact (teardown_twins hw).bind fun _ _ _ hx => .failed e hx
  | ok _ =>
    refine space_bind_mirrors hw.alike fun {spw} _ => ?_
    refine (report_twins hw _).bind fun _ _ _ hx => ?_
    exact (adjust_twins hx (fun _ => none) fun sp' => ⟨sp'.stackPointer, sp'.busy, rfl⟩).bind
      fun _ _ _ hy => .done rfl hy

/-- A copy is hidden if the space that it was made of is, and else it shows the same in both. -/
theorem duplicate_twins (h : Twins hidden s s') {refuses : Option PagerError}
    (hheirs : ∀ child t, duplicate parent refuses s = .ok (.ok child, t) → hidden parent →
      hidden child) :
    Mirrors (Twins hidden) Eq (duplicate parent refuses s) (duplicate parent refuses s') := by
  refine (duplicate_masked (h.mono fun _ _ => trivial) refuses).strengthen fun {r t t'} run run' hmasked => ?_
  refine ⟨hmasked.coherent, hmasked.coherent', hmasked.alike, hmasked.oblivious, fun pl => ?_⟩
  refine ⟨fun hseen => ?_, (hmasked.matching pl).filed⟩
  have hnext := nextSpace_of_alike h.alike
  obtain ⟨w, -, ⟨rfl, -, hflat⟩ | ⟨⟨e, rfl⟩, -, -, hflat⟩⟩ := duplicate_moves h.coherent run
  · obtain ⟨w', -, ⟨-, -, hflat'⟩ | ⟨⟨e, he⟩, -⟩⟩ := duplicate_moves h.coherent' run'
    · rw [hflat, hflat', hnext]
      dsimp only
      by_cases hchild : pl.space = s.nextSpace
      · rw [if_pos hchild, if_pos hchild]
        exact (h.matching ⟨parent, pl.key⟩).flat fun hparent =>
          hseen (hchild ▸ hheirs s.nextSpace t run hparent)
      · rw [if_neg hchild, if_neg hchild]
        exact (h.matching pl).flat hseen
    · cases he
  · obtain ⟨w', -, ⟨he, -⟩ | ⟨-, -, -, hflat'⟩⟩ := duplicate_moves h.coherent' run'
    · cases he
    · rw [hflat, hflat']
      exact (h.matching pl).flat hseen

end Machine
end Pager
