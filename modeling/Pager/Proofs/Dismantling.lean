import Pager.Proofs.Teardown

/-!
What unmapping does. It goes through the range of a record in ascending order and takes
away the pages that carry the record's number, with their frames; whatever else is
registered there keeps its page, its frame, its entry and its bytes. Each page that is
taken away dirty is written back once, in this order, and no failure keeps the others
from their turn: the first one is reported in the end.
-/
namespace Pager

/-- What went wrong with a call that was to be taken in full. -/
def WriteCall.failure (call : WriteCall) : Option PagerError :=
  FileStore.shortfall call.bytes.length call.outcome

/-- A populated page of a file is a part of it. -/
theorem Page.exists_backing (p : Page) (htype : p.type = .fileBacked)
    (hinit : p.isInitialized = true) : ∃ file, p.kind = .fileBacked file := by
  cases hkind : p.kind with
  | unpopulated =>
    rw [Page.isInitialized, hkind] at hinit
    cases hinit
  | anonymous =>
    rw [Page.type, hkind] at htype
    cases htype
  | fileBacked file => exact ⟨file, rfl⟩

namespace Machine

/-- The page at a place belongs to the mapping. -/
def Carries (s : Machine) (mapping : MappingId) (pl : Place) : Prop :=
  ∃ p, Pager.pageAt s.spaces pl = some p ∧ p.mapping = some mapping

/-- The pages at some places are gone with their entries and their frames, and all others are
as before, with what is in their frames. -/
structure Sheds (s : Machine) (gone : Place → Prop) (t : Machine) : Prop where
  page : ∀ pl p, Pager.pageAt t.spaces pl = some p ↔ Pager.pageAt s.spaces pl = some p ∧ ¬ gone pl
  entry : ∀ pl e, Pager.entryAt t.spaces pl = some e ↔
    Pager.entryAt s.spaces pl = some e ∧ ¬ gone pl
  frame : ∀ f fr, t.frames.get? f = some fr ↔
    s.frames.get? f = some fr ∧ ∀ pl, gone pl → fr.owner ≠ some pl.owner
  contents : t.pool.contents = s.pool.contents
  swap : t.swap = s.swap

namespace Sheds

variable {s t u : Machine} {gone more : Place → Prop} {pl : Place}

theorem refl (hnone : ∀ pl, ¬ gone pl) : s.Sheds gone s where
  page pl _ := (and_iff_left (hnone pl)).symm
  entry pl _ := (and_iff_left (hnone pl)).symm
  frame _ _ := (and_iff_left fun pl hgone => absurd hgone (hnone pl)).symm
  contents := rfl
  swap := rfl

theorem trans (h : s.Sheds gone u) (h' : u.Sheds more t) :
    s.Sheds (fun pl => gone pl ∨ more pl) t where
  page pl p := by rw [h'.page, h.page, and_assoc, not_or]
  entry pl e := by rw [h'.entry, h.entry, and_assoc, not_or]
  frame f fr := by
    rw [h'.frame, h.frame, and_assoc]
    refine and_congr_right fun _ => ⟨fun ⟨hgone, hmore⟩ pl => ?_, fun hboth => ?_⟩
    · exact fun h => h.elim (hgone pl) (hmore pl)
    · exact ⟨fun pl hgone => hboth pl (.inl hgone), fun pl hmore => hboth pl (.inr hmore)⟩
  contents := h'.contents.trans h.contents
  swap := h'.swap.trans h.swap

theorem congr (h : s.Sheds gone t) (hsame : ∀ pl, more pl ↔ gone pl) : s.Sheds more t := by
  rwa [show more = gone from funext fun pl => propext (hsame pl)]

/-- A frame that is still tracked holds what it held. -/
theorem frameBytes (h : s.Sheds gone t) {f : FrameId} {fr : Frame}
    (hf : t.frames.get? f = some fr) : t.frameBytes f = s.frameBytes f := by
  rw [frameBytes_of_get? hf, frameBytes_of_get? ((h.frame f fr).1 hf).1, FramePool.bytesAt,
    FramePool.bytesAt, h.contents]

theorem carries_iff (h : s.Sheds gone t) (hstays : ¬ gone pl) {mapping : MappingId} :
    t.Carries mapping pl ↔ s.Carries mapping pl :=
  exists_congr fun p => and_congr_left fun _ => by rw [h.page, and_iff_left hstays]

theorem dirty_iff (h : s.Sheds gone t) (hstays : ¬ gone pl) : t.Dirty pl ↔ s.Dirty pl :=
  exists_congr fun e => and_congr_left fun _ => by rw [h.entry, and_iff_left hstays]

/-- What is stored in a page and not in its file was so before. -/
theorem soiled (h : s.Sheds gone t) (ht : Coherent ⟨t, none⟩) {file : FileBacking} {bytes : Bytes}
    (hsoiled : t.Soiled pl file bytes) : s.Soiled pl file bytes := by
  obtain ⟨p, f, e, hp, hk, hf, he, hd, hbytes⟩ := hsoiled
  obtain ⟨fr, -, hfr, -⟩ := ht.linked.page_frame hp hf
  refine ⟨p, f, e, ((h.page pl p).1 hp).1, hk, hf, ((h.entry pl e).1 he).1, hd, ?_⟩
  rw [← h.frameBytes hfr, hbytes]

/-- What a page asks for afterwards it would have asked for before. -/
theorem sends (h : s.Sheds gone t) (ht : Coherent ⟨t, none⟩) {call : WriteCall}
    (hsends : t.Sends pl call) : s.Sends pl call := by
  obtain ⟨file, bytes, hsoiled, hcall⟩ := hsends
  exact ⟨file, bytes, h.soiled ht hsoiled, hcall⟩

/-- The frames of the pages that are gone are free. -/
theorem free (h : s.Sheds gone t) (hs : Coherent ⟨s, none⟩) (ht : Coherent ⟨t, none⟩) (n : Nat) :
    n ∈ t.pool.free ↔ n ∈ s.pool.free ∨ ∃ pl p f fr, gone pl ∧ Pager.pageAt s.spaces pl = some p ∧
      p.frame = some f ∧ s.frames.get? f = some fr ∧ fr.address = FramePool.addressOf n := by
  have hsize : t.pool.size = s.pool.size := congrArg List.length h.contents
  rw [free_iff_of_frames hs ht hsize h.frame]
  refine or_congr_right ⟨?_, ?_⟩
  · rintro ⟨f, fr, hf, hgone, ha⟩
    push Not at hgone
    obtain ⟨pl, hgone, ho⟩ := hgone
    obtain ⟨p, hp, hres⟩ := hs.linked.owner_page hf ho
    exact ⟨pl, p, f, fr, hgone, hp, hres, hf, ha⟩
  · rintro ⟨pl, p, f, fr, hgone, hp, hres, hf, ha⟩
    have hseat : Seated ⟨s, none⟩ pl p f fr := ⟨hp, hres, hf⟩
    exact ⟨f, fr, hf, fun hstays => hstays pl hgone (hseat.owner hs), ha⟩

end Sheds

end Machine

section

variable {m n : Moment} {l : Label} {pl other : Place} {mapping : MappingId}

/-- Retiring a page changes no other page and no other entry. -/
theorem Move.elsewhere (hmove : Move l m n) (hl : l.Retires other mapping) (hne : pl ≠ other) :
    pageAt n.machine.spaces pl = pageAt m.machine.spaces pl ∧
      entryAt n.machine.spaces pl = entryAt m.machine.spaces pl := by
  cases hmove with
  | note | request | giveBack => exact ⟨rfl, rfl⟩
  | unseat _ hs =>
    obtain ⟨rfl, -⟩ := hl
    exact ⟨(congrFun (Coherent.pageAt_put hs _ rfl) pl).trans (Function.update_of_ne hne ..),
      (congrFun (Coherent.entryAt_unmap hs rfl) pl).trans (Function.update_of_ne hne ..)⟩
  | remove hs =>
    obtain ⟨rfl, -⟩ := hl
    refine ⟨(congrFun (Coherent.pageAt_erase hs rfl) pl).trans (Function.update_of_ne hne ..),
      congrFun (entryAt_insert_of_eq hs ?_) pl⟩
    rfl
  | _ => exact hl.elim

/-- A page of a mapping has no slot to give up. -/
theorem Coherent.swap_retires (h : Coherent m) (hmove : Move l m n)
    (hl : l.Retires other mapping) : n.machine.swap = m.machine.swap := by
  cases hmove with
  | note | request | giveBack | unseat => rfl
  | remove hs hq _ hrel =>
    obtain ⟨rfl, hmapping⟩ := hl
    have htype := h.typed _ _ (pageAt_eq hs hq) (hmapping ▸ rfl)
    rcases Page.releaseSlot_eq_ok hrel with ⟨k, hslot, -⟩ | ⟨-, rfl, -⟩
    · unfold Page.slot at hslot
      split at hslot
      · rename_i hkind
        rw [Page.type, hkind] at htype
        cases htype
      · cases hslot
    · rfl
  | _ => exact hl.elim

end

namespace Machine

variable {s t : Machine} {id : SpaceId} {a : VirtualAddress} {sp : Space} {mapping : MappingId}
  {pl : Place}

/-- A page that was retired is gone with its entry and its frame. -/
theorem sheds_of_retires (h : Coherent ⟨s, none⟩)
    (hmoves : Moves (Label.Retires pl mapping) ⟨s, none⟩ ⟨t, none⟩)
    (hgone : Pager.pageAt t.spaces pl = none) : s.Sheds (· = pl) t := by
  have ht := h.moves hmoves
  have helsewhere : ∀ other ≠ pl, Pager.pageAt t.spaces other = Pager.pageAt s.spaces other ∧
      Pager.entryAt t.spaces other = Pager.entryAt s.spaces other := by
    intro other hne
    refine hmoves.preserves (P := fun n => Pager.pageAt n.machine.spaces other = _ ∧
      Pager.entryAt n.machine.spaces other = _) (fun hl hsame hmove => ?_) ⟨rfl, rfl⟩
    obtain ⟨hpage, hentry⟩ := hmove.elsewhere hl hne
    exact ⟨hpage.trans hsame.1, hentry.trans hsame.2⟩
  have hblank : Pager.entryAt t.spaces pl = none := by
    by_contra hentry
    obtain ⟨e, he⟩ := Option.ne_none_iff_exists'.1 hentry
    obtain ⟨p, f, hp, -⟩ := ht.linked.entry_page he
    cases hgone.symm.trans hp
  have hseated : ∀ {other p f fr}, other ≠ pl → Seated ⟨s, none⟩ other p f fr →
      Seated ⟨t, none⟩ other p f fr := by
    intro other p f fr hne hseat
    refine hseat.moves h hmoves fun l hl => ?_
    cases l with
    | unseat at' q => exact fun he => absurd (he.symm.trans hl.1) hne
    | _ => first | exact hl.elim | trivial
  refine ⟨fun other p => ?_, fun other e => ?_, fun f fr => ⟨fun hf => ?_, fun ⟨hf, hkept⟩ => ?_⟩,
    ?_, ?_⟩
  · by_cases hne : other = pl
    · simp [hne, hgone]
    · rw [(helsewhere other hne).1, and_iff_left hne]
  · by_cases hne : other = pl
    · simp [hne, hblank]
    · rw [(helsewhere other hne).2, and_iff_left hne]
  · cases ho : fr.owner with
    | none => cases (ht.linked.held_iff hf).1 ho
    | some o =>
      obtain ⟨p, hp, hres⟩ := ht.linked.owner_page hf ho
      have hne : (⟨o.space, o.page.value⟩ : Place) ≠ pl := by
        rintro rfl
        cases hgone.symm.trans hp
      obtain ⟨gr, -, hg, -⟩ := h.linked.page_frame ((helsewhere _ hne).1.symm.trans hp) hres
      have hseat := hseated hne ⟨(helsewhere _ hne).1.symm.trans hp, hres, hg⟩
      cases hseat.tracked.symm.trans hf
      refine ⟨hg, ?_⟩
      rintro _ rfl hsame
      exact hne (congrArg (fun o => (⟨o.space, o.page.value⟩ : Place)) (Option.some.inj hsame))
  · cases ho : fr.owner with
    | none => cases (h.linked.held_iff hf).1 ho
    | some o =>
      obtain ⟨p, hp, hres⟩ := h.linked.owner_page hf ho
      refine (hseated ?_ ⟨hp, hres, hf⟩).tracked
      rintro rfl
      exact hkept _ rfl ho
  · have hclears : Moves (Label.Clears pl.space) ⟨s, none⟩ ⟨t, none⟩ := hmoves.mono fun l hl => by
      cases l with
      | unseat | remove => exact congrArg Place.space hl.1
      | _ => first | exact hl.elim | trivial
    exact (clears_still h hclears).1
  · exact h.keeps hmoves (fun m => m.machine.swap) fun hl ho hmove => ho.swap_retires hmove hl

/-- The pages of the mapping at the places told are taken away, and those of them that were
stored to are written back in this order, each by one call. -/
structure Flushes (s : Machine) (mapping : MappingId) (among : List Place)
    (calls : List WriteCall) (t : Machine) : Prop where
  sheds : s.Sheds (fun pl => pl ∈ among ∧ s.Carries mapping pl) t
  logs : s.files.Logs calls.reverse t.files
  sends : ∃ places, places.Sublist among ∧
    (∀ pl, pl ∈ places ↔ (pl ∈ among ∧ s.Carries mapping pl) ∧ s.Dirty pl) ∧
    List.Forall₂ s.Sends places calls

namespace Flushes

variable {u : Machine} {first rest : List Place} {calls later : List WriteCall}

/-- A change that neither pages nor files take part in. -/
theorem of_same (hpages : Pager.pageAt t.spaces = Pager.pageAt s.spaces)
    (hentries : Pager.entryAt t.spaces = Pager.entryAt s.spaces) (hframes : t.frames = s.frames)
    (hpool : t.pool = s.pool) (hswap : t.swap = s.swap) (hfiles : t.files = s.files) :
    s.Flushes mapping [] [] t where
  sheds := by
    refine ⟨fun pl p => ?_, fun pl e => ?_, fun f fr => ?_, congrArg _ hpool, hswap⟩
    · simp [hpages]
    · simp [hentries]
    · simp [hframes]
  logs := hfiles ▸ .refl
  sends := ⟨[], .refl _, by simp, .nil⟩

/-- First some places, then others. -/
theorem append (h : s.Flushes mapping first calls u) (h' : u.Flushes mapping rest later t)
    (hu : Coherent ⟨u, none⟩) (hdisjoint : ∀ pl ∈ rest, pl ∉ first) :
    s.Flushes mapping (first ++ rest) (calls ++ later) t := by
  have hstays : ∀ pl ∈ rest, ¬ (pl ∈ first ∧ s.Carries mapping pl) :=
    fun pl hmem hgone => hdisjoint pl hmem hgone.1
  have hcarries : ∀ pl, pl ∈ rest ∧ u.Carries mapping pl ↔ pl ∈ rest ∧ s.Carries mapping pl :=
    fun pl => and_congr_right fun hmem => h.sheds.carries_iff (hstays pl hmem)
  obtain ⟨places, hsub, hmem, hsends⟩ := h.sends
  obtain ⟨places', hsub', hmem', hsends'⟩ := h'.sends
  refine ⟨(h.sheds.trans h'.sheds).congr fun pl => ?_, ?_, places ++ places',
    hsub.append hsub', fun pl => ?_, ?_⟩
  · rw [hcarries, List.mem_append, or_and_right]
  · rw [List.reverse_append]
    exact h.logs.trans h'.logs
  · rw [List.mem_append, List.mem_append, hmem, hmem', hcarries, or_and_right, or_and_right]
    refine or_congr_right (and_congr_right fun ⟨hpl, _⟩ => h.sheds.dirty_iff (hstays pl hpl))
  · exact List.rel_append hsends (hsends'.imp fun _ _ hsend => h.sheds.sends hu hsend)

/-- Pages still refer to files that there are. -/
theorem sourced (h : s.Flushes mapping first calls t) (hsourced : s.Sourced) : t.Sourced := by
  intro pl p handle hp hhandle
  rw [h.logs.isSome_data?]
  exact hsourced pl p handle ((h.sheds.page pl p).1 hp).1 hhandle

end Flushes

/-- Unmapping one page takes it away if it belongs to the mapping, and writes it back before if
it was stored to. -/
theorem unmapPage_flushes (h : Coherent ⟨s, none⟩) (hs : s.spaces.get? pl.space = some sp)
    (hfits : s.MapsFit) (hsourced : s.Sourced) (hk : pl.key % pageSize = 0)
    {r : Except PagerError (Option PagerError)}
    (run : unmapPage pl.space mapping pl.address s = .ok (r, t)) :
    ∃ calls, r = .ok (calls.findSome? WriteCall.failure) ∧ s.Flushes mapping [pl] calls t := by
  have hplace : Place.of pl.space pl.address = pl := Place.of_address hk
  have hat : ∀ {p}, sp.pages.get? pl.address = some p → Pager.pageAt s.spaces pl = some p :=
    fun hp => (pageAt_of_get? hs pl.key).trans ((PageTable.get?_address hk _).symm.trans hp)
  obtain ⟨failure, rfl, ⟨rfl, rfl, hother⟩ | ⟨p, u, directory, hp, hmapping, hwrite, hspaces,
    hretires, hremove, hretired, ht⟩⟩ := unmapPage_cases h hs run
  · have hnone : ∀ other, ¬ (other ∈ [pl] ∧ t.Carries mapping other) := by
      rintro other ⟨hmem, p, hp, hmapping⟩
      obtain rfl := List.mem_singleton.1 hmem
      refine hother p ((PageTable.get?_address hk _).trans ?_) hmapping
      exact (pageAt_of_get? hs _).symm.trans hp
    exact ⟨[], rfl, .refl hnone, .refl, [], List.nil_sublist _,
      fun other => ⟨fun hmem => (by cases hmem), fun hgone => absurd hgone.1 (hnone other)⟩, .nil⟩
  · have hpage := hat hp
    have hcarries : s.Carries mapping pl := ⟨p, hpage, hmapping⟩
    rw [hplace] at hretires hretired
    have hgone : Pager.pageAt t.spaces pl = none := by
      rw [pageAt_of_get? (ht ▸ Table.get?_insert_self ..)]
      exact (Table.get?_erase ..).trans (if_pos (congrArg Place.key hplace).symm)
    have hsheds : s.Sheds (fun other => other ∈ [pl] ∧ s.Carries mapping other) t := by
      refine (sheds_of_retires h (hretires.trans hretired) hgone).congr fun other => ?_
      rw [List.mem_singleton, and_iff_left_of_imp]
      rintro rfl
      exact hcarries
    have hfiles : t.files = u.files := by
      obtain ⟨_, -, ⟨-, hr, -⟩ | ⟨_, _, -, -, -, hfiles, -⟩⟩ := remove_moves (h.moves hretires) hremove
      · cases hr
      · exact hfiles
    obtain ⟨_, hr, ⟨rfl, rfl, hclean⟩ | ⟨f, fr, file, q, files, events, hf, hkind, hdirty, hfr,
      hcall, -, hfailure, rfl⟩⟩ := writeBackIfDirty_cases h hs hp hwrite
    · cases hr
      refine ⟨[], rfl, hsheds, hfiles ▸ .refl, [], List.nil_sublist _, fun other => ?_, .nil⟩
      simp only [List.not_mem_nil, List.mem_singleton, false_iff]
      rintro ⟨⟨heq, -⟩, hd⟩
      rw [heq] at hd
      obtain ⟨q, f, hq, hf⟩ := h.resident_of_dirty hd
      cases hq.symm.trans hpage
      obtain ⟨file, hkind⟩ := p.exists_backing (h.typed _ _ hpage (hmapping ▸ rfl))
        (h.linked.ready hpage hf).1
      obtain ⟨e, he, hflag⟩ := hd
      have hshown : sp.directory.has pl.address .dirty = true :=
        Directory.has_iff.2 ⟨e, (entryAt_of_get? hs pl.key).symm.trans he, hflag⟩
      cases hshown.symm.trans (hclean f file hf hkind)
    · cases hr
      obtain ⟨gr, -, hg, ho, -⟩ := h.linked.page_frame hpage hf
      cases hfr.symm.trans hg
      have hget : sp.pages.pages.get? pl.key = some p := (pageAt_of_get? hs _).symm.trans hpage
      have hsoiled := h.soiled_of_owner hfr ho hs hget hkind hdirty
      have hread : file.readBytes ≤ pageSize := by
        have hle := hfits.page hpage (hmapping ▸ rfl)
        rwa [Page.readBytes, hkind] at hle
      obtain ⟨data, hdata⟩ := Option.isSome_iff_exists.1
        (hsourced pl p file.file hpage (by rw [Page.handle, hkind]))
      rcases FileStore.Logs.of_writeAt hcall with hlogs | ⟨hnone, -, -⟩
      · have hafter : s.files.Logs [⟨file.file, file.offset,
            (s.pool.bytesAt fr.address).take file.readBytes, q⟩] t.files := by
          rw [hfiles]
          exact hlogs
        refine ⟨[_], ?_, hsheds, hafter, [pl], .refl _, fun other => ?_,
          .cons ⟨file, _, hsoiled, rfl, rfl, rfl⟩ .nil⟩
        · rw [List.findSome?_singleton, WriteCall.failure, List.length_take, h.length_frame hfr,
            Nat.min_eq_left hread, hfailure]
        · rw [List.mem_singleton, and_assoc, iff_self_and]
          rintro rfl
          exact ⟨hcarries, hsoiled.dirty⟩
      · obtain ⟨found, hfound, -⟩ := FileStore.exists_file_of_data? hdata
        cases hnone.symm.trans hfound

/-- Unmapping pages one after the other goes on where one of them fails. -/
theorem unmapPages_flushes {among : List Place} (h : Coherent ⟨s, none⟩)
    (hs : s.spaces.get? id = some sp) (hfits : s.MapsFit) (hsourced : s.Sourced)
    (hspace : ∀ pl ∈ among, pl.space = id) (hk : ∀ pl ∈ among, pl.key % pageSize = 0)
    (hnodup : among.Nodup) {r : Except PagerError (Option PagerError)}
    (run : unmapPages id mapping (among.map Place.address) s = .ok (r, t)) :
    ∃ calls, r = .ok (calls.findSome? WriteCall.failure) ∧ s.Flushes mapping among calls t := by
  induction among generalizing s sp r with
  | nil =>
    cases run
    exact ⟨[], rfl, .of_same rfl rfl rfl rfl rfl rfl⟩
  | cons pl rest ih =>
    obtain rfl := hspace pl (List.mem_cons_self ..)
    obtain ⟨hfirst, hrest⟩ := List.nodup_cons.1 hnodup
    obtain ⟨failure, others, u, hpage, hnext, rfl⟩ := unmapPages_cons h hs run
    obtain ⟨-, hmoves, after, hafter⟩ := unmapPage_moves h hs hpage
    have hu := h.moves hmoves
    obtain ⟨calls, hr, hflush⟩ :=
      unmapPage_flushes h hs hfits hsourced (hk pl (List.mem_cons_self ..)) hpage
    have hstill : u.MapsFit := h.mapsFit_moves hmoves (fun l hl => by
      cases l <;> first | exact hl.elim | trivial) hfits
    obtain ⟨later, hr', hothers⟩ := ih hu hafter hstill (hflush.sourced hsourced)
      (fun other hmem => hspace other (List.mem_cons_of_mem _ hmem))
      (fun other hmem => hk other (List.mem_cons_of_mem _ hmem)) hrest hnext
    refine ⟨calls ++ later, ?_, hflush.append hothers hu fun other hmem hself => ?_⟩
    · rw [Except.ok.inj hr, Except.ok.inj hr', List.findSome?_append]
    · exact hfirst (List.mem_singleton.1 hself ▸ hmem)

/-- The page at a place is in the range of a record and belongs to its mapping. -/
def Belongs (s : Machine) (id : SpaceId) (start : Nat) (record : Mapping) (pl : Place) : Prop :=
  pl.space = id ∧ start ≤ pl.key ∧ pl.key < start + record.pages * pageSize ∧
    s.Carries record.id pl

/-- A mapping was unmapped, with these calls to write pages back, the first one first. -/
structure Dismantles (s : Machine) (id : SpaceId) (start : Nat) (record : Mapping)
    (calls : List WriteCall) (t : Machine) : Prop where
  /-- The record is gone, and no other. -/
  records : ∀ other, (t.spaces.get? other).map Space.mappings =
    (s.spaces.get? other).map fun sp =>
      if other = id then sp.mappings.erase start else sp.mappings
  sheds : s.Sheds (s.Belongs id start record) t
  free : ∀ n, n ∈ t.pool.free ↔ n ∈ s.pool.free ∨ ∃ pl p f fr, s.Belongs id start record pl ∧
    Pager.pageAt s.spaces pl = some p ∧ p.frame = some f ∧ s.frames.get? f = some fr ∧
      fr.address = FramePool.addressOf n
  logs : s.files.Logs calls.reverse t.files
  sends : ∃ places, places.Pairwise (·.key < ·.key) ∧
    (∀ pl, pl ∈ places ↔ s.Belongs id start record pl ∧ s.Dirty pl) ∧
    List.Forall₂ s.Sends places calls

/-- The pages in the range of a record, in ascending order. -/
def range (id : SpaceId) (start : Nat) (record : Mapping) : List Place :=
  (List.range record.pages).map fun k => ⟨id, start + k * pageSize⟩

theorem mem_range_iff {start : Nat} {record : Mapping} (haligned : start % pageSize = 0)
    (hk : pl.key % pageSize = 0) : pl ∈ range id start record ↔
      pl.space = id ∧ start ≤ pl.key ∧ pl.key < start + record.pages * pageSize := by
  simp only [range, List.mem_map, List.mem_range]
  constructor
  · rintro ⟨k, hlt, rfl⟩
    refine ⟨rfl, Nat.le_add_right .., Nat.add_lt_add_left ?_ _⟩
    exact Nat.mul_lt_mul_of_pos_right hlt (by decide)
  · rintro ⟨rfl, hlow, hhigh⟩
    refine ⟨(pl.key - start) / pageSize, ?_, Place.ext rfl ?_⟩
    · unfold pageSize at *
      omega
    · show start + (pl.key - start) / pageSize * pageSize = pl.key
      unfold pageSize at *
      omega

theorem range_ascends (id : SpaceId) (start : Nat) (record : Mapping) :
    (range id start record).Pairwise (·.key < ·.key) := by
  refine List.pairwise_map.2 (List.pairwise_lt_range.imp fun hlt => ?_)
  exact Nat.add_lt_add_left (Nat.mul_lt_mul_of_pos_right hlt (by decide)) _

/-- Unmapping takes away what belongs to the mapping and writes it back as far as it was stored
to, whatever the files make of it, and reports the first failure. -/
theorem munmap_dismantles (h : Coherent ⟨s, none⟩) (hs : s.spaces.get? id = some sp)
    (hn : s.Numbered) (hfits : s.MapsFit) (hsourced : s.Sourced) {record : Mapping}
    (hrecord : sp.mappings.get? a.value = some record) {r : Except PagerError Unit}
    (run : munmap id a s = .ok (r, t)) : ∃ calls, s.Dismantles id a.value record calls t ∧
      r = Transfer.ending (calls.findSome? WriteCall.failure) := by
  have haligned := (hn _ sp hs).aligned _ _ hrecord
  obtain ⟨hmoves, sp', hs', ⟨hnone, -, -⟩ | ⟨record', _, pages, directory, hrecord', -, hspaces, -⟩⟩ :=
    munmap_moves h run
  · cases hs.symm.trans hs'
    cases hrecord.symm.trans hnone
  cases hs.symm.trans hs'
  cases hrecord.symm.trans hrecord'
  obtain ⟨sp', hs', ⟨hnone, -, -⟩ | ⟨record', failure, addresses, u, v, events, hrecord', haddresses,
    hunrecord, hu, hpages, rfl, rfl⟩⟩ := munmap_cases h run
  · cases hs.symm.trans hs'
    cases hrecord.symm.trans hnone
  cases hs.symm.trans hs'
  cases hrecord.symm.trans hrecord'
  have hlist : addresses = (range id a.value record).map Place.address := by
    rw [eq_map_of_mapM haddresses fun hadd => Address.eq_of_add hadd, range, List.map_map]
    rfl
  have hgiven : s.Flushes record.id [] [] u := by
    cases hunrecord with
    | unrecord hs =>
      refine .of_same (pageAt_insert_of_eq hs ?_) (entryAt_insert_of_eq hs ?_) rfl rfl rfl rfl <;> rfl
  have hcoherent := h.move hunrecord
  have hmove : Moves Label.MapsFit _ _ := .single hunrecord trivial
  have hstill : u.MapsFit := h.mapsFit_moves hmove (fun _ hl => hl) hfits
  have hk : ∀ pl ∈ range id a.value record, pl.key % pageSize = 0 := by
    intro pl hmem
    obtain ⟨k, -, rfl⟩ := List.mem_map.1 hmem
    exact (Nat.add_mul_mod_self_right ..).trans haligned
  have hin : ∀ pl ∈ range id a.value record, pl.space = id := by
    intro pl hmem
    obtain ⟨k, -, rfl⟩ := List.mem_map.1 hmem
    rfl
  have hascend := range_ascends id a.value record
  obtain ⟨calls, hr, hflush⟩ := unmapPages_flushes hcoherent hu hstill (hgiven.sourced hsourced) hin
    hk (hascend.imp fun hlt he => Nat.ne_of_lt hlt (congrArg Place.key he)) (hlist ▸ hpages)
  cases hr
  have hlast : v.Flushes record.id [] [] { v with events } := .of_same rfl rfl rfl rfl rfl rfl
  have hv := hcoherent.moves (unmapPages_cases hcoherent hu hpages).2.1
  have hall := (hgiven.append hflush hcoherent (by simp)).append hlast hv (by simp)
  rw [List.nil_append, List.nil_append, List.append_nil, List.append_nil] at hall
  have hbelongs : ∀ pl, s.Belongs id a.value record pl ↔
      pl ∈ range id a.value record ∧ s.Carries record.id pl := by
    intro pl
    constructor
    · rintro ⟨hid, hlow, hhigh, p, hp, hmapping⟩
      exact ⟨(mem_range_iff haligned (h.linked.keyed hp).2).2 ⟨hid, hlow, hhigh⟩, p, hp, hmapping⟩
    · rintro ⟨hmem, hcarries⟩
      obtain ⟨hid, hlow, hhigh⟩ := (mem_range_iff haligned (hk pl hmem)).1 hmem
      exact ⟨hid, hlow, hhigh, hcarries⟩
  have hsheds := hall.sheds.congr hbelongs
  obtain ⟨places, hsub, hmem, hsends⟩ := hall.sends
  refine ⟨calls, ⟨fun other => ?_, hsheds, hsheds.free h (h.moves hmoves), hall.logs, places,
    hascend.sublist hsub, fun pl => ?_, hsends⟩, rfl⟩
  · rw [hspaces, Table.get?_insert]
    split
    · rename_i he
      subst he
      rw [hs]
      simp
    · rename_i hne
      simp
  · rw [hmem, hbelongs]

/-- Unmapping ends whatever the files do. It takes away exactly the pages of the mapping and asks
for exactly the dirty ones to be written back, and where no mapping starts it changes nothing. -/
theorem Reachable.munmap_exact (hr : Reachable s) (hs : s.spaces.get? id = some sp)
    (a : VirtualAddress) : ∃ r t, munmap id a s = .ok (r, t) ∧
      match sp.mappings.get? a.value with
      | none => r = .error .notMapped ∧ t = s
      | some record => ∃ calls, s.Dismantles id a.value record calls t ∧
          r = Transfer.ending (calls.findSome? WriteCall.failure) := by
  have h := hr.coherent
  obtain ⟨hlies, hfits⟩ := hr.mapsFit
  cases hrun : munmap id a s with
  | ok last =>
    obtain ⟨r, t⟩ := last
    refine ⟨r, t, rfl, ?_⟩
    cases hrecord : sp.mappings.get? a.value with
    | none =>
      obtain ⟨sp', hs', ⟨-, hr, ht⟩ | ⟨record, _, _, _, _, _, hrecord', -⟩⟩ := munmap_cases h hrun
      · exact ⟨hr, ht⟩
      · cases hs.symm.trans hs'
        cases hrecord.symm.trans hrecord'
    | some record =>
      exact munmap_dismantles h hs hr.numbered hfits hr.sourced hrecord hrun
  | error b =>
    refine absurd (munmap_halts h hs (hlies id sp hs) hrun) (hfits.not_halts h fun l hl => ?_)
    cases l <;> first | exact hl.elim | trivial

/-- Two pages of a mapping are stored to; a third one is removed, and another page registered in
its place. The file refuses the first page. -/
def refusing : List Op := [.createSpace, .onSpace 1 0x10000 (.mmap 12288 true ⟨0, 0⟩ 0),
  .onSpace 1 0x10000 (.copyTo [7]), .onSpace 1 0x11000 (.copyTo [8]), .onSpace 1 0x12000 .remove,
  .onSpace 1 0x12000 (.registerAnonymous true), .onSpace 1 0x12000 (.copyTo [9]),
  .switchFile ⟨0, 0⟩ { failWrites := some fun offset => offset == 0 }]

set_option synthInstance.maxSize 1024 in
/-- The second page is written back although the first could not be, and both are gone. The page
that took the place of the third stays in its frame. -/
theorem munmap_exact_of_refusing : ∃ start results s sp record t calls,
    boot 3 8 [List.replicate 4097 1] = .ok start ∧ run refusing start = .ok (results, s) ∧
    s.spaces.get? 1 = some sp ∧ sp.mappings.get? 0x10000 = some record ∧
    munmap 1 ⟨0x10000⟩ s = .ok (.error (.store .device), t) ∧
    s.Dismantles 1 0x10000 record calls t ∧
    calls.map (fun call => (call.offset, call.bytes.length, call.outcome.toBool)) =
      [(0, 4096, false), (4096, 1, true)] ∧
    t.pool.freeCount = 2 ∧ (Pager.pageAt t.spaces ⟨1, 0x12000⟩).map Page.frame = some (some 2) := by
  have hend : (boot 3 8 [List.replicate 4097 1] >>= fun start => run refusing start >>= fun last =>
      munmap 1 ⟨0x10000⟩ last.2 >>= fun gone => .ok (last.2.files.calls.length, gone.1,
        gone.2.files.calls.reverse.map fun call =>
          (call.offset, call.bytes.length, call.outcome.toBool),
        gone.2.pool.freeCount, (Pager.pageAt gone.2.spaces ⟨1, 0x12000⟩).map Page.frame)) =
      .ok (0, .error (.store .device), [(0, 4096, false), (4096, 1, true)], 2, some (some 2)) := by
    decide +kernel
  obtain ⟨start, hboot, hend⟩ := except_bind_eq_ok.1 hend
  obtain ⟨⟨results, s⟩, hrun, hend⟩ := except_bind_eq_ok.1 hend
  obtain ⟨⟨q, t⟩, hgone, hend⟩ := except_bind_eq_ok.1 hend
  obtain ⟨hnone, hrest⟩ := Prod.mk.inj (Except.ok.inj hend)
  obtain ⟨hq, hrest⟩ := Prod.mk.inj hrest
  obtain ⟨hmade, hrest⟩ := Prod.mk.inj hrest
  obtain ⟨hfree, hframe⟩ := Prod.mk.inj hrest
  obtain rfl : q = .error (.store .device) := hq
  have hr : Reachable s := ⟨3, 8, _, refusing, start, results, hboot, hrun⟩
  obtain ⟨sp, hs, -⟩ := munmap_cases hr.coherent hgone
  obtain ⟨r, u, hrun', hcase⟩ := hr.munmap_exact hs ⟨0x10000⟩
  cases hgone.symm.trans hrun'
  cases hrecord : sp.mappings.get? 0x10000 with
  | none =>
    rw [hrecord] at hcase
    cases hcase.1
  | some record =>
    rw [hrecord] at hcase
    obtain ⟨calls, hdismantles, -⟩ := hcase
    have hcalls : t.files.calls.reverse = calls := by
      rw [hdismantles.logs.made, List.length_eq_zero_iff.1 hnone, List.append_nil,
        List.reverse_reverse]
    rw [hcalls] at hmade
    exact ⟨start, results, s, sp, record, t, calls, hboot, hrun, hs, hrecord, hgone, hdismantles,
      hmade, hfree, hframe⟩

end Machine
end Pager
