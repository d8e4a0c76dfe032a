import Pager.Proofs.Calls

/-!
What one move makes of the page at a place. A page is registered once and taken away
once. In between it keeps its type, and a page of a file keeps its slice of it, from the
time it waits for its initializer on. It gets dirty by being stored to and by nothing
else.
-/
namespace Pager

open Function

/-- The page has got on: its type is the old one, a page of a file still has its slice, no page
refers to a handle that it did not refer to before, and if it waits for its initializer, it has
waited for it. -/
structure Page.Ages (p q : Page) : Prop where
  type : q.type = p.type
  slice : p.type = .fileBacked →
    q.kind = p.kind ∨ ∃ u, p.kind = .unpopulated u ∧ u.populated = .ok q.kind
  keeps : ∀ handle, q.handle = some handle → p.handle = some handle
  waits : ∀ u, q.kind = .unpopulated u → p.kind = .unpopulated u

/-- A page of the same kind. -/
theorem Page.Ages.of_kind {p q : Page} (h : q.kind = p.kind) : p.Ages q where
  type := by rw [Page.type, Page.type, h]
  slice _ := .inl h
  keeps handle hq := by
    rw [Page.handle, h] at hq
    exact hq
  waits u hq := h.symm.trans hq

theorem Page.Ages.refl (p : Page) : p.Ages p := .of_kind rfl

/-- An anonymous page is populated. -/
theorem Page.Ages.of_anonymous {p q : Page} (hp : p.type = .anonymous) {slot : Option SwapSlot}
    (hq : q.kind = .anonymous slot) : p.Ages q := by
  refine ⟨?_, fun hfile => ?_, fun handle hhandle => ?_, fun u hu => ?_⟩
  · rw [hp, Page.type, hq]
  · rw [hp] at hfile
    cases hfile
  · rw [Page.handle, hq] at hhandle
    cases hhandle
  · cases hq.symm.trans hu

namespace Transfer

variable {t u : Transfer} {r : Except PagerError Unit}

theorem Populated.ages (h : Populated t u) (hs : t.swap.Sound) (hf : t.frame.length = pageSize) :
    t.page.Ages u.page := by
  have htype := (h.spec hs hf).1.type
  cases h with
  | @first page filled kind hk hfill hkind =>
    rcases populated_kind hkind with ⟨-, rfl⟩ | ⟨-, file, hfile, rfl⟩
    · refine ⟨htype, fun _ => .inr ⟨_, hk, hkind⟩, ?_, ?_⟩
      · rintro _ ⟨⟩
      · rintro _ ⟨⟩
    · refine ⟨htype, fun _ => .inr ⟨_, hk, hkind⟩, ?_, ?_⟩
      · rintro handle ⟨⟩
        rwa [Page.handle, hk]
      · rintro _ ⟨⟩
  | blank hk => exact .of_kind rfl
  | back hk => exact .of_anonymous (by rw [Page.type, hk]) rfl
  | reload hk hload => exact .of_kind (by rw [(load_drafted hload).page])

theorem Parting.ages (h : Parting t r u) : t.page.Ages u.page := by
  cases h with
  | parked hk => exact .of_anonymous (by rw [Page.type, hk]) rfl
  | _ => exact .refl _

end Transfer

/-- What becomes of the page at a place when a move is made. -/
inductive Becomes (pl : Place) (l : Label) : Option Page → Option Page → Prop
  | still (page : Option Page) : Becomes pl l page page
  | ages {p q : Page} (ages : p.Ages q)
      (seated : q.frame = none ∨ l = .populate pl ∨ l = .seat pl)
      (parked : q.slot = none ∨ q.slot = p.slot ∨ l = .evict pl) : Becomes pl l (some p) (some q)
  | enters {q : Page} (label : l = .register pl q) (absent : q.frame = none)
      (slotless : q.slot = none) : Becomes pl l none (some q)
  | leaves {p : Page} (label : l = .remove pl p) : Becomes pl l (some p) none

/-- A page is put in the place of another one. -/
theorem Becomes.of_put {pl other : Place} {l : Label} {s : Machine} {sp : Space} {p q : Page}
    (hs : s.spaces.get? other.space = some sp)
    (hp : sp.pages.pages.get? other.key = some p) {u : Space}
    (hu : u.pages = ⟨sp.pages.pages.insert other.key q⟩) (hages : p.Ages q)
    (hseated : q.frame = none ∨ l = .populate other ∨ l = .seat other)
    (hparked : q.slot = none ∨ q.slot = p.slot ∨ l = .evict other) :
    Becomes pl l (pageAt s.spaces pl) (pageAt (s.spaces.insert other.space u) pl) := by
  rw [Coherent.pageAt_put hs q hu]
  by_cases he : pl = other
  · rw [he, update_self, Coherent.pageAt_eq hs hp]
    exact .ages hages hseated hparked
  · rw [update_of_ne he]
    exact .still _

section

variable {m n : Moment} {l : Label} {pl : Place} {p q : Page}

theorem Coherent.becomes (h : Coherent m) (hmove : Move l m n) (pl : Place) :
    Becomes pl l (pageAt m.machine.spaces pl) (pageAt n.machine.spaces pl) := by
  cases hmove with
  | note | turn | take | giveBack | scribble | request | handles | outside | switch | pin | spare
  | attempt | store => exact .still _
  | mark hs | soil hs | adjust hs | number hs | record hs | unrecord hs =>
    rw [pageAt_insert_of_eq hs]
    · exact .still _
    · rfl
  | evict hf ho hs hp hout =>
    have hages := (Transfer.evict_eq_ok hout).ages
    exact .of_put hs hp rfl ⟨hages.type, hages.slice, hages.keeps, hages.waits⟩ (.inl rfl)
      (.inr (.inr rfl))
  | populate hf hs hp habs hfill =>
    have hlen := h.length_frame hf
    rcases Transfer.populate_eq_ok h.swap hlen hfill with ⟨-, ht⟩ | ⟨e, he, -⟩
    · have hages := ht.ages h.swap hlen
      exact .of_put hs hp rfl ⟨hages.type, hages.slice, hages.keeps, hages.waits⟩ (.inr (.inl rfl))
        (.inl (ht.spec h.swap hlen).2.2.1)
    · cases he
  | lose hf hs hp habs hfill =>
    have hlen := h.length_frame hf
    rcases Transfer.populate_eq_ok h.swap hlen hfill with ⟨-, ht⟩ | ⟨e, he, -⟩
    · have hframe := (ht.spec h.swap hlen).1.frame
      exact .of_put hs hp rfl (ht.ages h.swap hlen) (.inl (hframe.trans habs))
        (.inl (ht.spec h.swap hlen).2.2.1)
    · cases he
  | seat _ hs hp => exact .of_put hs hp rfl (.of_kind rfl) (.inr (.inr rfl)) (.inr (.inl rfl))
  | unseat _ hs hp => exact .of_put hs hp rfl (.of_kind rfl) (.inl rfl) (.inr (.inl rfl))
  | @register s _ other sp page hs hvacant _ _ habs hslot =>
    have hpages := Coherent.pageAt_put (u := { sp with
      pages := ⟨sp.pages.pages.insert other.key page⟩ }) hs page rfl
    show Becomes pl _ _ (pageAt (s.spaces.insert other.space _) pl)
    rw [hpages]
    by_cases he : pl = other
    · subst he
      rw [update_self, show pageAt s.spaces pl = none from (pageAt_of_get? hs _).trans hvacant]
      exact .enters rfl habs hslot
    · rw [update_of_ne he]
      exact .still _
  | @remove s _ other sp p _ _ hs hp =>
    have hpages := Coherent.pageAt_erase (u := { sp with
      pages := ⟨sp.pages.pages.erase other.key⟩ }) hs rfl
    show Becomes pl _ _ (pageAt (s.spaces.insert other.space _) pl)
    rw [hpages]
    by_cases he : pl = other
    · subst he
      rw [update_self, Coherent.pageAt_eq hs hp]
      exact .leaves rfl
    · rw [update_of_ne he]
      exact .still _
  | create =>
    rw [pageAt_insert_new (h.fresh _ (Nat.le_refl _))]
    exact .still _
  | drop hs hempty =>
    rw [pageAt_erase_empty hs hempty]
    exact .still _

/-- A page that is registered after a move was so before, unless the move registers it. -/
theorem Coherent.page_before (h : Coherent m) (hmove : Move l m n)
    (hq : pageAt n.machine.spaces pl = some q) :
    l = .register pl q ∨ ∃ p, pageAt m.machine.spaces pl = some p ∧ p.Ages q := by
  have hpage := h.becomes hmove pl
  rw [hq] at hpage
  generalize pageAt m.machine.spaces pl = page at *
  cases hpage with
  | still => exact .inr ⟨q, rfl, .refl q⟩
  | ages hages => exact .inr ⟨_, rfl, hages⟩
  | enters hl => exact .inl hl

/-- A page that is registered before a move is so afterwards, unless the move takes it away. -/
theorem Coherent.page_after (h : Coherent m) (hmove : Move l m n)
    (hp : pageAt m.machine.spaces pl = some p) :
    l = .remove pl p ∨ ∃ q, pageAt n.machine.spaces pl = some q ∧ p.Ages q := by
  have hpage := h.becomes hmove pl
  rw [hp] at hpage
  generalize pageAt n.machine.spaces pl = page at *
  cases hpage with
  | still => exact .inr ⟨p, rfl, .refl p⟩
  | ages hages => exact .inr ⟨_, rfl, hages⟩
  | leaves hl => exact .inl hl

/-- A page that is registered before and after a move is the same page. -/
theorem Coherent.ages (h : Coherent m) (hmove : Move l m n)
    (hp : pageAt m.machine.spaces pl = some p) (hq : pageAt n.machine.spaces pl = some q) :
    p.Ages q := by
  have hpage := h.becomes hmove pl
  rw [hp, hq] at hpage
  cases hpage with
  | still => exact .refl p
  | ages hages => exact hages

/-- What no move loses as long as the page is there: moves that do not both bring a page and take
it away leave the page with it, or one of them takes away a page that has it. -/
theorem Coherent.lasts {kinds : Label → Prop} {R : Moment → Page → Prop} (h : Coherent m)
    (hmoves : Moves kinds m n)
    (hapart : ∀ page p, kinds (.register pl page) → ¬ kinds (.remove pl p))
    (hstep : ∀ {l o o' p q}, kinds l → Coherent o → Move l o o' →
      pageAt o.machine.spaces pl = some p → pageAt o'.machine.spaces pl = some q → R o p → R o' q)
    (hp : pageAt m.machine.spaces pl = some p) (hm : R m p) :
    (∃ q, pageAt n.machine.spaces pl = some q ∧ R n q) ∨
      pageAt n.machine.spaces pl = none ∧
        ∃ o q, Coherent o ∧ pageAt o.machine.spaces pl = some q ∧ R o q ∧ kinds (.remove pl q) := by
  refine h.preserves (P := fun n => (∃ q, pageAt n.machine.spaces pl = some q ∧ R n q) ∨
    pageAt n.machine.spaces pl = none ∧
      ∃ o q, Coherent o ∧ pageAt o.machine.spaces pl = some q ∧ R o q ∧ kinds (.remove pl q))
    hmoves ?_ (.inl ⟨p, hp, hm⟩)
  intro l o o' hl ho hcase hmove
  cases hq : pageAt o'.machine.spaces pl with
  | some q =>
    rcases hcase with ⟨p, hp, hholds⟩ | ⟨hnone, -, p, -, -, -, hremoves⟩
    · exact .inl ⟨q, rfl, hstep hl ho hmove hp hq hholds⟩
    · rcases ho.page_before hmove hq with rfl | ⟨p, hp, -⟩
      · exact absurd hremoves (hapart q p hl)
      · cases hnone.symm.trans hp
  | none =>
    refine .inr ⟨rfl, ?_⟩
    rcases hcase with ⟨p, hp, hholds⟩ | ⟨-, hremoved⟩
    · rcases ho.page_after hmove hp with rfl | ⟨q, hq', -⟩
      · exact ⟨o, p, ho, hp, hholds, hl⟩
      · cases hq.symm.trans hq'
    · exact hremoved

/-- A page that lies in a frame did so before, unless the move puts it there. -/
theorem Coherent.resident_before {f : FrameId} (h : Coherent m) (hmove : Move l m n)
    (hq : pageAt n.machine.spaces pl = some q) (hf : q.frame = some f) :
    (l = .populate pl ∨ l = .seat pl) ∨ pageAt m.machine.spaces pl = some q := by
  have hpage := h.becomes hmove pl
  rw [hq] at hpage
  generalize pageAt m.machine.spaces pl = page at *
  cases hpage with
  | still => exact .inr rfl
  | ages _ hseated =>
    rw [hf] at hseated
    exact .inl (hseated.resolve_left (by simp))
  | enters _ habs =>
    rw [hf] at habs
    cases habs

end

/-- The directory says that the page at a place was stored to. -/
def Machine.Dirty (s : Machine) (pl : Place) : Prop :=
  ∃ e, Pager.entryAt s.spaces pl = some e ∧ e.flags.has .dirty = true

section

variable {m n : Moment} {l : Label} {pl : Place} {file : FileBacking} {bytes : Bytes}

/-- A page becomes dirty when it is stored to. -/
theorem Coherent.dirty_before (h : Coherent m) (hmove : Move l m n) (hd : n.machine.Dirty pl) :
    m.machine.Dirty pl ∨ l = .soil pl ∨ l = .seat pl := by
  obtain ⟨e, he, hdirty⟩ := hd
  cases hmove with
  | note | turn | take | giveBack | scribble | request | handles | outside | switch | pin | spare
  | attempt | store => exact .inl ⟨e, he, hdirty⟩
  | adjust hs | number hs | record hs | unrecord hs | register hs | remove hs | lose _ hs =>
    refine .inl ⟨e, Eq.trans (congrFun (entryAt_insert_of_eq hs ?_) pl).symm he, hdirty⟩
    rfl
  | @mark s held id sp hs a flag up _ _ hflag =>
    by_cases hself : pl = ⟨id, a.value⟩
    · subst hself
      have he : (sp.directory.set a flag up).entries.get? a.value = some e :=
        (entryAt_insert_self _ ⟨id, a.value⟩ _).symm.trans he
      rw [Directory.set, Table.get?_modify, if_pos rfl] at he
      obtain ⟨e', he', rfl⟩ := Option.map_eq_some_iff.1 he
      rw [PageEntry.has_flags_setFlags, PageFlags.has_set, if_neg (Ne.symm hflag)] at hdirty
      exact .inl ⟨e', (entryAt_of_get? hs _).trans he', hdirty⟩
    · have hs : s.spaces.get? (Place.mk id a.value).space = some sp := hs
      refine .inl ⟨e, (entryAt_elsewhere hs (Ne.symm hself) fun key hkey => ?_).symm.trans he, hdirty⟩
      exact (Table.get?_modify ..).trans (if_neg hkey)
  | @soil s held other sp hs =>
    by_cases hself : other = pl
    · exact .inr (.inl (by rw [hself]))
    · refine .inl ⟨e, (entryAt_elsewhere hs hself fun key hkey => ?_).symm.trans he, hdirty⟩
      exact (Table.get?_modify ..).trans (if_neg hkey)
  | @evict s other _ _ sp _ _ _ _ hs | @unseat s other _ _ sp _ _ hs =>
    by_cases hself : other = pl
    · subst hself
      have he : (sp.directory.unmap other.address).entries.get? other.key = some e :=
        (entryAt_insert_self _ other _).symm.trans he
      rw [Directory.unmap, Table.get?_erase] at he
      cases he.symm.trans (if_pos rfl)
    · refine .inl ⟨e, (entryAt_elsewhere hs hself fun key hkey => ?_).symm.trans he, hdirty⟩
      exact (Table.get?_erase ..).trans (if_neg hkey)
  | @populate s other _ _ _ _ _ _ directory _ hs hq habs _ _ hmap =>
    by_cases hself : other = pl
    · subst hself
      have he : (directory.set other.address .dirty false).entries.get? other.key = some e :=
        (entryAt_insert_self _ other _).symm.trans he
      rw [Directory.set, Table.get?_modify] at he
      obtain ⟨e', -, rfl⟩ := Option.map_eq_some_iff.1 ((if_pos rfl).symm.trans he)
      rw [PageEntry.has_flags_setFlags, PageFlags.has_set, if_pos rfl] at hdirty
      cases hdirty
    · obtain ⟨-, e', -, rfl⟩ := Directory.map_eq_ok.1 hmap
      refine .inl ⟨e, (entryAt_elsewhere hs hself fun key hkey => ?_).symm.trans he, hdirty⟩
      refine (Table.get?_modify ..).trans ((if_neg hkey).trans ?_)
      exact (Table.get?_insert ..).trans (if_neg hkey)
  | @seat s other _ _ _ _ _ _ hs _ _ _ hmap =>
    obtain ⟨-, e', -, rfl⟩ := Directory.map_eq_ok.1 hmap
    by_cases hself : other = pl
    · exact .inr (.inr (by rw [hself]))
    · refine .inl ⟨e, (entryAt_elsewhere hs hself fun key hkey => ?_).symm.trans he, hdirty⟩
      exact (Table.get?_insert ..).trans (if_neg hkey)
  | create =>
    refine .inl ⟨e, ?_, hdirty⟩
    exact (congrFun (entryAt_insert_new (h.fresh _ (Nat.le_refl _))) pl).symm.trans he
  | @drop s held id sp hs hempty =>
    have he : entryAt (s.spaces.erase id) pl = some e := he
    rw [entryAt, Table.get?_erase] at he
    by_cases hspace : pl.space = id
    · rw [if_pos hspace] at he
      cases he
    · rw [if_neg hspace] at he
      exact .inl ⟨e, he, hdirty⟩

theorem Machine.Soiled.dirty {s : Machine} (h : s.Soiled pl file bytes) : s.Dirty pl := by
  obtain ⟨_, _, e, _, _, _, he, hd, _⟩ := h
  exact ⟨e, he, hd⟩

/-- A dirty page lies in a frame. -/
theorem Coherent.resident_of_dirty (h : Coherent m) (hd : m.machine.Dirty pl) :
    ∃ p f, pageAt m.machine.spaces pl = some p ∧ p.frame = some f := by
  obtain ⟨e, he, -⟩ := hd
  exact h.linked.entry_page he

theorem Coherent.not_dirty_of_absent {p : Page} (h : Coherent m)
    (hp : pageAt m.machine.spaces pl = some p) (habs : p.frame = none) : ¬ m.machine.Dirty pl := by
  intro hd
  obtain ⟨q, f, hq, hf⟩ := h.resident_of_dirty hd
  cases hp.symm.trans hq
  cases habs.symm.trans hf

/-- A part of a file that was stored to was so before, unless this is when its page is marked. -/
theorem Coherent.soiled_before (h : Coherent m) (hmove : Move l m n)
    (hs : n.machine.Soiled pl file bytes) (hl : l ≠ .soil pl) :
    ∃ bytes', m.machine.Soiled pl file bytes' := by
  obtain ⟨q, f, e, hq, hk, hf, he, hd, -⟩ := hs
  have hseat : l ≠ .seat pl := by
    rintro rfl
    cases hmove with
    | seat _ hs hp _ hkind =>
      rw [Coherent.pageAt_put hs _ rfl, update_self] at hq
      cases hq
      cases hkind.symm.trans hk
  rcases h.dirty_before hmove ⟨e, he, hd⟩ with ⟨e', he', hd'⟩ | hl' | hl'
  · rcases h.resident_before hmove hq hf with (rfl | hl') | hp
    · obtain ⟨p, g, hp, hg⟩ := h.resident_of_dirty ⟨e', he', hd'⟩
      cases hmove with
      | populate _ hs hpage habs =>
        have hp := hp
        rw [Coherent.pageAt_eq hs hpage] at hp
        cases hp
        rw [habs] at hg
        cases hg
    · exact absurd hl' hseat
    · exact ⟨_, q, f, e', hp, hk, hf, he', hd', rfl⟩
  · exact absurd hl' hl
  · exact absurd hl' hseat

end

end Pager
