import Pager.Proofs.Ageing
import Pager.Proofs.Cells
import Pager.Proofs.OutlineTransfers

/-!
Twins: two machines of one outline that hold the same wherever it may be seen. What the
spaces of a set hold in anonymous pages is hidden; all other pages, and the pages of files
even there, hold the same bytes in both. Moves that bring bytes to no page keep machines
twins, as long as they lead to one outline. A page keeps its bytes through such moves, or
it ends up without frame and slot, where only its kind tells what it holds.
-/
namespace Pager

open Function

namespace Label

/-- Bytes come from the page's own backing or from a process. -/
def Loads (pl : Place) : Label → Prop
  | populate other | store other _ _ => other = pl
  | _ => False

/-- Bytes come to the page at a place. -/
def Brings (pl : Place) (l : Label) : Prop := l.Loads pl ∨ l = .seat pl

/-- Bytes come to no page. -/
def Still (l : Label) : Prop := ∀ pl, ¬ l.Brings pl

end Label

/-- If the page waits for an initializer, that takes no notice of what the frame held before. -/
def Page.Oblivious (p : Page) : Prop := ∀ u, p.kind = .unpopulated u → u.initializer.Oblivious

/-- The page at a place, if there is one, has neither a frame nor a slot. -/
def Machine.Bare (s : Machine) (pl : Place) : Prop :=
  ∀ p, Pager.pageAt s.spaces pl = some p → p.frame = none ∧ p.slot = none

section

variable {m n : Moment} {l : Label} {pl : Place} {p q : Page} {f : FrameId}
  {kinds : Label → Prop}

theorem Move.type_of_seat (hmove : Move (.seat pl) m n)
    (hq : pageAt n.machine.spaces pl = some q) : q.type = .anonymous := by
  cases hmove with
  | seat _ hs _ _ hkind =>
    rw [Coherent.pageAt_put hs _ rfl, update_self] at hq
    cases hq
    rw [Page.type, hkind]

/-- A page of a file that lies in a frame has lain there with the same bytes for as long as nothing
was loaded into it. -/
theorem Coherent.resident_since (h : Coherent m) (hmoves : Moves kinds m n)
    (hkinds : ∀ l, kinds l → ¬ l.Loads pl) (hq : pageAt n.machine.spaces pl = some q)
    (hf : q.frame = some f) (htype : q.type = .fileBacked) :
    pageAt m.machine.spaces pl = some q ∧ n.machine.frameBytes f = m.machine.frameBytes f := by
  refine h.preserves (P := fun n => pageAt n.machine.spaces pl = some q →
    pageAt m.machine.spaces pl = some q ∧ n.machine.frameBytes f = m.machine.frameBytes f)
    hmoves ?_ (fun hq => ⟨hq, rfl⟩) hq
  intro l u v hl hu ih hmove hq
  have hloads := hkinds l hl
  rcases hu.resident_before hmove hq hf with (rfl | rfl) | hp
  · exact absurd rfl hloads
  · cases (hmove.type_of_seat hq).symm.trans htype
  · obtain ⟨hpage, hbytes⟩ := ih hp
    refine ⟨hpage, Eq.trans (hu.frameBytes_kept hmove hp hf ?_) hbytes⟩
    rintro start bytes rfl
    exact hloads rfl

/-- A page without frame and slot gets one only if bytes are brought to it. -/
theorem Coherent.bare_after (h : Coherent m) (hmove : Move l m n) (hbare : m.machine.Bare pl)
    (hl : ¬ l.Brings pl) : n.machine.Bare pl := by
  intro q hq
  have hpage := h.becomes hmove pl
  rw [hq] at hpage
  generalize hp : pageAt m.machine.spaces pl = page at hpage
  cases hpage with
  | still => exact hbare q hp
  | @ages p _ _ hseated hparked =>
    obtain ⟨hframe, hslot⟩ := hbare p hp
    constructor
    · rcases hseated with hseated | rfl | rfl
      · exact hseated
      · exact absurd (.inl rfl) hl
      · exact absurd (.inr rfl) hl
    · rcases hparked with hparked | hparked | rfl
      · exact hparked
      · exact hparked.trans hslot
      · cases hmove with
        | evict hf ho hs hpage =>
          have hres := h.resident_of_owner hf ho hs hpage
          cases hp.symm.trans (Coherent.pageAt_eq hs hpage)
          cases hframe.symm.trans hres
  | enters _ habs hslot => exact ⟨habs, hslot⟩

/-- A cell stays as it is, or its page ends up without frame and slot. -/
theorem Coherent.flat_or_bare (h : Coherent m) (hmove : Move l m n) (hl : ¬ l.Brings pl) :
    n.machine.flat pl = m.machine.flat pl ∨ n.machine.Bare pl := by
  by_cases hplace : l.place? = some pl
  · refine .inr fun q hq => ?_
    have hpage := h.becomes hmove pl
    cases hmove with
    | lose hf hs hp habs hfill =>
      cases hplace
      rw [Coherent.pageAt_put hs _ rfl, update_self] at hq
      cases hq
      have hlen := h.length_frame hf
      rcases Transfer.populate_eq_ok h.swap hlen hfill with ⟨-, ht⟩ | ⟨e, he, -⟩
      · obtain ⟨hsame, -, hslot, -⟩ := ht.spec h.swap hlen
        exact ⟨hsame.frame.trans habs, hslot⟩
      · cases he
    | unseat hf hs hp hres =>
      cases hplace
      rw [Coherent.pageAt_put hs _ rfl, update_self] at hq
      cases hq
      exact ⟨rfl, (h.linked.ready (Coherent.pageAt_eq hs hp) hres).2⟩
    | register hs hvacant _ _ habs hslot =>
      cases hplace
      rw [Coherent.pageAt_put hs _ rfl, update_self] at hq
      cases hq
      exact ⟨habs, hslot⟩
    | remove hs =>
      cases hplace
      rw [Coherent.pageAt_erase hs rfl, update_self] at hq
      cases hq
    | populate | store =>
      cases hplace
      exact absurd (.inl rfl) hl
    | seat =>
      cases hplace
      exact absurd (.inr rfl) hl
    | _ => cases hplace
  · exact .inl (h.flat_elsewhere hmove hplace)

theorem Coherent.flat_or_bare_moves (h : Coherent m) (hmoves : Moves kinds m n)
    (hkinds : ∀ l, kinds l → ¬ l.Brings pl) :
    n.machine.flat pl = m.machine.flat pl ∨ n.machine.Bare pl := by
  refine h.preserves (P := fun n => n.machine.flat pl = m.machine.flat pl ∨ n.machine.Bare pl)
    hmoves ?_ (.inl rfl)
  rintro l u v hl hu (hflat | hbare) hmove
  · rcases hu.flat_or_bare hmove (hkinds l hl) with hstays | hbare
    · exact .inl (hstays.trans hflat)
    · exact .inr hbare
  · exact .inr (hu.bare_after hmove hbare (hkinds l hl))

end

namespace Machine

/-- No page waits for an initializer that takes notice of what its frame held before. -/
def Oblivious (s : Machine) : Prop := ∀ pl p, Pager.pageAt s.spaces pl = some p → p.Oblivious

/-- The page at a place holds the same in both machines, if its space is not hidden or it is a
page of a file. -/
structure Matching (hidden : SpaceId → Prop) (s s' : Machine) (pl : Place) : Prop where
  flat : ¬ hidden pl.space → s'.flat pl = s.flat pl
  filed : ∀ {p f}, Pager.pageAt s.spaces pl = some p → p.type = .fileBacked → p.frame = some f →
    s'.frameBytes f = s.frameBytes f

structure Twins (hidden : SpaceId → Prop) (s s' : Machine) : Prop where
  coherent : Coherent ⟨s, none⟩
  coherent' : Coherent ⟨s', none⟩
  alike : s'.outline = s.outline
  oblivious : s.Oblivious
  matching : ∀ pl, Matching hidden s s' pl

variable {hidden : SpaceId → Prop} {s s' t t' : Machine} {held : Option FrameId} {pl : Place}
  {p : Page} {f : FrameId} {kinds kinds' : Label → Prop}

/-- Where a page has neither frame nor slot, the outline tells what it holds. -/
theorem flat_of_bare (halike : t'.outline = t.outline) (hbare : t.Bare pl) :
    t'.flat pl = t.flat pl := by
  have hspaces := spaces_of_alike halike
  cases hp : Pager.pageAt t.spaces pl with
  | none => rw [flat_of_none hp, flat_of_none (hspaces ▸ hp)]
  | some p =>
    obtain ⟨hframe, hslot⟩ := hbare p hp
    rw [flat_of_page hp, flat_of_page (hspaces ▸ hp)]
    refine cell_congr (fun f hf => ?_) fun n hn => ?_
    · cases hframe.symm.trans hf
    · cases hslot.symm.trans hn

theorem Bare.of_alike (h : t.Bare pl) (halike : t'.outline = t.outline) : t'.Bare pl := by
  intro p hp
  rw [spaces_of_alike halike] at hp
  exact h p hp

/-- Pages wait for the initializers that they were registered with. -/
theorem Oblivious.after {m n : Moment} (hobl : m.machine.Oblivious) (h : Coherent m)
    (hmoves : Moves kinds m n) (hkinds : ∀ pl p, kinds (.register pl p) → p.Oblivious) :
    n.machine.Oblivious := by
  refine h.preserves (P := fun n => n.machine.Oblivious) hmoves ?_ hobl
  intro l u v hl hu ih hmove pl q hq
  rcases hu.page_before hmove hq with rfl | ⟨p, hp, hages⟩
  · exact hkinds pl q hl
  · exact fun w hw => ih pl p hp w (hages.waits w hw)

namespace Twins

/-- What a page holds that may be seen. -/
theorem frameBytes_eq (h : Twins hidden s s') (hp : Pager.pageAt s.spaces pl = some p)
    (hf : p.frame = some f) (hseen : ¬ hidden pl.space ∨ p.type = .fileBacked) :
    s'.frameBytes f = s.frameBytes f := by
  by_cases htype : p.type = .fileBacked
  · exact (h.matching pl).filed hp htype hf
  · have hflat := (h.matching pl).flat (hseen.resolve_right htype)
    have hp' : Pager.pageAt s'.spaces pl = some p := spaces_of_alike h.alike ▸ hp
    rcases h.coherent.flat_resident hp hf with ⟨-, hfile⟩ | hbytes
    · exact absurd hfile htype
    · rcases h.coherent'.flat_resident hp' hf with ⟨-, hfile⟩ | hbytes'
      · exact absurd hfile htype
      · rw [hbytes, hbytes'] at hflat
        exact Cell.holding.inj (Option.some.inj hflat)

theorem bytesAt_eq (h : Twins hidden s s') {fr : Frame} (hp : Pager.pageAt s.spaces pl = some p)
    (hf : p.frame = some f) (hfr : s.frames.get? f = some fr)
    (hseen : ¬ hidden pl.space ∨ p.type = .fileBacked) :
    s'.pool.bytesAt fr.address = s.pool.bytesAt fr.address := by
  have hfr' : s'.frames.get? f = some fr := frames_of_alike h.alike ▸ hfr
  rw [← frameBytes_of_get? hfr, ← frameBytes_of_get? hfr', h.frameBytes_eq hp hf hseen]

theorem mono (h : Twins hidden s s') {more : SpaceId → Prop} (hmore : ∀ id, hidden id → more id) :
    Twins more s s' where
  coherent := h.coherent
  coherent' := h.coherent'
  alike := h.alike
  oblivious := h.oblivious
  matching pl := ⟨fun hseen => (h.matching pl).flat fun hid => hseen (hmore _ hid),
    (h.matching pl).filed⟩

theorem filed_of_moves (h : Twins hidden s s') (hmoves : Moves kinds ⟨s, none⟩ ⟨t, held⟩)
    (hmoves' : Moves kinds' ⟨s', none⟩ ⟨t', held⟩) (halike : t'.outline = t.outline)
    (hkinds : ∀ l, kinds l → ¬ l.Loads pl) (hkinds' : ∀ l, kinds' l → ¬ l.Loads pl)
    (hp : Pager.pageAt t.spaces pl = some p) (htype : p.type = .fileBacked)
    (hf : p.frame = some f) : t'.frameBytes f = t.frameBytes f := by
  have hp' : Pager.pageAt t'.spaces pl = some p := spaces_of_alike halike ▸ hp
  obtain ⟨hbefore, hbytes⟩ := h.coherent.resident_since hmoves hkinds hp hf htype
  obtain ⟨-, hbytes'⟩ := h.coherent'.resident_since hmoves' hkinds' hp' hf htype
  rw [hbytes, hbytes', (h.matching pl).filed hbefore htype hf]

/-- A page to which no bytes are brought still matches. -/
theorem matching_of_moves (h : Twins hidden s s') (hmoves : Moves kinds ⟨s, none⟩ ⟨t, held⟩)
    (hmoves' : Moves kinds' ⟨s', none⟩ ⟨t', held⟩) (halike : t'.outline = t.outline)
    (hkinds : ∀ l, kinds l → ¬ l.Brings pl) (hkinds' : ∀ l, kinds' l → ¬ l.Brings pl) :
    Matching hidden t t' pl where
  flat hseen := by
    rcases h.coherent.flat_or_bare_moves hmoves hkinds with hflat | hbare
    · rcases h.coherent'.flat_or_bare_moves hmoves' hkinds' with hflat' | hbare'
      · rw [hflat, hflat', (h.matching pl).flat hseen]
      · exact flat_of_bare halike (hbare'.of_alike halike.symm)
    · exact flat_of_bare halike hbare
  filed := h.filed_of_moves hmoves hmoves' halike (fun l hl hloads => hkinds l hl (.inl hloads))
    fun l hl hloads => hkinds' l hl (.inl hloads)

/-- Moves that bring no bytes to any page keep machines twins. -/
theorem of_moves (h : Twins hidden s s') (hmoves : Moves kinds ⟨s, none⟩ ⟨t, none⟩)
    (hmoves' : Moves kinds' ⟨s', none⟩ ⟨t', none⟩) (halike : t'.outline = t.outline)
    (hkinds : ∀ l, kinds l → l.Still) (hkinds' : ∀ l, kinds' l → l.Still) (hobl : t.Oblivious) :
    Twins hidden t t' where
  coherent := h.coherent.moves hmoves
  coherent' := h.coherent'.moves hmoves'
  alike := halike
  oblivious := hobl
  matching pl := h.matching_of_moves hmoves hmoves' halike (fun l hl => hkinds l hl pl)
    fun l hl => hkinds' l hl pl

end Twins

end Machine

end Pager
