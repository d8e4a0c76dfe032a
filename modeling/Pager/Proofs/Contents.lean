import Pager.Proofs.Coherence
import Pager.Proofs.Filling

/-!
Anonymous memory as processes see it: a cell for each place, which is either
still waiting for its initializer or holds bytes. Where the bytes are kept, in a
frame, in a swap slot or nowhere because they are all zero, cannot be seen in a
cell, so a move that only carries contents from one of these to another leaves
every cell as it was.
-/
namespace Pager

open Function

inductive Cell where
  /-- Nothing has touched the page yet. -/
  | waiting (page : Unpopulated)
  | holding (bytes : Bytes)

/-- Anonymous memory, place by place. -/
abbrev Flat := Place → Option Cell

namespace Machine

/-- What the frame of a page holds. -/
def frameBytes (s : Machine) (f : FrameId) : Bytes :=
  (s.frames.get? f).elim [] fun fr => s.pool.bytesAt fr.address

/-- What a populated anonymous page holds. -/
def contents (s : Machine) (p : Page) : Bytes :=
  match p.frame, p.slot with
  | some f, _ => s.frameBytes f
  | none, some slot => s.swap.stored slot
  | none, none => .zeros pageSize

def cell (s : Machine) (p : Page) : Option Cell :=
  match p.kind with
  | .unpopulated u => if u.target = .anonymous then some (.waiting u) else none
  | .anonymous _ => some (.holding (s.contents p))
  | .fileBacked _ => none

def flat (s : Machine) : Flat := fun pl => (Pager.pageAt s.spaces pl).bind s.cell

variable {s t : Machine} {held : Option FrameId} {pl : Place} {p : Page} {f : FrameId} {fr : Frame}
  {sp : Space} {bytes : Bytes}

theorem frameBytes_of_get? (hf : s.frames.get? f = some fr) :
    s.frameBytes f = s.pool.bytesAt fr.address := by
  rw [frameBytes, hf, Option.elim_some]

theorem contents_of_frame (hf : p.frame = some f) : s.contents p = s.frameBytes f := by
  rw [contents, hf]

theorem contents_of_slot {n : SwapSlot} (hf : p.frame = none) (hn : p.slot = some n) :
    s.contents p = s.swap.stored n := by
  rw [contents, hf, hn]

theorem contents_of_neither (hf : p.frame = none) (hn : p.slot = none) :
    s.contents p = .zeros pageSize := by
  rw [contents, hf, hn]

theorem cell_of_fileBacked (h : p.type = .fileBacked) : s.cell p = none := by
  unfold cell
  cases hk : p.kind with
  | unpopulated u =>
    have hu : u.target = .fileBacked := by simpa [Page.type, hk] using h
    simp [hu]
  | anonymous slot => simp [Page.type, hk] at h
  | fileBacked file => rfl

theorem contents_of_cell (h : s.cell p = some (.holding bytes)) : s.contents p = bytes := by
  unfold cell at h
  cases hk : p.kind with
  | unpopulated u =>
    rw [hk] at h
    dsimp only at h
    split at h <;> cases h
  | anonymous slot =>
    rw [hk] at h
    cases h
    rfl
  | fileBacked file =>
    rw [hk] at h
    cases h

theorem cell_of_anonymous {slot : Option SwapSlot} (h : p.kind = .anonymous slot) :
    s.cell p = some (.holding (s.contents p)) := by
  rw [cell, h]

/-- What a page holds is read from its frame, or else from its slot. -/
theorem cell_congr (hframe : ∀ f, p.frame = some f → t.frameBytes f = s.frameBytes f)
    (hslot : ∀ n, p.slot = some n → t.swap.stored n = s.swap.stored n) : t.cell p = s.cell p := by
  have hcontents : t.contents p = s.contents p := by
    unfold contents
    cases hf : p.frame with
    | some f => exact hframe f hf
    | none =>
      cases hn : p.slot with
      | some n => exact hslot n hn
      | none => rfl
  unfold cell
  rw [hcontents]

/-- Memory after a change of one page, if what the other pages refer to stays. -/
theorem flat_update {page : Option Page}
    (hpages : Pager.pageAt t.spaces = update (Pager.pageAt s.spaces) pl page)
    (hother : ∀ other p, other ≠ pl → Pager.pageAt s.spaces other = some p →
      t.cell p = s.cell p) : t.flat = update s.flat pl (page.bind t.cell) := by
  funext other
  unfold flat
  rw [hpages]
  by_cases he : other = pl
  · subst he
    rw [update_self, update_self]
  · rw [update_of_ne he, update_of_ne he]
    cases hp : Pager.pageAt s.spaces other with
    | none => rfl
    | some p => exact hother other p he hp

theorem flat_congr (hpages : Pager.pageAt t.spaces = Pager.pageAt s.spaces)
    (hsame : ∀ pl p, Pager.pageAt s.spaces pl = some p → t.cell p = s.cell p) :
    t.flat = s.flat := by
  funext pl
  unfold flat
  rw [hpages]
  cases hp : Pager.pageAt s.spaces pl with
  | none => rfl
  | some p => exact hsame pl p hp

theorem flat_of_page (hp : Pager.pageAt s.spaces pl = some p) : s.flat pl = s.cell p := by
  rw [flat, hp, Option.bind_some]

theorem flat_of_none (hp : Pager.pageAt s.spaces pl = none) : s.flat pl = none := by
  rw [flat, hp, Option.bind_none]

end Machine

namespace Coherent

variable {s t : Machine} {held : Option FrameId} {pl : Place} {p : Page} {f g : FrameId}
  {fr : Frame} {sp : Space} {bytes : Bytes}

/-- Storing in one frame leaves the bytes of the others. -/
theorem frameBytes_write (h : Coherent ⟨s, held⟩) (hf : s.frames.get? f = some fr) {start : Nat}
    {pool : FramePool} (hw : s.pool.write fr.address start bytes = .ok pool) :
    Machine.frameBytes { s with pool } =
      update s.frameBytes f ((s.frameBytes f).overlay start bytes) := by
  obtain ⟨hbytes, -, -⟩ := FramePool.write_spec h.pool hw
  funext g
  by_cases he : g = f
  · subst he
    obtain ⟨n, -, ha⟩ := h.backed.address_taken hf
    rw [update_self, Machine.frameBytes_of_get? hf,
      Machine.frameBytes_of_get? (s := { s with pool }) hf]
    rw [ha] at hbytes ⊢
    rw [hbytes, if_pos rfl]
  · rw [update_of_ne he]
    cases hg : s.frames.get? g with
    | none => simp [Machine.frameBytes, hg]
    | some gr =>
      obtain ⟨n, -, ha⟩ := h.backed.address_taken hg
      have hne : gr.address ≠ fr.address := fun e => he (h.backed.address_inj hg hf e)
      rw [Machine.frameBytes_of_get? hg, Machine.frameBytes_of_get? (s := { s with pool }) hg]
      rw [ha] at hne ⊢
      exact (hbytes n).trans (if_neg hne)

/-- The frame table may change all but the addresses of frames. -/
theorem frameBytes_put (h : Coherent ⟨s, held⟩) (hf : s.frames.get? f = some fr) (after : Frame)
    (ha : after.address = fr.address) :
    Machine.frameBytes { s with frames := s.frames.put f after } = s.frameBytes := by
  obtain ⟨hget, -⟩ := FrameTable.put_spec h.frames (by rw [hf]; rfl) after
  funext g
  show ((s.frames.put f after).get? g).elim [] _ = _
  rw [hget, Machine.frameBytes]
  by_cases he : g = f
  · subst he
    rw [update_self, hf, Option.elim_some, Option.elim_some, ha]
  · rw [update_of_ne he]

/-- A frame that backs no page may come and go. -/
theorem frame_ne (h : Coherent ⟨s, held⟩) (hp : pageAt s.spaces pl = some p)
    (hf : p.frame = some f) (hg : s.frames.get? g = none ∨ held = some g) : f ≠ g := by
  rcases hg with hg | hg
  · rintro rfl
    obtain ⟨fr, -, hfr, -⟩ := h.linked.page_frame hp hf
    rw [hg] at hfr
    cases hfr
  · exact h.linked.frame_ne_held hp hf hg

/-- The bytes of a page stay in its frame until they are stored over. -/
theorem frameBytes_kept {m n : Moment} {l : Label} (h : Coherent m) (hmove : Move l m n)
    (hp : pageAt m.machine.spaces pl = some p) (hf : p.frame = some f)
    (hl : ∀ start bytes, l ≠ .store pl start bytes) :
    n.machine.frameBytes f = m.machine.frameBytes f := by
  cases hmove with
  | note | request | handles | outside | switch | spare | attempt | mark | soil | adjust | register
  | remove | number | record | unrecord | create | drop => rfl
  | turn => simp only [Machine.frameBytes, FrameTable.get?_advance]
  | @take s address pool hfree =>
    obtain ⟨n, rfl, -, -, hcontents, -⟩ := FramePool.take?_spec h.pool hfree
    obtain ⟨hnone, hget, -⟩ := FrameTable.insert_spec h.frames (FramePool.addressOf n)
    have hne := h.frame_ne hp hf (.inl hnone)
    simp only [Machine.frameBytes, hget, update_of_ne hne, FramePool.bytesAt, hcontents]
  | giveBack hremove hback =>
    obtain ⟨-, hget, -⟩ := FrameTable.remove_spec h.frames hremove
    obtain ⟨n, -, -, -, hcontents, -⟩ := FramePool.giveBack_spec h.pool hback
    have hne := h.frame_ne hp hf (.inr rfl)
    simp only [Machine.frameBytes, hget, update_of_ne hne, FramePool.bytesAt, hcontents]
  | scribble hg hw | lose hg _ _ _ _ hw =>
    have hne := h.frame_ne hp hf (.inr rfl)
    refine (congrFun (h.frameBytes_write hg hw) f).trans ?_
    rw [update_of_ne hne]
  | pin hg | evict hg | seat hg | unseat hg =>
    refine congrFun (h.frameBytes_put hg _ ?_) f
    rfl
  | populate hg _ _ _ _ hw =>
    have hne := h.frame_ne hp hf (.inr rfl)
    refine Eq.trans (congrFun ((h.write hw).frameBytes_put hg _ ?_) f) ?_
    · rfl
    · rw [h.frameBytes_write hg hw, update_of_ne hne]
  | @store s other g _ _ _ _ hg ho hw =>
    obtain ⟨q, hq, hres⟩ := h.linked.owner_page hg ho
    have hne : f ≠ g := by
      rintro rfl
      have hplace : other = pl := h.linked.place_unique hq hres hp hf
      rw [hplace] at hl
      exact hl _ _ rfl
    refine (congrFun (h.frameBytes_write hg hw) f).trans ?_
    rw [update_of_ne hne]

theorem isUsed_of_slot (h : Coherent ⟨s, held⟩) (hp : pageAt s.spaces pl = some p)
    {n : SwapSlot} (hn : p.slot = some n) : s.swap.isUsed n = true := by
  refine (h.parked.used_iff n).2 ⟨pl, ?_⟩
  rw [slotsOf, hp, Option.bind_some, hn]

/-- Moving a page out carries its contents to the slot. -/
theorem flat_evict (h : Coherent ⟨s, none⟩) {t : Transfer} {dirty : Bool}
    (hf : s.frames.get? f = some fr) (ho : fr.owner = some pl.owner)
    (hs : s.spaces.get? pl.space = some sp) (hp : sp.pages.pages.get? pl.key = some p)
    (hout : Transfer.evict dirty ⟨p, s.pool.bytesAt fr.address, s.swap, s.files, []⟩ =
      .ok (.ok (), t)) :
    Machine.flat { s with
      swap := t.swap
      files := t.files
      frames := s.frames.put f { fr with owner := none, pinned := false }
      spaces := s.spaces.insert pl.space { sp with
        pages := ⟨sp.pages.pages.insert pl.key { t.page with frame := none }⟩
        directory := sp.directory.unmap pl.address } } = s.flat := by
  have hpage := pageAt_eq hs hp
  have hres := h.resident_of_owner hf ho hs hp
  have hput := h.frameBytes_put hf { fr with owner := none, pinned := false } rfl
  have hpages := pageAt_put (u := { sp with
    pages := ⟨sp.pages.pages.insert pl.key { t.page with frame := none }⟩
    directory := sp.directory.unmap pl.address }) hs { t.page with frame := none } rfl
  cases Transfer.evict_eq_ok hout with
  | @parked slot swap hkind hswap =>
    obtain ⟨-, hstored, hcase⟩ := SwapTable.swapOut_spec h.swap hswap
    rw [Machine.flat_update hpages ?_]
    · refine update_eq_self_iff.2 ?_
      rcases hcase with ⟨n, hn, -, -, hbytes⟩ | ⟨e, he, -⟩
      · cases hn
        rw [Machine.flat_of_page hpage, Machine.cell_of_anonymous hkind, Option.bind_some]
        refine congrArg some (congrArg Cell.holding ?_)
        show swap.stored slot = s.contents p
        rw [hbytes, Machine.contents_of_frame hres, Machine.frameBytes_of_get? hf]
      · cases he
    · intro other q _ hq
      refine Machine.cell_congr (fun g _ => congrFun hput g) fun n hn => ?_
      exact hstored n (h.isUsed_of_slot hq hn)
  | filed hkind =>
    refine (Machine.flat_update hpages ?_).trans (update_eq_self_iff.2 ?_)
    · intro other q _ _
      exact Machine.cell_congr (fun g _ => congrFun hput g) fun _ _ => rfl
    · have hkind : p.kind = _ := hkind
      have htype : p.type = .fileBacked := by rw [Page.type, hkind]
      rw [Machine.flat_of_page hpage, Machine.cell_of_fileBacked htype]
      exact Machine.cell_of_fileBacked htype

/-- A page that could not be moved out, and the slots of the others, stay as they were. -/
theorem flat_spare (h : Coherent ⟨s, held⟩) {t : Transfer} {dirty : Bool} {e : PagerError}
    (hout : Transfer.evict dirty ⟨p, bytes, s.swap, s.files, []⟩ = .ok (.error e, t)) :
    Machine.flat { s with swap := t.swap, files := t.files } = s.flat := by
  cases Transfer.evict_eq_ok hout with
  | kept hkind hswap =>
    obtain ⟨-, hstored, -⟩ := SwapTable.swapOut_spec h.swap hswap
    refine Machine.flat_congr rfl fun other q hq => Machine.cell_congr (fun _ _ => rfl) fun n hn => ?_
    exact hstored n (h.isUsed_of_slot hq hn)
  | filed => rfl

end Coherent

/-- The place whose cell a move may change. -/
def Label.place? : Label → Option Place
  | populate pl | lose pl | seat pl | unseat pl _ | store pl _ _ | register pl _ | remove pl _ =>
    some pl
  | _ => none

/-- A move that has no place leaves every cell as it was. -/
theorem Coherent.flat_still {m n : Moment} {l : Label} (h : Coherent m) (hmove : Move l m n)
    (hl : l.place? = none) : n.machine.flat = m.machine.flat := by
  have hmoved := hmove
  cases hmove with
  | note | request | handles | outside | switch | attempt => rfl
  | turn | take | giveBack | scribble | pin =>
    refine Machine.flat_congr rfl fun pl p hp =>
      Machine.cell_congr (fun f hf => ?_) fun _ _ => rfl
    exact h.frameBytes_kept hmoved hp hf fun _ _ he => by cases he
  | mark hs | soil hs | adjust hs | number hs | record hs | unrecord hs =>
    exact Machine.flat_congr (pageAt_insert_of_eq hs rfl) fun _ _ _ => rfl
  | evict hf ho hs hp hout => exact h.flat_evict hf ho hs hp hout
  | spare _ _ _ _ hout => exact h.flat_spare hout
  | create =>
    exact Machine.flat_congr (pageAt_insert_new (h.fresh _ (Nat.le_refl _))) fun _ _ _ => rfl
  | drop hs hempty => exact Machine.flat_congr (pageAt_erase_empty hs hempty) fun _ _ _ => rfl
  | populate | lose | seat | unseat | store | register | remove => cases hl

theorem Coherent.flat_still_moves {kinds : Label → Prop} {m n : Moment} (h : Coherent m)
    (hmoves : Moves kinds m n) (hl : ∀ l, kinds l → l.place? = none) :
    n.machine.flat = m.machine.flat :=
  h.keeps hmoves (·.machine.flat) fun hkind hm hmove => hm.flat_still hmove (hl _ hkind)

end Pager
