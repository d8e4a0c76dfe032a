import Pager.Proofs.Contents

/-!
The moves that a cell shows. Each changes the cell of one place: populating a
page runs its initializer if it still waits for that, storing lays bytes over
what the page holds, and registering and removing make cells come and go.
-/
namespace Pager

open Function

/-- Bytes are stored in a cell that holds some. -/
def Cell.overlay (start : Nat) (source : Bytes) : Cell → Cell
  | .waiting u => .waiting u
  | .holding bytes => .holding (bytes.overlay start source)

namespace Coherent

variable {s : Machine} {held : Option FrameId} {pl : Place} {p : Page} {f : FrameId} {fr : Frame}
  {sp : Space}

/-- What an anonymous page holds fills a page. -/
theorem length_contents (h : Coherent ⟨s, held⟩) (hp : pageAt s.spaces pl = some p) :
    (s.contents p).length = pageSize := by
  cases hf : p.frame with
  | some f =>
    obtain ⟨fr, -, hfr, -⟩ := h.linked.page_frame hp hf
    rw [Machine.contents_of_frame hf, Machine.frameBytes_of_get? hfr]
    exact h.length_frame hfr
  | none =>
    cases hn : p.slot with
    | some n =>
      rw [Machine.contents_of_slot hf hn]
      exact h.swap.length_stored (SwapTable.lt_of_isUsed (h.isUsed_of_slot hp hn))
    | none =>
      rw [Machine.contents_of_neither hf hn]
      exact Bytes.length_zeros pageSize

/-- A page that has a frame waits for nothing. -/
theorem flat_resident (h : Coherent ⟨s, held⟩) (hp : pageAt s.spaces pl = some p)
    (hf : p.frame = some f) :
    s.flat pl = none ∧ p.type = .fileBacked ∨ s.flat pl = some (.holding (s.frameBytes f)) := by
  rw [Machine.flat_of_page hp]
  have hinit := (h.linked.ready hp hf).1
  cases hk : p.kind with
  | unpopulated u => simp [Page.isInitialized, hk] at hinit
  | anonymous slot =>
    rw [Machine.cell_of_anonymous hk, Machine.contents_of_frame hf]
    exact .inr rfl
  | fileBacked file =>
    have htype : p.type = .fileBacked := by rw [Page.type, hk]
    exact .inl ⟨Machine.cell_of_fileBacked htype, htype⟩

/-- The bytes in a frame stay while frames change hands and other frames are stored to. -/
theorem cell_settled (h : Coherent ⟨s, some f⟩) (hf : s.frames.get? f = some fr) (after : Frame)
    (ha : after.address = fr.address) {bytes : Bytes} {pool : FramePool} {swap : SwapTable}
    (hw : s.pool.write fr.address 0 bytes = .ok pool) (hd : swap.disk = s.swap.disk)
    {files : FileStore} {spaces : Table Space} {other : Place} {q : Page}
    (hq : pageAt s.spaces other = some q) :
    Machine.cell { s with swap, files, pool, frames := s.frames.put f after, spaces } q =
      s.cell q := by
  have hwrite := h.frameBytes_write hf hw
  have hput := (h.write hw).frameBytes_put hf after ha
  refine Machine.cell_congr (fun g hg => ?_) fun n _ => ?_
  · refine (congrFun hput g).trans ?_
    rw [hwrite, update_of_ne (h.frame_ne hq hg (.inr rfl))]
  · exact congrFun (SwapTable.stored_of_disk_eq hd) n

/-- Filling a page and seating it in its frame. -/
theorem flat_fill (h : Coherent ⟨s, some f⟩) (hf : s.frames.get? f = some fr)
    (hs : s.spaces.get? pl.space = some sp) {t : Transfer}
    (ht : Transfer.Populated ⟨p, s.pool.bytesAt fr.address, s.swap, s.files, []⟩ t)
    {pool : FramePool} (hw : s.pool.write fr.address 0 t.frame = .ok pool)
    (directory : Directory .emulated) :
    Machine.flat { s with
      swap := t.swap
      files := t.files
      pool
      frames := s.frames.put f { fr with owner := some pl.owner }
      spaces := s.spaces.insert pl.space { sp with
        pages := ⟨sp.pages.pages.insert pl.key { t.page with frame := some f }⟩
        directory } } =
      update s.flat pl (if t.page.type = .fileBacked then none else some (.holding t.frame)) := by
  have hlen := h.length_frame hf
  obtain ⟨-, hinit, -, hframe, -, hswap⟩ := ht.spec h.swap hlen
  have hd : t.swap.disk = s.swap.disk := by
    rcases hswap with ⟨-, hsame⟩ | ⟨n, -, hrelease⟩
    · rw [hsame]
    · exact (SwapTable.release_spec h.swap hrelease).2.2.2
  have hpages := pageAt_put (u := { sp with
    pages := ⟨sp.pages.pages.insert pl.key { t.page with frame := some f }⟩
    directory }) hs { t.page with frame := some f } rfl
  refine (Machine.flat_update hpages fun other q _ hq => ?_).trans (congrArg _ ?_)
  · exact h.cell_settled hf { fr with owner := some pl.owner } rfl hw hd hq
  · rw [Option.bind_some]
    split
    · rename_i htype
      exact Machine.cell_of_fileBacked htype
    · rename_i htype
      have hput := (h.write hw).frameBytes_put hf { fr with owner := some pl.owner } rfl
      have hbytes : (s.frameBytes f).overlay 0 t.frame = t.frame := by
        rw [Machine.frameBytes_of_get? hf, Bytes.overlay_zero (hframe.trans hlen.symm)]
      cases hk : t.page.kind with
      | unpopulated u => simp [Page.isInitialized, hk] at hinit
      | fileBacked file => simp [Page.type, hk] at htype
      | anonymous slot =>
        refine Eq.trans (Machine.cell_of_anonymous hk) ?_
        refine congrArg some (congrArg Cell.holding ((congrFun hput f).trans ?_))
        rw [h.frameBytes_write hf hw, update_self, hbytes]

/-- A page that is populated holds what it held, unless it has waited for its initializer. -/
theorem flat_populate {m n : Moment} (h : Coherent m) (hmove : Move (.populate pl) m n) :
    n.machine.flat = m.machine.flat ∨
      ∃ u bytes, m.machine.flat pl = some (.waiting u) ∧ u.Fills m.machine.files bytes ∧
        n.machine.flat = update m.machine.flat pl (some (.holding bytes)) := by
  cases hmove with
  | @populate s _ f fr sp p t pool directory hf hs hp habs hfill hw hmap =>
    have hlen := h.length_frame hf
    have hpage := pageAt_eq hs hp
    obtain ⟨-, ht⟩ | ⟨e, he, -⟩ := Transfer.populate_eq_ok h.swap hlen hfill
    · have hflat := h.flat_fill hf hs ht hw (directory.set pl.address .dirty false)
      cases ht with
      | @first u filled kind hk hfills hkind =>
        have hcell : s.flat pl = if u.target = .anonymous then some (.waiting u) else none := by
          rw [Machine.flat_of_page hpage, Machine.cell, show p.kind = _ from hk]
        rcases Transfer.populated_kind hkind with ⟨htarget, rfl⟩ | ⟨htarget, file, -, rfl⟩
        · rw [if_pos htarget] at hcell
          exact .inr ⟨u, _, hcell, Transfer.fill_fills hlen hfills, hflat⟩
        · rw [if_neg (by simp [htarget])] at hcell
          refine .inl (hflat.trans ?_)
          rw [← hcell]
          exact update_eq_self ..
      | blank hk =>
        refine .inl (hflat.trans (update_eq_self_iff.2 ?_))
        have hk : p.kind = .anonymous none := hk
        have hslot : p.slot = none := by rw [Page.slot, hk]
        rw [Machine.flat_of_page hpage, Machine.cell_of_anonymous hk,
          Machine.contents_of_neither habs hslot, ← hlen]
        exact if_neg (by simp [Page.type, hk])
      | @back n swap hk hrelease =>
        refine .inl (hflat.trans (update_eq_self_iff.2 ?_))
        have hk : p.kind = .anonymous (some n) := hk
        have hslot : p.slot = some n := by rw [Page.slot, hk]
        rw [Machine.flat_of_page hpage, Machine.cell_of_anonymous hk,
          Machine.contents_of_slot habs hslot]
        exact if_neg (by simp [Page.type])
      | @reload file u hk hload =>
        refine .inl (hflat.trans (update_eq_self_iff.2 ?_))
        have hk : p.kind = .fileBacked file := hk
        have htype : p.type = .fileBacked := by rw [Page.type, hk]
        rw [Machine.flat_of_page hpage, Machine.cell_of_fileBacked htype,
          (Transfer.load_drafted hload).page]
        exact if_pos htype
    · cases he

/-- A page that gets the frame in hand holds what was in it. -/
theorem flat_seat {m n : Moment} (h : Coherent m) (hmove : Move (.seat pl) m n) :
    ∃ f, m.held = some f ∧
      n.machine.flat = update m.machine.flat pl (some (.holding (m.machine.frameBytes f))) := by
  cases hmove with
  | @seat s _ f fr sp p directory hf hs hp habs hk hmap =>
    refine ⟨f, rfl, ?_⟩
    have hput := h.frameBytes_put hf { fr with owner := some pl.owner } rfl
    have hpages := pageAt_put (u := { sp with
      pages := ⟨sp.pages.pages.insert pl.key { p with frame := some f }⟩
      directory }) hs { p with frame := some f } rfl
    refine (Machine.flat_update hpages fun other q _ hq => ?_).trans (congrArg _ ?_)
    · exact Machine.cell_congr (fun g _ => congrFun hput g) fun _ _ => rfl
    · refine Eq.trans (Machine.cell_of_anonymous hk) ?_
      exact congrArg some (congrArg Cell.holding (congrFun hput f))

theorem flat_unseat {m n : Moment} (h : Coherent m) (hmove : Move (.unseat pl p) m n) :
    ∃ c, n.machine.flat = update m.machine.flat pl c := by
  cases hmove with
  | @unseat s _ f fr sp _ hf hs hp hres =>
    have hput := h.frameBytes_put hf { fr with owner := none, pinned := false } rfl
    have hpages := pageAt_put (u := { sp with
      pages := ⟨sp.pages.pages.insert pl.key { p with frame := none }⟩
      directory := sp.directory.unmap pl.address }) hs { p with frame := none } rfl
    refine ⟨_, Machine.flat_update hpages fun other q _ hq => ?_⟩
    exact Machine.cell_congr (fun g _ => congrFun hput g) fun _ _ => rfl

/-- Storing changes the bytes of the page that the frame belongs to. -/
theorem flat_store {m n : Moment} {start : Nat} {bytes : Bytes} (h : Coherent m)
    (hmove : Move (.store pl start bytes) m n) :
    n.machine.flat =
      update m.machine.flat pl ((m.machine.flat pl).map (Cell.overlay start bytes)) := by
  cases hmove with
  | @store s _ f fr start bytes pool hf ho hw =>
    obtain ⟨p, hp, hres⟩ := h.linked.owner_page hf ho
    have hp : pageAt s.spaces pl = some p := hp
    have hwrite := h.frameBytes_write hf hw
    have hafter := h.write hw
    have hself : pageAt s.spaces = update (pageAt s.spaces) pl (some p) := by
      rw [← hp, update_eq_self]
    refine (Machine.flat_update (t := { s with pool }) hself fun other q hne hq => ?_).trans
      (congrArg _ ?_)
    · refine Machine.cell_congr (fun g hg => ?_) fun _ _ => rfl
      have hother : g ≠ f := fun e => hne (h.linked.place_unique hq hg hp (e ▸ hres))
      rw [hwrite, update_of_ne hother]
    · rw [← hp]
      rcases h.flat_resident hp hres with ⟨hnone, htype⟩ | hsome
      · rw [hnone, Option.map_none, hp]
        exact Machine.cell_of_fileBacked htype
      · rcases hafter.flat_resident hp hres with ⟨-, htype⟩ | hsome'
        · rw [Machine.flat_of_page hp, Machine.cell_of_fileBacked htype] at hsome
          cases hsome
        · rw [hsome]
          refine hsome'.trans ?_
          rw [hwrite, update_self]
          rfl

theorem flat_register {m n : Moment} {page : Page} (hmove : Move (.register pl page) m n) :
    n.machine.flat = update m.machine.flat pl (m.machine.cell page) := by
  cases hmove with
  | @register s _ _ sp _ hs =>
    have hpages := pageAt_put (u := { sp with
      pages := ⟨sp.pages.pages.insert pl.key page⟩ }) hs page rfl
    refine (Machine.flat_update hpages ?_).trans rfl
    exact fun _ _ _ _ => rfl

theorem flat_remove {m n : Moment} (h : Coherent m) (hmove : Move (.remove pl p) m n) :
    n.machine.flat = update m.machine.flat pl none := by
  cases hmove with
  | @remove s _ _ sp _ after swap hs hp habs hrel =>
    have hpages := pageAt_erase (u := { sp with
      pages := ⟨sp.pages.pages.erase pl.key⟩ }) hs rfl
    refine (Machine.flat_update hpages fun other q _ hq => ?_).trans rfl
    refine Machine.cell_congr (fun _ _ => rfl) fun n _ => ?_
    rcases Page.releaseSlot_eq_ok hrel with ⟨m, -, hrelease, -⟩ | ⟨-, rfl, -⟩
    · exact congrFun (SwapTable.stored_of_disk_eq (SwapTable.release_spec h.swap hrelease).2.2.2) n
    · rfl

theorem flat_lose {m n : Moment} (h : Coherent m) (hmove : Move (.lose pl) m n) :
    ∃ c, n.machine.flat = update m.machine.flat pl c := by
  cases hmove with
  | @lose s _ f fr sp p t pool e hf hs hp habs hfill hw =>
    have hlen := h.length_frame hf
    have hwrite := h.frameBytes_write hf hw
    have hpages := pageAt_put (u := { sp with
      pages := ⟨sp.pages.pages.insert pl.key t.page⟩ }) hs t.page rfl
    obtain ⟨-, ht⟩ | ⟨e, he, -⟩ := Transfer.populate_eq_ok h.swap hlen hfill
    · refine ⟨_, Machine.flat_update hpages fun other q _ hq =>
        Machine.cell_congr (fun g hg => ?_) fun n _ => ?_⟩
      · refine (congrFun hwrite g).trans ?_
        rw [update_of_ne (h.frame_ne hq hg (.inr rfl))]
      · obtain ⟨-, -, -, -, -, ⟨-, hsame⟩ | ⟨n', -, hrelease⟩⟩ := ht.spec h.swap hlen
        · exact congrArg (SwapTable.stored · n) hsame
        · have hd := (SwapTable.release_spec h.swap hrelease).2.2.2
          exact congrFun (SwapTable.stored_of_disk_eq hd) n
    · cases he

section Elsewhere

variable {m n : Moment}

theorem flat_elsewhere {l : Label} (h : Coherent m) (hmove : Move l m n)
    (hl : l.place? ≠ some pl) : n.machine.flat pl = m.machine.flat pl := by
  have hother : ∀ {other c}, n.machine.flat = update m.machine.flat other c → some other ≠ some pl →
      n.machine.flat pl = m.machine.flat pl := by
    intro other c hn hne
    rw [hn, update_of_ne fun e => hne (congrArg some e.symm)]
  cases l with
  | populate other =>
    rcases h.flat_populate hmove with hsame | ⟨_, _, -, -, hn⟩
    · rw [hsame]
    · exact hother hn hl
  | lose other =>
    obtain ⟨c, hn⟩ := h.flat_lose hmove
    exact hother hn hl
  | seat other =>
    obtain ⟨_, -, hn⟩ := h.flat_seat hmove
    exact hother hn hl
  | unseat other p =>
    obtain ⟨c, hn⟩ := h.flat_unseat hmove
    exact hother hn hl
  | store other start bytes => exact hother (h.flat_store hmove) hl
  | register other page => exact hother (flat_register hmove) hl
  | remove other p => exact hother (h.flat_remove hmove) hl
  | _ => rw [h.flat_still hmove rfl]

theorem flat_elsewhere_moves {kinds : Label → Prop} (h : Coherent m) (hmoves : Moves kinds m n)
    (hl : ∀ l, kinds l → l.place? ≠ some pl) : n.machine.flat pl = m.machine.flat pl :=
  h.keeps hmoves (·.machine.flat pl) fun hkind hm hmove => hm.flat_elsewhere hmove (hl _ hkind)

end Elsewhere

end Coherent
end Pager
