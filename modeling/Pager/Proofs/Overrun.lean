import Pager.Proofs.Paging
import Pager.Proofs.Roster

/-!
Bugs in the work on one page. Every check but one is met by a coherent machine: a page
may ask its file for more bytes than a frame holds, and moving the bytes of such a page
reaches past the end of the frame. A search for a frame or a claim that ends in a bug
has come upon such a page.
-/
namespace Pager

namespace FileStore

variable {store : FileStore} {b : Bug}

theorem readAt_ne_bug (handle : Handle) (count offset : Nat) :
    readAt handle count offset store ≠ .error b := by
  rw [readAt_eq]
  exact nofun

theorem writeAt_ne_bug (handle : Handle) (bytes : Bytes) (offset : Nat) :
    writeAt handle bytes offset store ≠ .error b := by
  rw [writeAt_eq]
  exact nofun

theorem reopen_ne_bug (handle : Handle) : reopen handle store ≠ .error b := by
  rw [reopen_eq]
  exact nofun

theorem hold_ne_bug (handle : Handle) : hold handle store ≠ .error b := by
  intro h
  unfold hold at h
  rcases Action.bind_eq_bug.1 h with hbug | ⟨opened, u, -, h⟩
  · exact reopen_ne_bug handle hbug
  · cases h

end FileStore

namespace Transfer

variable {t : Transfer} {b : Bug}

theorem onFiles_eq_bug {α : Type} {m : Action FileStore StoreError α} :
    onFiles m t = .error b ↔ m t.files = .error b := by
  rw [onFiles, Action.within_eq_bug, Action.mapError_eq_bug]

theorem load_eq_bug {file : Handle} {offset count : Nat} (h : load file offset count t = .error b) :
    b = .bounds ∧ t.frame.length < count := by
  unfold load at h
  rw [Action.get_bind] at h
  dsimp only at h
  split at h
  · rename_i hlt
    cases h
    exact ⟨rfl, hlt⟩
  · rcases Action.bind_eq_bug.1 h with hread | ⟨bytes, read, -, h⟩
    · exact (FileStore.readAt_ne_bug _ _ _ (onFiles_eq_bug.1 hread)).elim
    · rw [setFrame, Action.modify_bind] at h
      split at h
      · cases h
      · cases h

theorem initFrame_eq_bug {init : Initializer} {slice : LoadSlice}
    (h : initFrame init slice t = .error b) : b = .bounds ∧ t.frame.length < slice.readBytes := by
  unfold initFrame at h
  rw [Action.get_bind] at h
  cases init with
  | zeros => cases h
  | fileSlice =>
    dsimp only [loadSlice] at h
    cases hf : slice.file with
    | none =>
      rw [hf] at h
      cases h
    | some file =>
      rw [hf] at h
      exact load_eq_bug h
  | computed byteAt =>
    dsimp only at h
    cases hb : byteAt slice t.frame with
    | error e =>
      rw [hb] at h
      cases h
    | ok bytes =>
      rw [hb] at h
      cases h

theorem fill_eq_bug {init : Initializer} {slice : LoadSlice} (h : fill init slice t = .error b) :
    b = .bounds ∧ t.frame.length < slice.readBytes := by
  unfold fill at h
  rcases Action.attempt_bind_eq_bug.1 h with hinit | ⟨q, u, -, h⟩
  · exact initFrame_eq_bug hinit
  · cases q <;> cases h

theorem populate_eq_bug (hf : t.frame.length = pageSize)
    (hslot : ∀ n, t.page.slot = some n → t.swap.isUsed n = true) (h : populate t = .error b) :
    b = .bounds ∧ pageSize < t.page.readBytes := by
  unfold populate at h
  rw [Action.get_bind] at h
  cases hk : t.page.kind with
  | unpopulated page =>
    rw [hk] at h
    dsimp only at h
    rcases Action.bind_eq_bug.1 h with hfill | ⟨_, filled, -, h⟩
    · obtain ⟨hb, hlt⟩ := fill_eq_bug hfill
      rw [hf] at hlt
      exact ⟨hb, by rw [Page.readBytes, hk]; exact hlt⟩
    · obtain ⟨kind, -, h⟩ := Action.ofResult_bind_eq_bug.1 h
      cases h
  | anonymous slot =>
    rw [hk] at h
    cases slot with
    | none => cases h
    | some slot =>
      dsimp only at h
      rcases Action.bind_eq_bug.1 h with hin | ⟨⟨bytes, result⟩, read, -, h⟩
      · have hused : t.swap.isUsed slot = true := hslot slot (by simp only [Page.slot, hk])
        exact absurd (Action.within_eq_bug.1 hin) (SwapTable.swapIn_ne_bug hused hf)
      · dsimp only at h
        rw [setFrame, Action.modify_bind] at h
        obtain ⟨_, -, h⟩ := Action.ofResult_bind_eq_bug.1 h
        cases h
  | fileBacked file =>
    rw [hk] at h
    obtain ⟨hb, hlt⟩ := load_eq_bug h
    rw [hf] at hlt
    exact ⟨hb, by rw [Page.readBytes, hk]; exact hlt⟩

theorem writeBack_eq_bug {file : FileBacking} (h : writeBack file t = .error b) :
    b = .bounds ∧ t.frame.length < file.readBytes := by
  unfold writeBack at h
  rw [Action.get_bind] at h
  dsimp only at h
  split at h
  · rename_i hlt
    cases h
    exact ⟨rfl, hlt⟩
  · rcases Action.bind_eq_bug.1 h with hwrite | ⟨count, wrote, -, h⟩
    · exact (FileStore.writeAt_ne_bug _ _ _ (onFiles_eq_bug.1 hwrite)).elim
    · split at h
      · cases h
      · cases h

theorem evict_eq_bug {dirty : Bool} (hf : t.frame.length = pageSize)
    (hinit : t.page.isInitialized = true) (hslot : t.page.slot = none)
    (h : evict dirty t = .error b) : b = .bounds ∧ pageSize < t.page.readBytes := by
  unfold evict at h
  rw [Action.get_bind] at h
  cases hk : t.page.kind with
  | unpopulated page => simp [Page.isInitialized, hk] at hinit
  | anonymous slot =>
    rw [hk] at h
    cases slot with
    | some slot => simp [Page.slot, hk] at hslot
    | none =>
      dsimp only at h
      rcases Action.bind_eq_bug.1 h with hout | ⟨slot, out, -, h⟩
      · exact absurd (Action.within_eq_bug.1 hout) (SwapTable.swapOut_ne_bug hf)
      · cases h
  | fileBacked file =>
    rw [hk] at h
    dsimp only at h
    cases dirty with
    | false => cases h
    | true =>
      obtain ⟨hb, hlt⟩ := writeBack_eq_bug h
      rw [hf] at hlt
      exact ⟨hb, by rw [Page.readBytes, hk]; exact hlt⟩

/-- Filling the frame with the page or moving the page out of it is a bug. -/
def Breaks (t : Transfer) (b : Bug) : Prop :=
  populate t = .error b ∨ ∃ dirty, evict dirty t = .error b

end Transfer

/-- On the way the bytes of a page are moved that asks its file for more than a page holds, and
that is the bug. -/
def Overruns (kinds : Label → Prop) (m : Moment) (b : Bug) : Prop :=
  b = .bounds ∧ ∃ n pl p frame, Moves kinds m n ∧ pageAt n.machine.spaces pl = some p ∧
    pageSize < p.readBytes ∧ frame.length = pageSize ∧
      Transfer.Breaks ⟨p, frame, n.machine.swap, n.machine.files, []⟩ b

namespace Overruns

variable {kinds more : Label → Prop} {m n : Moment} {b : Bug}

theorem head (hmoves : Moves kinds m n) (h : Overruns kinds n b) : Overruns kinds m b := by
  obtain ⟨hb, o, pl, p, frame, hrest, hpage⟩ := h
  exact ⟨hb, o, pl, p, frame, hmoves.trans hrest, hpage⟩

theorem mono (h : Overruns kinds m b) (hk : ∀ l, kinds l → more l) : Overruns more m b := by
  obtain ⟨hb, o, pl, p, frame, hmoves, hpage⟩ := h
  exact ⟨hb, o, pl, p, frame, hmoves.mono hk, hpage⟩

/-- If no page that wants too much is added on the way, there was one from the start. -/
theorem not_fits (h : Overruns kinds m b) (hm : Coherent m) (hk : ∀ l, kinds l → l.Fits) :
    ¬ m.machine.Fits := by
  obtain ⟨-, o, pl, p, frame, hmoves, hp, hlt, -⟩ := h
  intro hfits
  exact absurd (hm.fits_moves hmoves hk hfits pl p hp) (Nat.not_le.2 hlt)

end Overruns

section

variable {m : Moment} {f : FrameId} {fr : Frame}

/-- A tracked frame is one of the pool that is handed out. -/
theorem Coherent.read_ok (h : Coherent m) (hf : m.machine.frames.get? f = some fr) :
    m.machine.pool.read fr.address = .ok (m.machine.pool.bytesAt fr.address) := by
  obtain ⟨n, hn, ha⟩ := h.backed.address_taken hf
  refine FramePool.read_eq_ok.2 ⟨?_, ?_, rfl⟩
  · simp [ha, FramePool.addressOf, Address.isPageAligned, Address.pageOffset]
  · rw [ha, FramePool.value_addressOf_div]
    exact h.pool.lt_of_isTaken hn

theorem Coherent.write_ok (h : Coherent m) (hf : m.machine.frames.get? f = some fr) (start : Nat)
    (bytes : Bytes) : ∃ pool, m.machine.pool.write fr.address start bytes = .ok pool := by
  obtain ⟨ha, hlt, -⟩ := FramePool.read_eq_ok.1 (h.read_ok hf)
  exact ⟨_, FramePool.write_eq_ok.2 ⟨ha, hlt, rfl⟩⟩

theorem Directory.map_ok {d : Directory .emulated} {a : VirtualAddress}
    {frame : EntryFormat.emulated.Frame} (ha : a.isPageAligned = true)
    (hframe : frame.isPageAligned = true) (writable : Bool) :
    ∃ after, d.map a frame writable = .ok after :=
  ⟨_, Directory.map_eq_ok.2 ⟨ha, _, PageEntry.make_eq_ok.2 ⟨hframe, rfl⟩, rfl⟩⟩

end

namespace Machine

variable {s t : Machine} {held : Option FrameId} {pl : Place} {sp : Space} {p : Page}
  {f : FrameId} {fr : Frame} {b : Bug}

/-- A transfer is a bug only where the work on the page and its frame is. -/
theorem transfer_eq_bug (h : Coherent ⟨s, held⟩) (hs : s.spaces.get? pl.space = some sp)
    (hp : sp.pages.pages.get? pl.key = some p) (hf : s.frames.get? f = some fr)
    {m : Action Transfer PagerError Unit}
    (run : transfer pl.space pl.address fr.address m s = .error b) :
    m ⟨p, s.pool.bytesAt fr.address, s.swap, s.files, []⟩ = .error b := by
  have hk : pl.key % pageSize = 0 := (h.linked.keyed (Coherent.pageAt_eq hs hp)).2
  unfold transfer at run
  rw [page_bind hs ((PageTable.get?_address hk _).trans hp), readFrame_bind (h.read_ok hf),
    Action.get_bind] at run
  rcases Action.liftM_bind_eq_bug.1 run with hm | ⟨⟨q, u⟩, -, run⟩
  · exact hm
  · dsimp only at run
    rw [Action.set_bind] at run
    rcases Action.bind_eq_bug.1 run with hwrite | ⟨_, v, -, run⟩
    · obtain ⟨pool, hpool⟩ := h.write_ok hf 0 u.frame
      rw [writeFrame_eq_bug] at hwrite
      cases hwrite.symm.trans hpool
    · cases run

theorem install_ne_bug (hk : pl.key % pageSize = 0) (hs : s.spaces.get? pl.space = some sp)
    (hp : sp.pages.pages.get? pl.key = some p) {address : PhysicalAddress}
    (ha : address.isPageAligned = true) : install pl.space pl.address address s ≠ .error b := by
  intro run
  unfold install at run
  rw [page_bind hs ((PageTable.get?_address hk _).trans hp), space_bind hs] at run
  obtain ⟨refuses, hr⟩ : ∃ refuses, sp.refusesEntries = refuses := ⟨_, rfl⟩
  rw [hr] at run
  cases refuses with
  | some e => cases run
  | none =>
    have halign : pl.address.isPageAligned = true := by
      simp [Place.address, Address.isPageAligned, Address.pageOffset, hk]
    obtain ⟨directory, hmap⟩ := Directory.map_ok (d := sp.directory) halign ha p.writable
    rcases Action.liftM_bind_eq_bug.1 run with hbug | ⟨_, -, run⟩
    · cases hbug.symm.trans hmap
    · cases run

theorem bindFrame_ne_bug (hk : pl.key % pageSize = 0) (hs : s.spaces.get? pl.space = some sp)
    (hp : sp.pages.pages.get? pl.key = some p) (ha : p.address = pl.address)
    (habs : p.frame = none) (hf : s.frames.get? f = some fr) (ho : fr.owner = none) :
    bindFrame f pl.space pl.address s ≠ .error b := by
  intro run
  unfold bindFrame at run
  rw [page_bind hs ((PageTable.get?_address hk _).trans hp), Action.get_bind] at run
  rcases Action.liftM_bind_eq_bug.1 run with hbug | ⟨⟨frames, bound⟩, -, run⟩
  · have hbind : s.frames.bind f ⟨pl.space, pl.address⟩ p = .ok (_, _) :=
      FrameTable.bind_eq_ok.2 ⟨ha, habs, fr, hf, ho, rfl, rfl⟩
    cases hbug.symm.trans hbind
  · cases run

/-- A frame that backs no page and is handed out can be given back. -/
theorem returnFrame_ne_bug (hpool : s.pool.Sound) (hf : s.frames.get? f = some fr)
    (ho : fr.owner = none) {n : Nat} (hn : s.pool.isTaken n = true)
    (ha : fr.address = FramePool.addressOf n) : returnFrame f s ≠ .error b := by
  intro run
  have hremove := FrameTable.remove_eq_ok.2 ⟨fr, hf, ho, rfl, rfl⟩
  unfold returnFrame at run
  rcases Action.bind_eq_bug.1 run with hbug | ⟨address, u, hremoved, run⟩
  · rw [onFrames_eq_bug] at hbug
    cases hbug.symm.trans hremove
  · obtain ⟨_, frames, hframes, hr, rfl⟩ := onFrames_eq_ok.1 hremoved
    cases hr
    cases hframes.symm.trans hremove
    rw [Action.get_bind] at run
    obtain ⟨next, hback⟩ := FramePool.giveBack_ok hpool hn
    rw [← ha] at hback
    rcases Action.liftM_bind_eq_bug.1 run with hbug | ⟨_, -, run⟩
    · cases hbug.symm.trans hback
    · cases run

/-- The frame in hand can be given back after anything was stored in frames. -/
theorem returnFrame_ne_bug_of_write (h : Coherent ⟨s, some f⟩) (hf : s.frames.get? f = some fr)
    {start : Nat} {bytes : Bytes} {pool : FramePool}
    (hw : s.pool.write fr.address start bytes = .ok pool) {u : Machine} (hu : u.pool = pool)
    (hframes : u.frames = s.frames) : returnFrame f u ≠ .error b := by
  obtain ⟨n, hn, ha⟩ := h.backed.address_taken hf
  obtain ⟨-, htaken, hpool⟩ := FramePool.write_spec h.pool hw
  refine returnFrame_ne_bug (hu ▸ hpool) (hframes ▸ hf) ((h.linked.held_iff hf).2 rfl) ?_ ha
  rw [hu, htaken]
  exact hn

theorem settle_eq_bug {id : SpaceId} {a : VirtualAddress} {m : Act Unit}
    (hf : s.frames.get? f = some fr) (run : settle id a f m s = .error b) :
    (do m; install id a fr.address) s = .error b ∨
      ∃ e u, (do m; install id a fr.address) s = .ok (.error e, u) ∧
        returnFrame f u = .error b := by
  unfold settle at run
  rw [addressOfFrame_bind hf] at run
  rcases Action.attempt_bind_eq_bug.1 run with htry | ⟨q, u, htry, run⟩
  · exact .inl htry
  · cases q with
    | ok _ => cases run
    | error e =>
      rcases Action.bind_eq_bug.1 run with hreturn | ⟨_, v, -, run⟩
      · exact .inr ⟨e, u, htry, hreturn⟩
      · cases run

/-- A page that owns a frame is as moving it out wants it. -/
theorem evict_overruns (h : Coherent ⟨s, none⟩) (hf : s.frames.get? f = some fr)
    (hp : Pager.pageAt s.spaces pl = some p) (hres : p.frame = some f) {dirty : Bool}
    (hout : Transfer.evict dirty ⟨p, s.pool.bytesAt fr.address, s.swap, s.files, []⟩ = .error b)
    (kinds : Label → Prop) : Overruns kinds ⟨s, none⟩ b := by
  obtain ⟨hinit, hslot⟩ := h.linked.ready hp hres
  obtain ⟨rfl, hlt⟩ := Transfer.evict_eq_bug (h.length_frame hf) hinit hslot hout
  exact ⟨rfl, _, pl, p, _, .refl, hp, hlt, h.length_frame hf, .inr ⟨dirty, hout⟩⟩

theorem tryVictim_eq_bug (h : Coherent ⟨s, none⟩) (hf : s.frames.get? f = some fr)
    (ho : fr.owner = some pl.owner) (run : tryVictim f ⟨pl.space, pl.address⟩ s = .error b) :
    Overruns Label.Seeks ⟨s, none⟩ b := by
  obtain ⟨p, hpage, hres⟩ := h.linked.owner_page hf ho
  obtain ⟨sp, hs, hp⟩ := exists_space_of_pageAt hpage
  simp only [Place.space_owner, Place.page_owner, Place.value_address] at hpage hs hp
  obtain ⟨ha, hk⟩ := h.linked.keyed hpage
  unfold tryVictim at run
  dsimp only at run
  rw [space_bind hs] at run
  by_cases haccessed : sp.directory.has pl.address .accessed = true
  · rw [if_pos haccessed] at run
    cases run
  · rw [if_neg haccessed, space_bind hs] at run
    have hcontains : sp.pages.contains pl.address = true := by
      rw [PageTable.contains, Table.contains, ← PageTable.get?, PageTable.get?_address hk, hp]
      rfl
    rw [hcontains, if_neg (by decide), addressOfFrame_bind hf] at run
    rcases Action.bind_eq_bug.1 run with hbug | ⟨_, u, htransfer, run⟩
    · exact evict_overruns h hf hpage hres (transfer_eq_bug h hs hp hf hbug) _
    · obtain ⟨v, hout, rfl⟩ := transfer_evict h hs hp htransfer
      have hparting := Transfer.evict_eq_ok hout
      rw [modifyDirectory, modifySpace_bind, Table.modify_insert, page_bind
        (Table.get?_insert_self ..)
        ((PageTable.get?_address hk _).trans (Table.get?_insert_self ..))] at run
      rcases Action.bind_eq_bug.1 run with hbug | ⟨unbound, w, -, run⟩
      · rw [onFrames_eq_bug] at hbug
        have hunbind : s.frames.unbind f v.page = .ok (_, _) := FrameTable.unbind_eq_ok.2
          ⟨hparting.resident.trans hres, fr, pl.owner, hf, ho,
            (hparting.address.trans ha).symm, rfl, rfl⟩
        rw [hunbind] at hbug
        cases hbug
      · cases run

theorem candidate?_ne_bug (hf : s.frames.get? f = some fr) : candidate? f s ≠ .error b := by
  intro run
  unfold candidate? at run
  rw [Action.get_bind] at run
  rcases Action.liftM_bind_eq_bug.1 run with hbug | ⟨gr, -, run⟩
  · rw [FrameTable.get, hf] at hbug
    cases hbug
  · by_cases hpinned : gr.pinned = true
    · rw [if_pos hpinned] at run
      cases run
    · rw [if_neg hpinned] at run
      cases ho : gr.owner with
      | none =>
        rw [ho] at run
        cases run
      | some owner =>
        rw [ho] at run
        cases hs : s.spaces.get? owner.space with
        | none =>
          simp only [hs] at run
          cases run
        | some sp =>
          simp only [hs] at run
          cases run

theorem scan_eq_bug (h : Coherent ⟨s, none⟩) {steps : Nat} {full : Bool}
    (run : scan steps full s = .error b) : Overruns Label.Seeks ⟨s, none⟩ b := by
  induction steps generalizing s full with
  | zero => cases run
  | succ steps ih =>
    unfold scan at run
    rcases Action.bind_eq_bug.1 run with hbug | ⟨found, u, hadvance, run⟩
    · rw [onFrames_eq_bug] at hbug
      cases hbug
    · obtain ⟨_, frames, hframes, hr, rfl⟩ := onFrames_eq_ok.1 hadvance
      cases hr
      have hpair : s.frames.advance = (found, frames) := Except.ok.inj hframes
      have hturn : Moves Label.Seeks ⟨s, none⟩ ⟨{ s with frames := s.frames.advance.2 }, none⟩ :=
        .single .turn trivial
      rw [hpair] at hturn
      have hcoherent := h.moves hturn
      cases found with
      | none => cases run
      | some f =>
        obtain ⟨fr, hf⟩ : ∃ fr, frames.get? f = some fr := by
          obtain ⟨hsome, hnext⟩ := FrameTable.advance_eq_some hpair
          rw [hnext]
          exact Option.isSome_iff_exists.1 hsome
        rcases Action.bind_eq_bug.1 run with hbug | ⟨owner?, v, hcandidate, run⟩
        · exact absurd hbug (candidate?_ne_bug (s := { s with frames }) hf)
        · obtain ⟨rfl, hnone | ⟨fr, owner, hsome, hf, -, ho⟩⟩ := candidate?_cases hcandidate
          · cases hnone
            exact (ih hcoherent run).head hturn
          · cases hsome
            have ho : fr.owner = some (Place.owner ⟨owner.space, owner.page.value⟩) := ho
            rcases Action.attempt_bind_eq_bug.1 run with hbug | ⟨q, w, hvictim, run⟩
            · exact (tryVictim_eq_bug hcoherent hf ho hbug).head hturn
            · rcases tryVictim_move hcoherent hf ho hvictim with
                ⟨rfl, -⟩ | ⟨rfl, -, hmove⟩ | ⟨e, rfl, -, hmove⟩
              · cases run
              · exact (ih (hcoherent.move hmove) run).head (hturn.tail hmove trivial)
              · cases e with
                | swapExhausted =>
                  exact (ih (hcoherent.move hmove) run).head (hturn.tail hmove trivial)
                | _ => cases run

theorem obtainFrame_eq_bug (h : Coherent ⟨s, none⟩) (run : obtainFrame s = .error b) :
    Overruns Label.Seeks ⟨s, none⟩ b := by
  unfold obtainFrame at run
  rw [Action.get_bind] at run
  cases htake : s.pool.take? with
  | none =>
    simp only [htake] at run
    unfold evict at run
    rw [Action.get_bind] at run
    exact scan_eq_bug h run
  | some taken =>
    simp only [htake] at run
    cases run

/-- A frame that was found is tracked and backs no page. -/
theorem obtainFrame_tracked (h : Coherent ⟨s, none⟩) (run : obtainFrame s = .ok (.ok f, t)) :
    ∃ fr, t.frames.get? f = some fr ∧ fr.owner = none := by
  have hmoves := obtainFrame_moves h run
  have htracked : ∃ fr, t.frames.get? f = some fr := by
    refine h.preserves (P := fun m => ∀ g, m.held = some g →
      ∃ fr, m.machine.frames.get? g = some fr) hmoves ?_ (fun g hg => by cases hg) f rfl
    intro l m n hl hm htracked hmove
    cases hmove with
    | note | mark | spare => exact htracked
    | turn =>
      intro g hg
      rw [show FrameTable.get? _ = _ from FrameTable.get?_advance _]
      exact htracked g hg
    | @take s address =>
      rintro g ⟨⟩
      have hget := (FrameTable.insert_spec hm.frames address).2.1
      exact ⟨_, (congrFun hget _).trans (Function.update_self ..)⟩
    | @evict s pl g fr _ _ _ hg =>
      rintro g ⟨⟩
      have hput := (FrameTable.put_spec hm.frames (Option.isSome_iff_exists.2 ⟨fr, hg⟩)
        { fr with owner := none, pinned := false }).1
      exact ⟨_, (congrFun hput _).trans (Function.update_self ..)⟩
    | _ => cases hl
  obtain ⟨fr, hf⟩ := htracked
  exact ⟨fr, hf, ((h.moves hmoves).linked.held_iff hf).2 rfl⟩

/-- Filling the frame in hand is a bug only where filling it with the page is. -/
theorem settle_populate_eq_bug (h : Coherent ⟨s, some f⟩) (hf : s.frames.get? f = some fr)
    (hs : s.spaces.get? pl.space = some sp) (hp : sp.pages.pages.get? pl.key = some p)
    (run : settle pl.space pl.address f
      (transfer pl.space pl.address fr.address Transfer.populate) s = .error b) :
    Transfer.populate ⟨p, s.pool.bytesAt fr.address, s.swap, s.files, []⟩ = .error b := by
  have hpage := Coherent.pageAt_eq hs hp
  have hlen := h.length_frame hf
  obtain ⟨hkeyed, hk⟩ := h.linked.keyed hpage
  have haligned := (FramePool.read_eq_ok.1 (h.read_ok hf)).1
  rcases settle_eq_bug hf run with htry | ⟨e, u, htry, hreturn⟩
  · rcases Action.bind_eq_bug.1 htry with hbug | ⟨_, v, htransfer, hinstall⟩
    · exact transfer_eq_bug h hs hp hf hbug
    · obtain ⟨u, pool, -, -, rfl⟩ :=
        transfer_eq_ok h hs hp (Transfer.populate_address h.swap hlen) htransfer
      exact absurd hinstall (install_ne_bug hk (Table.get?_insert_self ..)
        (Table.get?_insert_self ..) haligned)
  · -- the frame goes back, and its number is as good as it was
    have hback : ∀ {q v}, transfer pl.space pl.address fr.address Transfer.populate s = .ok (q, v) →
        returnFrame f v ≠ .error b := by
      intro q v htransfer
      obtain ⟨u, pool, -, hpool, rfl⟩ :=
        transfer_eq_ok h hs hp (Transfer.populate_address h.swap hlen) htransfer
      exact returnFrame_ne_bug_of_write h hf hpool rfl rfl
    rcases Action.bind_eq_ok.1 htry with ⟨_, v, htransfer, hinstall⟩ | ⟨e, htransfer, -⟩
    · obtain ⟨w, pool, -, hpool, rfl⟩ :=
        transfer_eq_ok h hs hp (Transfer.populate_address h.swap hlen) htransfer
      rcases install_cases hk (Table.get?_insert_self ..) (Table.get?_insert_self ..) hinstall with
        ⟨e, -, -, rfl⟩ | ⟨directory, -, hr, -⟩
      · exact absurd hreturn (hback htransfer)
      · cases hr
    · exact absurd hreturn (hback htransfer)

/-- A claim is a bug if the search for a frame is one, or if filling the frame that was found
with the page is one. -/
theorem claim_bug_cases (h : Coherent ⟨s, none⟩) {id : SpaceId} {a : VirtualAddress}
    (hs : s.spaces.get? id = some sp) (run : claim id a s = .error b) :
    obtainFrame s = .error b ∨ ∃ p f t bytes, Pager.pageAt s.spaces (.of id a) = some p ∧
      p.frame = none ∧ obtainFrame s = .ok (.ok f, t) ∧ bytes.length = pageSize ∧
      Transfer.populate ⟨p, bytes, t.swap, t.files, []⟩ = .error b := by
  have hk := Place.aligned_of id a
  obtain ⟨hid, ha⟩ : id = (Place.of id a).space ∧ a.pageBase = (Place.of id a).address := ⟨rfl, rfl⟩
  unfold claim at run
  rw [ha] at run
  generalize Place.of id a = pl at *
  subst hid
  cases hp : sp.pages.pages.get? pl.key with
  | none =>
    rw [page_bind_none hs ((PageTable.get?_address hk _).trans hp)] at run
    cases run
  | some p =>
    rw [page_bind hs ((PageTable.get?_address hk _).trans hp)] at run
    have hpage : Pager.pageAt s.spaces pl = some p := Coherent.pageAt_eq hs hp
    cases hframe : p.frame with
    | some f =>
      rw [hframe] at run
      cases run
    | none =>
      rw [hframe] at run
      rcases Action.bind_eq_bug.1 run with hbug | ⟨f, x, hobtain, run⟩
      · exact .inl hbug
      · have hseek := obtainFrame_moves h hobtain
        have hx := h.moves hseek
        obtain ⟨fr, hf, ho⟩ := obtainFrame_tracked h hobtain
        obtain ⟨sx, hsx, hpx⟩ := exists_space_of_pageAt (pageAt_of_seeks h hseek hpage hframe)
        have hsx : x.spaces.get? pl.space = some sx := hsx
        rw [addressOfFrame_bind hf] at run
        rcases Action.bind_eq_bug.1 run with hbug | ⟨_, y, hsettle, run⟩
        · have hfill := settle_populate_eq_bug hx hf hsx hpx hbug
          exact .inr ⟨p, f, x, _, hpage, hframe, hobtain, hx.length_frame hf, hfill⟩
        · rcases settle_moves hx hf hsx hpx hframe hsettle with
            ⟨e, hr, -⟩ | ⟨-, u, pool, directory, hfill, -, -, hkey, rfl⟩
          · cases hr
          · rw [modifyDirectory, modifySpace_bind, Table.modify_insert] at run
            have habs : u.page.frame = none := by
              rcases Transfer.populate_eq_ok hx.swap (hx.length_frame hf) hfill with
                ⟨-, hpop⟩ | ⟨e, hr, -⟩
              · exact ((hpop.spec hx.swap (hx.length_frame hf)).1.frame).trans hframe
              · cases hr
            rcases Action.bind_eq_bug.1 run with hbug | ⟨_, z, -, run⟩
            · exact absurd hbug (bindFrame_ne_bug hk (Table.get?_insert_self ..)
                (Table.get?_insert_self ..) (Address.ext hkey) habs hf ho)
            · cases run

theorem claim_eq_bug (h : Coherent ⟨s, none⟩) {id : SpaceId} {a : VirtualAddress}
    (hs : s.spaces.get? id = some sp) (run : claim id a s = .error b) :
    Overruns (Label.Claims (· = .of id a)) ⟨s, none⟩ b := by
  have hclaims : ∀ l : Label, l.Seeks → l.Claims (· = .of id a) := fun l hl => hl.claims _
  rcases claim_bug_cases h hs run with hsearch | ⟨p, f, t, bytes, hp, habs, hsearch, hlen, hfill⟩
  · exact (obtainFrame_eq_bug h hsearch).mono hclaims
  · have hseek := obtainFrame_moves h hsearch
    have hpage := pageAt_of_seeks h hseek hp habs
    obtain ⟨rfl, hlt⟩ := Transfer.populate_eq_bug hlen
      (fun n hn => (h.moves hseek).isUsed_of_slot hpage hn) hfill
    exact ⟨rfl, _, _, p, bytes, hseek.mono hclaims, hpage, hlt, hlen, .inl hfill⟩

end Machine
end Pager
