import Pager.Proofs.Operations
import Pager.Proofs.Overrun

/-!
Bugs in requests. What a process or the kernel asks of a space is checked before it is
done: addresses stay below the kernel's half, so no sum leaves a word, and what is
released was held. A request that ends in a bug has come upon a page that asks its file
for more than a page.
-/
namespace Pager

namespace Label

variable {l : Label} {id : SpaceId}

theorem Claims.bookless {among : Place → Prop} (h : l.Claims among) : l.Bookless := by
  cases l <;> trivial

theorem Claims.fits {among : Place → Prop} (h : l.Claims among) : l.Fits := by
  cases l <;> trivial

theorem Copies.bookless (h : l.Copies id) : l.Bookless := by
  cases l <;> trivial

theorem Copies.fits (h : l.Copies id) : l.Fits := by
  cases l <;> trivial

theorem Clears.fits (h : l.Clears id) : l.Fits := by
  cases l <;> trivial

theorem Dismantles.fits (h : l.Dismantles id) : l.Fits := by
  cases l <;> trivial

theorem Seeks.fits (h : l.Seeks) : l.Fits := by
  cases l <;> trivial

end Label

namespace Address

variable {start : VirtualAddress} {n : Nat}

/-- Below the kernel's half a sum is an address. -/
theorem add_ok (h : start.value + n ≤ kernelBase) : start.add n = .ok ⟨start.value + n⟩ := by
  have hlow : start.value + n < 2 ^ 47 := Nat.lt_of_le_of_lt h (by decide)
  exact add_eq_ok.2 ⟨Nat.lt_trans hlow (by decide), .inl hlow, rfl⟩

theorem mapM_add_ne_bug {count : Nat} {b : Bug} (h : start.value + count * pageSize ≤ kernelBase) :
    (List.range count).mapM (fun k => start.add (k * pageSize)) ≠ .error b := by
  intro hbug
  obtain ⟨k, hk, hadd⟩ := mapM_eq_error hbug
  have hle := Nat.mul_le_mul_right pageSize (Nat.le_of_lt (List.mem_range.1 hk))
  rw [add_ok (by omega)] at hadd
  cases hadd

end Address

/-- The pieces of a range lie in it, and each on its page. -/
theorem mem_pieces {start length : Nat} {piece : Piece} (h : piece ∈ pieces start length) :
    start ≤ piece.start ∧ piece.start < start + length ∧
      piece.start % pageSize + piece.count ≤ pageSize := by
  unfold pieces at h
  by_cases hlength : length = 0
  · rw [if_pos hlength] at h
    cases h
  · rw [if_neg hlength] at h
    obtain ⟨page, hpage, rfl⟩ := List.mem_map.1 h
    rw [List.mem_range'_1] at hpage
    have hmul : page * pageSize < start + length := by
      unfold pageSize at *
      omega
    dsimp only
    unfold pageSize at *
    omega

/-- The first registered page from the start on tells whether there is one in the range. -/
theorem PageTable.overlaps_eq_ok {t : PageTable} {start : VirtualAddress} {count : Nat}
    (h : start.pageBase.value + count * pageSize < 2 ^ 64) :
    ∃ taken, t.overlaps start count = .ok taken ∧
      (taken = true ↔ ∃ key ∈ t.pages.keys,
        start.pageBase.value ≤ key ∧ key < start.pageBase.value + count * pageSize) := by
  have hmul : wordMul count pageSize = .ok (count * pageSize) := wordMul_eq_ok.2 ⟨by omega, rfl⟩
  have hadd : wordAdd start.pageBase.value (count * pageSize) = .ok _ :=
    wordAdd_eq_ok.2 ⟨h, rfl⟩
  rw [← Table.firstFrom_lt_iff]
  cases hfirst : t.pages.firstFrom start.pageBase.value with
  | none =>
    refine ⟨false, except_bind_eq_ok.2 ⟨_, hmul, except_bind_eq_ok.2 ⟨_, hadd, ?_⟩⟩, by simp⟩
    rw [hfirst]
    rfl
  | some key =>
    refine ⟨key < start.pageBase.value + count * pageSize,
      except_bind_eq_ok.2 ⟨_, hmul, except_bind_eq_ok.2 ⟨_, hadd, ?_⟩⟩, by simp⟩
    rw [hfirst]
    rfl

theorem PageTable.overlaps_ne_bug {t : PageTable} {start : VirtualAddress} {count : Nat} {b : Bug}
    (h : start.value + count * pageSize ≤ kernelBase) : t.overlaps start count ≠ .error b := by
  have hword : kernelBase < 2 ^ 64 := by decide
  have hbase : start.pageBase.value ≤ start.value := Nat.sub_le ..
  have hfits : start.pageBase.value + count * pageSize < 2 ^ 64 := by omega
  obtain ⟨taken, hrun, -⟩ := overlaps_eq_ok (t := t) hfits
  rw [hrun]
  intro hbug
  cases hbug

/-- The parts of a run lie in the words and its pages below the kernel's half. -/
theorem pageRun_ne_bug {start : VirtualAddress} {file : Handle} {offset readBytes count : Nat}
    {make : VirtualAddress → LoadSlice → Page} {b : Bug}
    (hstart : start.value + count * pageSize ≤ kernelBase)
    (hoffset : offset + count * pageSize < 2 ^ 64) :
    pageRun start file offset readBytes count make ≠ .error b := by
  intro hbug
  obtain ⟨k, hk, hbug⟩ := mapM_eq_error hbug
  have hle := Nat.mul_le_mul_right pageSize (Nat.le_of_lt (List.mem_range.1 hk))
  rcases except_bind_eq_error.1 hbug with hslice | ⟨slice, -, hbug⟩
  · unfold LoadSlice.ofRun at hslice
    rw [show wordAdd offset (k * pageSize) = .ok (offset + k * pageSize) from
      wordAdd_eq_ok.2 ⟨by omega, rfl⟩] at hslice
    cases hslice
  · rw [Address.add_ok (by omega)] at hbug
    cases hbug

theorem Page.releaseSlot_ne_bug {p : Page} {swap : SwapTable} {b : Bug}
    (h : ∀ n, p.slot = some n → swap.isUsed n = true) : p.releaseSlot swap ≠ .error b := by
  intro hbug
  unfold releaseSlot at hbug
  cases hk : p.kind with
  | unpopulated u =>
    rw [hk] at hbug
    cases hbug
  | fileBacked file =>
    rw [hk] at hbug
    cases hbug
  | anonymous slot =>
    rw [hk] at hbug
    cases slot with
    | none => cases hbug
    | some n =>
      have hused := h n (by simp only [slot, hk])
      rcases except_bind_eq_error.1 hbug with hrelease | ⟨released, -, hbug⟩
      · exact SwapTable.release_ne_bug hused hrelease
      · cases hbug

namespace Machine

variable {s t : Machine} {id : SpaceId} {a start : VirtualAddress} {sp : Space} {p : Page} {b : Bug}

theorem insertPages_ne_bug (hs : s.spaces.get? id = some sp) {pages : List Page} :
    insertPages id pages s ≠ .error b := by
  intro run
  unfold insertPages at run
  rw [space_bind hs] at run
  obtain ⟨table, -, run⟩ := Action.ofResult_bind_eq_bug.1 run
  cases run

theorem register_ne_bug (hs : s.spaces.get? id = some sp) {writable : Bool} {type : PageType}
    {init : Option Initializer} {slice : LoadSlice} :
    register id a writable type init slice s ≠ .error b := by
  intro run
  unfold register at run
  obtain ⟨_, -, run⟩ := Action.ofResult_bind_eq_bug.1 run
  by_cases hfile : type = .fileBacked ∧ slice.file.isNone = true
  · rw [if_pos hfile] at run
    cases run
  · rw [if_neg hfile] at run
    exact insertPages_ne_bug hs run

theorem registerSegment_ne_bug (hs : s.spaces.get? id = some sp) {file : Handle}
    {offset readBytes zeroBytes : Nat} {writable : Bool} :
    registerSegment id file offset start readBytes zeroBytes writable s ≠ .error b := by
  intro run
  unfold registerSegment at run
  by_cases haligned : (!start.isPageAligned) = true ∨ offset % pageSize ≠ 0
  · rw [if_pos haligned] at run
    cases run
  rw [if_neg haligned] at run
  dsimp only at run
  by_cases htotal : 1 <<< 64 ≤ readBytes + zeroBytes ∨ readBytes + zeroBytes = 0 ∨
      (readBytes + zeroBytes) % pageSize ≠ 0
  · rw [if_pos htotal] at run
    cases run
  rw [if_neg htotal] at run
  obtain ⟨_, hrange, run⟩ := Action.ofResult_bind_eq_bug.1 run
  have hrange := requireUserRange_eq_ok hrange
  by_cases hoffset : 1 <<< 64 ≤ offset + (readBytes + zeroBytes)
  · rw [if_pos hoffset] at run
    cases run
  rw [if_neg hoffset] at run
  have hcount : (readBytes + zeroBytes) / pageSize * pageSize = readBytes + zeroBytes := by
    refine Nat.div_mul_cancel (Nat.dvd_of_mod_eq_zero ?_)
    by_contra hcon
    exact htotal (.inr (.inr hcon))
  rw [← hcount] at hrange hoffset
  rw [space_bind hs] at run
  rcases Action.liftM_bind_eq_bug.1 run with hbug | ⟨overlaps, -, run⟩
  · exact PageTable.overlaps_ne_bug hrange hbug
  · cases overlaps with
    | true => cases run
    | false =>
      rcases Action.liftM_bind_eq_bug.1 run with hbug | ⟨pages, -, run⟩
      · exact pageRun_ne_bug hrange (by omega) hbug
      · exact insertPages_ne_bug hs run

/-- What a page holds can be released if it holds what it says. -/
theorem discardPage_ne_bug (hpool : s.pool.Sound) (hframes : s.frames.Sound)
    (hbound : ∀ f, p.frame = some f → ∃ fr owner n, s.frames.get? f = some fr ∧
      fr.owner = some owner ∧ owner.page = p.address ∧ s.pool.isTaken n = true ∧
        fr.address = FramePool.addressOf n)
    (hslot : ∀ n, p.slot = some n → s.swap.isUsed n = true) : discardPage id p s ≠ .error b := by
  intro run
  unfold discardPage at run
  cases hframe : p.frame with
  | none =>
    rw [hframe] at run
    dsimp only at run
    rw [Action.get_bind] at run
    rcases Action.liftM_bind_eq_bug.1 run with hbug | ⟨released, -, run⟩
    · exact Page.releaseSlot_ne_bug hslot hbug
    · cases run
  | some f =>
    obtain ⟨fr, owner, n, hf, ho, hpage, hn, ha⟩ := hbound f hframe
    obtain ⟨frames, free, hfree, back, hback, hnone, haddress⟩ : ∃ frames free,
        s.frames.unbind f p = .ok (frames, free) ∧
          ∃ back, frames.get? f = some back ∧ back.owner = none ∧ back.address = fr.address := by
      refine ⟨_, _, FrameTable.unbind_eq_ok.2 ⟨hframe, fr, owner, hf, ho, hpage, rfl, rfl⟩, ?_⟩
      have hput := (FrameTable.put_spec hframes (Option.isSome_iff_exists.2 ⟨fr, hf⟩)
        { fr with owner := none, pinned := false }).1
      exact ⟨_, (congrFun hput f).trans (Function.update_self ..), rfl, rfl⟩
    rw [hframe] at run
    dsimp only at run
    rw [modifyDirectory, modifySpace_bind] at run
    rcases Action.bind_eq_bug.1 run with hbug | ⟨_, u, hdone, run⟩
    · rw [onFrames_eq_bug, hfree] at hbug
      cases hbug
    · obtain ⟨_, frames', hbody, -, rfl⟩ := onFrames_eq_ok.1 hdone
      rw [hfree] at hbody
      cases hbody
      rcases Action.bind_eq_bug.1 run with hbug | ⟨_, v, hreturn, run⟩
      · exact absurd hbug (returnFrame_ne_bug (by exact hpool) (by exact hback) hnone
          (by exact hn) (haddress.trans ha))
      · have hsame : v.swap = s.swap := by
          obtain ⟨-, hmove⟩ := returnFrame_move hreturn
          cases hmove
          rfl
        rw [Action.get_bind] at run
        rcases Action.liftM_bind_eq_bug.1 run with hbug | ⟨released, -, run⟩
        · rw [hsame] at hbug
          exact Page.releaseSlot_ne_bug hslot hbug
        · cases run

theorem remove_ne_bug (h : Coherent ⟨s, none⟩) (hs : s.spaces.get? id = some sp) :
    remove id a s ≠ .error b := by
  intro run
  unfold remove at run
  cases hp : sp.pages.get? a with
  | none =>
    rw [page_bind_none hs hp] at run
    cases run
  | some p =>
    rw [page_bind hs hp, modifySpace_bind] at run
    have hpage : Pager.pageAt s.spaces (.of id a) = some p := Coherent.pageAt_eq hs hp
    refine absurd run (discardPage_ne_bug (by exact h.pool) (by exact h.frames) (fun f hf => ?_)
      fun n hn => by exact h.isUsed_of_slot hpage hn)
    obtain ⟨fr, hfr, ho⟩ := Backs.of_page h hpage hf
    obtain ⟨n, hn, ha⟩ := h.backed.address_taken hfr
    exact ⟨fr, _, n, hfr, ho, (h.linked.keyed hpage).1.symm, hn, ha⟩

theorem pin_eq_bug (h : Coherent ⟨s, none⟩) (hs : s.spaces.get? id = some sp)
    (run : pin id a s = .error b) : Overruns (Label.Claims (· = .of id a)) ⟨s, none⟩ b := by
  unfold pin at run
  rcases Action.bind_eq_bug.1 run with hbug | ⟨f, u, hclaim, run⟩
  · exact claim_eq_bug h hs hbug
  · obtain ⟨hmoves, hpage⟩ := claim_moves h hclaim
    obtain ⟨p, hp, hres⟩ := hpage f rfl
    obtain ⟨fr, hf, -⟩ := Backs.of_page (h.moves hmoves) hp hres
    rw [onFrames_eq_bug] at run
    have hset : u.frames.setPinned f true = .ok _ := FrameTable.setPinned_eq_ok.2 ⟨fr, hf, rfl⟩
    rw [hset] at run
    cases run

theorem unpin_ne_bug (h : Coherent ⟨s, none⟩) (hs : s.spaces.get? id = some sp) :
    unpin id a s ≠ .error b := by
  intro run
  unfold unpin at run
  rw [space_bind hs] at run
  cases hframe : (sp.pages.get? a).bind Page.frame with
  | none =>
    rw [hframe] at run
    cases run
  | some f =>
    rw [hframe] at run
    obtain ⟨p, hp, hres⟩ := Option.bind_eq_some_iff.1 hframe
    have hpage : Pager.pageAt s.spaces (.of id a) = some p := Coherent.pageAt_eq hs hp
    obtain ⟨fr, hf, -⟩ := Backs.of_page h hpage hres
    rw [onFrames_eq_bug] at run
    have hset : s.frames.setPinned f false = .ok _ := FrameTable.setPinned_eq_ok.2 ⟨fr, hf, rfl⟩
    rw [hset] at run
    cases run

/-- A space whose books are kept is there. -/
theorem exists_space_of_books (hs : s.spaces.get? id = some sp) (h : t.books id = s.books id) :
    ∃ after, t.spaces.get? id = some after ∧ after.books = sp.books := by
  unfold books at h
  rw [hs] at h
  exact Option.map_eq_some_iff.1 h

theorem readPiece_eq_bug (h : Coherent ⟨s, none⟩) (hs : s.spaces.get? id = some sp) {count : Nat}
    (hin : a.pageOffset + count ≤ pageSize) (run : readPiece id a count s = .error b) :
    Overruns (Label.Claims (· = .of id a)) ⟨s, none⟩ b := by
  unfold readPiece at run
  rcases Action.bind_eq_bug.1 run with hbug | ⟨f, u, hclaim, run⟩
  · exact claim_eq_bug h hs hbug
  · obtain ⟨hmoves, hpage⟩ := claim_moves h hclaim
    have hu := h.moves hmoves
    obtain ⟨p, hp, hres⟩ := hpage f rfl
    obtain ⟨fr, hf, -⟩ := Backs.of_page hu hp hres
    rw [addressOfFrame_bind hf, readFrame_bind (hu.read_ok hf), if_neg (Nat.not_lt.2 hin)] at run
    cases run

theorem writePiece_eq_bug (h : Coherent ⟨s, none⟩) (hs : s.spaces.get? id = some sp) {bytes : Bytes}
    (hin : a.pageOffset + bytes.length ≤ pageSize) (run : writePiece id a bytes s = .error b) :
    Overruns (Label.Claims (· = .of id a)) ⟨s, none⟩ b := by
  unfold writePiece at run
  cases hp : sp.pages.get? a with
  | none =>
    rw [page_bind_none hs hp] at run
    cases run
  | some p =>
    rw [page_bind hs hp] at run
    by_cases hwritable : (!p.writable) = true
    · rw [if_pos hwritable] at run
      cases run
    rw [if_neg hwritable] at run
    rcases Action.bind_eq_bug.1 run with hbug | ⟨f, u, hclaim, run⟩
    · exact claim_eq_bug h hs hbug
    · obtain ⟨hmoves, hpage⟩ := claim_moves h hclaim
      have hu := h.moves hmoves
      obtain ⟨p, hp, hres⟩ := hpage f rfl
      obtain ⟨fr, hf, -⟩ := Backs.of_page hu hp hres
      rw [addressOfFrame_bind hf, if_neg (Nat.not_lt.2 hin)] at run
      dsimp only at run
      rcases Action.bind_eq_bug.1 run with hbug | ⟨_, v, -, run⟩
      · obtain ⟨pool, hpool⟩ := hu.write_ok hf a.pageOffset bytes
        rw [writeFrame_eq_bug] at hbug
        cases hbug.symm.trans hpool
      · cases run

/-- A piece of a range below the kernel's half has an address there, and lies on its page. -/
theorem piece_ok {start : VirtualAddress} {piece : Piece} {length : Nat}
    (hrange : start.value + length ≤ kernelBase) (hpiece : piece ∈ pieces start.value length) :
    start.add (piece.start - start.value) = .ok ⟨piece.start⟩ ∧
      Address.pageOffset (⟨piece.start⟩ : VirtualAddress) + piece.count ≤ pageSize := by
  obtain ⟨hlow, hhigh, hpage⟩ := mem_pieces hpiece
  refine ⟨?_, hpage⟩
  have hsum : start.value + (piece.start - start.value) = piece.start := by omega
  rw [Address.add_ok (by omega), hsum]

theorem readPieces_eq_bug {length : Nat} (hrange : start.value + length ≤ kernelBase)
    {rest : List Piece} (hpieces : ∀ piece ∈ rest, piece ∈ pieces start.value length)
    (h : Coherent ⟨s, none⟩) (hs : s.spaces.get? id = some sp)
    (run : readPieces id start rest s = .error b) : Overruns (Label.Copies id) ⟨s, none⟩ b := by
  induction rest generalizing s sp with
  | nil => cases run
  | cons piece rest ih =>
    unfold readPieces at run
    obtain ⟨hadd, hin⟩ := piece_ok hrange (hpieces _ (List.mem_cons_self ..))
    rw [hadd] at run
    have hcopies : ∀ l : Label, l.Claims (· = .of id ⟨piece.start⟩) → l.Copies id :=
      fun l hl => (claims_in_space id _ l hl).copies
    rcases Action.liftM_bind_eq_bug.1 run with hbug | ⟨_, ha, run⟩
    · cases hbug
    · cases ha
      rcases Action.bind_eq_bug.1 run with hbug | ⟨bytes, u, hpiece, run⟩
      · exact (readPiece_eq_bug h hs hin hbug).mono hcopies
      · have hmoves := (readPiece_moves h hpiece).1
        obtain ⟨after, hafter, -⟩ := exists_space_of_books hs
          (hmoves.books_kept (fun l hl => hl.bookless) id)
        rcases Action.bind_eq_bug.1 run with hbug | ⟨others, v, -, run⟩
        · exact (ih (fun piece hmem => hpieces piece (List.mem_cons_of_mem _ hmem))
            (h.moves hmoves) hafter hbug).head (hmoves.mono hcopies)
        · cases run

theorem writePieces_eq_bug {length : Nat} (hrange : start.value + length ≤ kernelBase)
    {rest : List Piece} (hpieces : ∀ piece ∈ rest, piece ∈ pieces start.value length)
    {bytes : Bytes} (h : Coherent ⟨s, none⟩) (hs : s.spaces.get? id = some sp)
    (run : writePieces id start bytes rest s = .error b) :
    Overruns (Label.Copies id) ⟨s, none⟩ b := by
  induction rest generalizing s sp bytes with
  | nil => cases run
  | cons piece rest ih =>
    unfold writePieces at run
    obtain ⟨hadd, hin⟩ := piece_ok hrange (hpieces _ (List.mem_cons_self ..))
    rw [hadd] at run
    have hcopies : ∀ l : Label, l.Claims (· = .of id ⟨piece.start⟩) → l.Copies id :=
      fun l hl => (claims_in_space id _ l hl).copies
    have htake : (bytes.take piece.count).length ≤ piece.count := List.length_take_le ..
    rcases Action.liftM_bind_eq_bug.1 run with hbug | ⟨_, ha, run⟩
    · cases hbug
    · cases ha
      rcases Action.bind_eq_bug.1 run with hbug | ⟨_, u, hpiece, run⟩
      · exact (writePiece_eq_bug h hs (by omega) hbug).mono hcopies
      · have hmoves := writePiece_copies h hpiece
        obtain ⟨after, hafter, -⟩ := exists_space_of_books hs
          (hmoves.books_kept (fun l hl => hl.bookless) id)
        exact (ih (fun piece hmem => hpieces piece (List.mem_cons_of_mem _ hmem))
          (h.moves hmoves) hafter run).head hmoves

theorem readUser_eq_bug (h : Coherent ⟨s, none⟩) (hs : s.spaces.get? id = some sp) {length : Nat}
    (run : readUser id a length s = .error b) : Overruns (Label.Copies id) ⟨s, none⟩ b := by
  unfold readUser at run
  obtain ⟨_, hrange, run⟩ := Action.ofResult_bind_eq_bug.1 run
  exact readPieces_eq_bug (requireUserRange_eq_ok hrange) (fun _ hmem => hmem) h hs run

theorem writeUser_eq_bug (h : Coherent ⟨s, none⟩) (hs : s.spaces.get? id = some sp) {bytes : Bytes}
    (run : writeUser id a bytes s = .error b) : Overruns (Label.Copies id) ⟨s, none⟩ b := by
  unfold writeUser at run
  obtain ⟨_, hrange, run⟩ := Action.ofResult_bind_eq_bug.1 run
  exact writePieces_eq_bug (requireUserRange_eq_ok hrange) (fun _ hmem => hmem) h hs run

theorem touch_ne_bug (hs : s.spaces.get? id = some sp) {write : Bool} :
    touch id a write s ≠ .error b := by
  intro run
  unfold touch at run
  rw [space_bind hs] at run
  by_cases hpresent : (!sp.directory.isPresent a.pageBase) = true
  · rw [if_pos hpresent] at run
    cases run
  · rw [if_neg hpresent, modifyDirectory, modifySpace_bind] at run
    cases write with
    | false => cases run
    | true => cases run

theorem growStack_ne_bug (hs : s.spaces.get? id = some sp) {stackPointer : Option VirtualAddress} :
    growStack id a stackPointer s ≠ .error b := by
  intro run
  unfold growStack at run
  rw [space_bind hs] at run
  by_cases hregistered : sp.pages.contains a = true
  · rw [if_pos hregistered] at run
    cases run
  · rw [if_neg hregistered] at run
    cases stackPointer with
    | none => cases run
    | some stackPointer =>
      by_cases hgrows : growsStack a stackPointer = true
      · simp only [hgrows, if_true] at run
        rcases Action.bind_eq_bug.1 run with hbug | ⟨_, u, -, run⟩
        · exact insertPages_ne_bug hs hbug
        · cases run
      · simp only [hgrows] at run
        cases run

/-- A fault comes upon nothing worse than its claim does. -/
theorem resolve_eq_bug (h : Coherent ⟨s, none⟩) (hs : s.spaces.get? id = some sp)
    {fault : PageFault} (run : resolve id fault s = .error b) :
    Overruns (fun l => (l.Registers id s.files.held ∨ l.Claims (· = .of id fault.address)) ∧ l.Fits)
      ⟨s, none⟩ b := by
  unfold resolve at run
  obtain ⟨_, -, run⟩ := Action.ofResult_bind_eq_bug.1 run
  by_cases hpresent : (!fault.notPresent) = true
  · rw [if_pos hpresent] at run
    cases run
  rw [if_neg hpresent] at run
  dsimp only at run
  rw [space_bind hs] at run
  rcases Action.bind_eq_bug.1 run with hbug | ⟨_, v, hgrow, run⟩
  · exact absurd hbug (growStack_ne_bug hs)
  · obtain ⟨-, u, hu, events, rfl⟩ := growStack_cases hgrow
    have hgrown : Moves (fun l => (l.Registers id s.files.held ∨ l.Claims (· = .of id fault.address)) ∧ l.Fits)
        ⟨s, none⟩ ⟨{ u with events }, none⟩ := by
      refine Moves.tail ?_ (.note ..) ⟨.inr trivial, trivial⟩
      rcases hu with ⟨rfl, -⟩ | hgrows
      · exact .refl
      · refine .of_trace (hgrows.adds.trace fun p hp => ?_) ?_
        · rw [List.mem_singleton] at hp
          rw [hp]
          exact (Page.isNew_ofStack _).toEnters
        · intro l hl
          rw [List.map_singleton, List.mem_singleton] at hl
          rw [hl]
          exact ⟨.inl ⟨rfl, rfl, .of_anonymous rfl, hgrows.stands⟩, Nat.zero_le _⟩
    obtain ⟨after, hafter⟩ : ∃ after,
        ({ u with events } : Machine).spaces.get? id = some after := by
      have hbooks := hgrown.books_kept (fun l hl => by
        rcases hl.1 with hl | hl
        · cases l <;> trivial
        · exact hl.bookless) id
      obtain ⟨after, hafter, -⟩ := exists_space_of_books hs hbooks
      exact ⟨after, hafter⟩
    cases hp : after.pages.get? fault.address with
    | none =>
      rw [page_bind_none hafter hp] at run
      cases run
    | some p =>
      rw [page_bind hafter hp] at run
      by_cases hwrite : (fault.write && !p.writable) = true
      · rw [if_pos hwrite] at run
        cases run
      · rw [if_neg hwrite] at run
        rcases Action.bind_eq_bug.1 run with hbug | ⟨f, w, -, run⟩
        · have hclaim := claim_eq_bug (h.moves hgrown) hafter hbug
          exact (hclaim.mono fun l hl => ⟨.inr hl, hl.fits⟩).head hgrown
        · cases run

theorem serveFault_eq_bug (h : Coherent ⟨s, none⟩) (hs : s.spaces.get? id = some sp)
    {fault : PageFault} (run : serveFault id fault s = .error b) :
    Overruns (fun l => (l.Registers id s.files.held ∨ l.Claims (· = .of id fault.address)) ∧ l.Fits)
      ⟨s, none⟩ b := by
  unfold serveFault at run
  rcases Action.attempt_bind_eq_bug.1 run with hbug | ⟨q, u, -, run⟩
  · exact resolve_eq_bug h hs hbug
  · cases q with
    | ok _ => cases run
    | error e => cases run

/-- A mapping is refused before anything could leave a word, but for its number. -/
theorem mmap_ne_bug (hs : s.spaces.get? id = some sp) (hnext : sp.nextMapping + 1 < 2 ^ 64)
    {length : Nat} {writable : Bool} {file : Handle} {offset : Nat} :
    mmap id start length writable file offset s ≠ .error b := by
  rcases mmap_checks s id start length writable file offset with
    ⟨-, e, hrun⟩ | ⟨hsensible, hrun⟩
  · rw [hrun]
    exact nofun
  rw [hrun]
  intro run
  have hpages : start.value + pagesFor length * pageSize ≤ kernelBase :=
    pages_le_kernelBase hsensible.aligned hsensible.ends
  unfold openMapping at run
  rw [space_bind hs] at run
  rcases Action.liftM_bind_eq_bug.1 run with hbug | ⟨overlaps, -, run⟩
  · exact PageTable.overlaps_ne_bug hpages hbug
  cases overlaps with
  | true => cases run
  | false =>
    rw [if_neg (by decide)] at run
    rcases Action.bind_eq_bug.1 run with hbug | ⟨opened, u, hreopen, run⟩
    · rw [Action.within_eq_bug, Action.mapError_eq_bug] at hbug
      exact FileStore.reopen_ne_bug file hbug
    · obtain ⟨files, -, rfl⟩ := Action.within_eq_ok.1 hreopen
      have hspace : ({ s with files } : Machine).spaces.get? id = some sp := hs
      unfold enterMapping at run
      rw [space_bind hspace] at run
      rcases Action.liftM_bind_eq_bug.1 run with hbug | ⟨next, -, run⟩
      · have hword : wordAdd sp.nextMapping 1 = .ok _ := wordAdd_eq_ok.2 ⟨hnext, rfl⟩
        rw [hword] at hbug
        cases hbug
      · rw [modifySpace_bind, Action.get_bind, Table.modify_eq_insert hs] at run
        rcases Action.liftM_bind_eq_bug.1 run with hbug | ⟨pages, -, run⟩
        · exact pageRun_ne_bug hpages hsensible.fits hbug
        · rcases Action.bind_eq_bug.1 run with hbug | ⟨_, v, -, run⟩
          · exact absurd hbug (insertPages_ne_bug (Table.get?_insert_self ..))
          · cases run

end Machine
end Pager
