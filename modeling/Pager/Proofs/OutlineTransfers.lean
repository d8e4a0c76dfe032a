import Pager.Proofs.Filling
import Pager.Proofs.Outlines

/-!
Transfers between machines of one outline. Whether a sector can be read or written does not
depend on what it holds, so moving a page in or out comes to the same in both, whatever the
bytes are. Only files see bytes: a page of a file must hold the same in both when it is
written back. Initializers are run on frames that hold what others left there, and must
not look at it.
-/
namespace Pager

/-- The initializer takes no notice of what its frame held before. -/
def Initializer.Oblivious : Initializer → Prop
  | .computed fill => ∀ slice stale stale', stale.length = pageSize → stale'.length = pageSize →
      fill slice stale' = fill slice stale
  | _ => True

/-- Such an initializer can leave one thing only. -/
theorem Unpopulated.Fills.unique {u : Unpopulated} {store : FileStore} {bytes bytes' : Bytes}
    (hinit : u.initializer.Oblivious) (h : u.Fills store bytes) (h' : u.Fills store bytes') :
    bytes' = bytes := by
  unfold Unpopulated.Fills at h h'
  cases hkind : u.initializer with
  | zeros =>
    rw [hkind] at h h'
    exact h'.trans h.symm
  | fileSlice =>
    rw [hkind] at h h'
    obtain ⟨handle, file, hhandle, hfile, -, rfl⟩ := h
    obtain ⟨handle', file', hhandle', hfile', -, rfl⟩ := h'
    cases hhandle.symm.trans hhandle'
    cases hfile.symm.trans hfile'
    rfl
  | computed fill =>
    rw [hkind] at h h' hinit
    obtain ⟨stale, byteAt, hlength, hfill, rfl⟩ := h
    obtain ⟨stale', byteAt', hlength', hfill', rfl⟩ := h'
    rw [hinit u.slice stale stale' hlength hlength', hfill] at hfill'
    cases hfill'
    rw [Bytes.refill, Bytes.refill, hlength, hlength']

namespace Disk

variable {disk other : Disk}

section Alike

variable (h : other.outline = disk.outline)
include h

theorem size_of_alike : other.size = disk.size := by
  have hsectors : (other.sectors.map Bytes.blank).length = (disk.sectors.map Bytes.blank).length :=
    congrArg (List.length ∘ sectors) h
  rwa [List.length_map, List.length_map] at hsectors

/-- Whether a run of sectors can be read. -/
theorem readRun_of_alike (first count : Nat) :
    (other.readRun first count).2 = (disk.readRun first count).2 := by
  have hbad : other.badRead = disk.badRead := (congrArg badRead h :)
  have hread : ∀ n, (∃ e, disk.read n = .error e ∧ other.read n = .error e) ∨
      ∃ bytes bytes', disk.read n = .ok bytes ∧ other.read n = .ok bytes' := by
    intro n
    have hlength := size_of_alike h
    rw [size, size] at hlength
    rw [read, read, hbad]
    by_cases hfail : disk.badRead n = true
    · exact .inl ⟨_, if_pos hfail, if_pos hfail⟩
    · rw [if_neg hfail, if_neg hfail]
      by_cases hlt : n < disk.sectors.length
      · rw [List.getElem?_eq_getElem hlt, List.getElem?_eq_getElem (hlength ▸ hlt)]
        exact .inr ⟨_, _, rfl, rfl⟩
      · rw [List.getElem?_eq_none (by omega), List.getElem?_eq_none (by omega)]
        exact .inl ⟨_, rfl, rfl⟩
  induction count generalizing first with
  | zero => rfl
  | succ count ih =>
    rw [readRun, readRun]
    rcases hread first with ⟨e, he, he'⟩ | ⟨bytes, bytes', hbytes, hbytes'⟩
    · rw [he, he']
    · rw [hbytes, hbytes']
      exact ih (first + 1)

end Alike

theorem write_of_alike (h : other.outline = disk.outline) (sector : Nat) {bytes bytes' : Bytes}
    (hbytes : bytes'.length = bytes.length) :
    (∃ e, disk.write sector bytes = .error e ∧ other.write sector bytes' = .error e) ∨
      ∃ next next', disk.write sector bytes = .ok next ∧ other.write sector bytes' = .ok next' ∧
        next'.outline = next.outline := by
  have hbad : other.badWrite = disk.badWrite := (congrArg badWrite h :)
  have hfails : other.failWrites = disk.failWrites := (congrArg failWrites h :)
  by_cases hfail : disk.badWrite sector = true ∨ disk.failWrites = true ∨ disk.size ≤ sector
  · have hfail' : other.badWrite sector = true ∨ other.failWrites = true ∨ other.size ≤ sector := by
      rwa [hbad, hfails, size_of_alike h]
    exact .inl ⟨_, if_pos hfail, if_pos hfail'⟩
  · have hfail' : ¬ (other.badWrite sector = true ∨ other.failWrites = true ∨ other.size ≤ sector) := by
      rwa [hbad, hfails, size_of_alike h]
    refine .inr ⟨_, _, if_neg hfail, if_neg hfail', ?_⟩
    have hset := congrArg (fun o : Disk => { o with
      sectors := o.sectors.set sector bytes.blank
      writes := o.writes + 1 }) h
    simpa only [outline, List.map_set, Bytes.blank_eq_iff.2 hbytes] using hset

/-- A run of sectors is written as far in one as in the other. -/
theorem writeRun_of_alike {pages pages' : List Bytes} (h : other.outline = disk.outline)
    (hpages : pages'.map List.length = pages.map List.length) (first : Nat) :
    (other.writeRun first pages').2 = (disk.writeRun first pages).2 ∧
      (other.writeRun first pages').1.outline = (disk.writeRun first pages).1.outline := by
  induction pages generalizing pages' disk other first with
  | nil =>
    rw [List.map_nil, List.map_eq_nil_iff] at hpages
    rw [hpages]
    exact ⟨rfl, h⟩
  | cons bytes rest ih =>
    obtain ⟨bytes', rest', rfl, hbytes, hrest⟩ := List.map_eq_cons_iff.1 hpages
    rw [writeRun, writeRun]
    rcases write_of_alike h first hbytes with ⟨e, he, he'⟩ | ⟨next, next', hnext, hnext', halike⟩
    · rw [he, he']
      exact ⟨rfl, h⟩
    · rw [hnext, hnext']
      exact ih halike hrest (first + 1)

end Disk

namespace SwapTable

variable {swap other : SwapTable}

theorem disk_of_alike (h : other.outline = swap.outline) : other.disk.outline = swap.disk.outline :=
  (congrArg disk h :)

theorem bitmap_of_alike (h : other.outline = swap.outline) : other.bitmap = swap.bitmap :=
  (congrArg bitmap h :)

theorem alike_of_parts {bitmap : SlotBitmap} {disk disk' : Disk}
    (h : disk'.outline = disk.outline) : outline ⟨disk', bitmap⟩ = outline ⟨disk, bitmap⟩ :=
  congrArg (SwapTable.mk · bitmap) h

theorem allocate_mirrors (h : other.outline = swap.outline) :
    Mirrors (Shares outline) Eq (allocate swap) (allocate other) := by
  unfold allocate
  rw [Action.get_bind, Action.get_bind, bitmap_of_alike h]
  cases swap.bitmap.allocate with
  | none => exact .failed _ h
  | some claimed => exact .done rfl (alike_of_parts (disk_of_alike h))

theorem writePage_mirrors (h : other.outline = swap.outline) (slot : SwapSlot) {page page' : Bytes}
    (hpage : page'.length = page.length) :
    Mirrors (Shares outline) Eq (writePage slot page swap) (writePage slot page' other) := by
  have hsectors : (sectorsOf page').map List.length = (sectorsOf page).map List.length := by
    rw [sectorsOf, sectorsOf, List.map_map, List.map_map]
    refine List.map_congr_left fun i _ => ?_
    simp only [Function.comp_apply, Bytes.slice, List.length_take, List.length_drop, hpage]
  obtain ⟨hresult, halike⟩ := Disk.writeRun_of_alike (disk_of_alike h) hsectors (firstSector slot)
  unfold writePage
  rw [hpage]
  by_cases hlength : page.length ≠ pageSize
  · rw [if_pos hlength, if_pos hlength]
    exact .bug _
  · rw [if_neg hlength, if_neg hlength]
    dsimp only
    rw [Action.get_bind, Action.get_bind, Action.set_bind, Action.set_bind, hresult, bitmap_of_alike h]
    exact .of_result (alike_of_parts halike)

/-- Moving a page out comes to the same, whatever its bytes are. -/
theorem swapOut_mirrors (h : other.outline = swap.outline) {page page' : Bytes}
    (hpage : page'.length = page.length) :
    Mirrors (Shares outline) Eq (swapOut page swap) (swapOut page' other) := by
  refine (allocate_mirrors h).bind fun {slot slot' u u'} _ _ heq hu => ?_
  subst heq
  refine (writePage_mirrors hu slot hpage).attempt_bind fun {q v v'} _ _ hv => ?_
  cases q with
  | ok _ => exact .done rfl hv
  | error e =>
    dsimp only
    rw [Action.get_bind, Action.get_bind]
    rcases release_of_alike hv slot with ⟨b, hb, hb'⟩ | ⟨next, next', hnext, hnext', halike⟩
    · rw [hb, hb']
      exact .bug b
    · rw [hnext, hnext']
      exact .failed _ halike

theorem readPage_of_alike (h : other.outline = swap.outline) (slot : SwapSlot) {frame frame' : Bytes}
    (hframe : frame'.length = frame.length) :
    (∃ b, swap.readPage slot frame = .error b ∧ other.readPage slot frame' = .error b) ∨
      ∃ bytes bytes' r, swap.readPage slot frame = .ok (bytes, r) ∧
        other.readPage slot frame' = .ok (bytes', r) ∧ bytes'.length = bytes.length := by
  have hresult := Disk.readRun_of_alike (disk_of_alike h) (firstSector slot) sectorsPerPage
  rw [readPage, readPage, hframe]
  generalize swap.disk.readRun (firstSector slot) sectorsPerPage = x at hresult
  generalize other.disk.readRun (firstSector slot) sectorsPerPage = x' at hresult
  obtain ⟨read, r⟩ := x
  obtain ⟨read', r'⟩ := x'
  obtain rfl : r' = r := hresult
  by_cases hlength : frame.length ≠ pageSize
  · exact .inl ⟨_, if_pos hlength, if_pos hlength⟩
  · refine .inr ⟨_, _, _, if_neg hlength, if_neg hlength, ?_⟩
    rw [Bytes.length_overlay, Bytes.length_overlay, hframe]

theorem swapIn_mirrors {ε : Type} (h : other.outline = swap.outline) (slot : SwapSlot)
    {frame frame' : Bytes} (hframe : frame'.length = frame.length) :
    Mirrors (ε := ε) (Shares outline) (fun x x' => x'.1.length = x.1.length ∧ x'.2 = x.2)
      (swapIn slot frame swap) (swapIn slot frame' other) := by
  unfold swapIn
  rw [Action.get_bind, Action.get_bind]
  rcases readPage_of_alike h slot hframe with ⟨b, hb, hb'⟩ | ⟨bytes, bytes', r, hr, hr', hlength⟩
  · rw [hb, hb']
    exact .bug b
  · rw [hr, hr']
    cases r with
    | error e => exact .done ⟨hlength, rfl⟩ h
    | ok _ =>
      rcases release_of_alike h slot with ⟨b, hb, hb'⟩ | ⟨next, next', hnext, hnext', halike⟩
      · rw [hb, hb']
        exact .bug b
      · rw [hnext, hnext']
        exact .done ⟨hlength, rfl⟩ halike

end SwapTable

namespace Transfer

variable {t t' : Transfer} {α : Type}

section Alike

variable (h : t'.outline = t.outline)
include h

theorem page_of_alike : t'.page = t.page := (congrArg page h :)

theorem files_of_alike : t'.files = t.files := (congrArg files h :)

theorem inits_of_alike : t'.inits = t.inits := (congrArg inits h :)

theorem swap_of_alike : t'.swap.outline = t.swap.outline := (congrArg swap h :)

theorem length_of_alike : t'.frame.length = t.frame.length :=
  Bytes.blank_eq_iff.1 (congrArg frame h :)

theorem alike_frame {frame frame' : Bytes} (hframe : frame'.length = frame.length) :
    outline { t' with frame := frame' } = outline { t with frame } := by
  change { outline t' with frame := frame'.blank } = { outline t with frame := frame.blank }
  rw [h, Bytes.blank_eq_iff.2 hframe]

theorem alike_swap {swap swap' : SwapTable} (hswap : swap'.outline = swap.outline) :
    outline { t' with swap := swap' } = outline { t with swap } := by
  change { outline t' with swap := swap'.outline } = { outline t with swap := swap.outline }
  rw [h, hswap]

theorem setKind_mirrors (kind : PageKind) : Mirrors (Shares outline) Eq (setKind kind t) (setKind kind t') :=
  .done rfl (congrArg (fun o : Transfer => { o with page := { o.page with kind } }) h)

theorem onFiles_mirrors (m : Action FileStore StoreError α) :
    Mirrors (Shares outline) Eq (onFiles m t) (onFiles m t') :=
  .within_same _ (files_of_alike h) fun files =>
    congrArg (fun o : Transfer => { o with files }) h

/-- What a file hands over does not depend on the frame it goes to. -/
theorem load_mirrors (file : Handle) (offset count : Nat) :
    Mirrors (Shares outline) Eq (load file offset count t) (load file offset count t') := by
  have hlength := length_of_alike h
  unfold load
  rw [Action.get_bind, Action.get_bind, hlength]
  by_cases hcount : t.frame.length < count
  · rw [if_pos hcount, if_pos hcount]
    exact .bug _
  · rw [if_neg hcount, if_neg hcount]
    refine (onFiles_mirrors h _).bind fun {bytes bytes' u u'} _ _ heq hu => ?_
    subst heq
    have hframe : (t'.frame.overlay 0 bytes).length = (t.frame.overlay 0 bytes).length := by
      rw [Bytes.length_overlay, Bytes.length_overlay, hlength]
    have hbind : Mirrors (ε := PagerError) (Shares outline) Eq
        (setFrame (t.frame.overlay 0 bytes) u) (setFrame (t'.frame.overlay 0 bytes) u') :=
      .done rfl (alike_frame hu hframe)
    refine hbind.bind fun _ _ _ hv => ?_
    by_cases hshort : bytes.length ≠ count
    · rw [if_pos hshort, if_pos hshort]
      exact .failed _ hv
    · rw [if_neg hshort, if_neg hshort]
      refine .done rfl (alike_frame hv ?_)
      rw [Bytes.length_clearFrom, Bytes.length_clearFrom, hframe]

end Alike

/-- An initializer that takes no notice of the frame fares the same on two of them. -/
theorem initFrame_mirrors (h : t'.outline = t.outline) {init : Initializer}
    (hinit : init.Oblivious) (slice : LoadSlice) (hf : t.frame.length = pageSize) :
    Mirrors (Shares outline) Eq (initFrame init slice t) (initFrame init slice t') := by
  have hlength := length_of_alike h
  unfold initFrame
  rw [Action.get_bind, Action.get_bind]
  cases init with
  | zeros =>
    refine .done rfl (alike_frame h ?_)
    rw [Bytes.length_zeros, Bytes.length_zeros, hlength]
  | fileSlice =>
    unfold loadSlice
    cases slice.file with
    | none => exact .failed _ h
    | some file => exact load_mirrors h file _ _
  | computed fill =>
    dsimp only
    rw [hinit slice t.frame t'.frame hf (by rw [hlength, hf])]
    cases fill slice t.frame with
    | error e => exact .failed e h
    | ok byteAt =>
      refine .done rfl (alike_frame h ?_)
      rw [Bytes.length_refill, Bytes.length_refill, hlength]

theorem fill_mirrors (h : t'.outline = t.outline) {init : Initializer} (hinit : init.Oblivious)
    (slice : LoadSlice) (hf : t.frame.length = pageSize) :
    Mirrors (Shares outline) Eq (fill init slice t) (fill init slice t') := by
  unfold fill
  refine (initFrame_mirrors h hinit slice hf).attempt_bind fun {outcome u u'} _ _ hu => ?_
  rw [Action.modify_bind, Action.modify_bind]
  exact .of_result
    (congrArg (fun o : Transfer => { o with inits := { init, slice, outcome } :: o.inits }) hu)

/-- Whether a page can be filled does not depend on the frame, nor on what its slot holds. -/
theorem populate_mirrors (h : t'.outline = t.outline) (hf : t.frame.length = pageSize)
    (hinit : ∀ u, t.page.kind = .unpopulated u → u.initializer.Oblivious) :
    Mirrors (Shares outline) Eq (populate t) (populate t') := by
  have hlength := length_of_alike h
  unfold populate
  rw [Action.get_bind, Action.get_bind, page_of_alike h]
  cases hkind : t.page.kind with
  | unpopulated u =>
    refine (fill_mirrors h (hinit u hkind) u.slice hf).bind fun _ _ _ hv => ?_
    have hbecomes : Mirrors (ε := PagerError) (Shares outline) Eq
        (Action.ofResult u.populated _) (Action.ofResult u.populated _) := .of_result hv
    refine hbecomes.bind fun {kind kind' _ _} _ _ heq hw => ?_
    exact heq ▸ setKind_mirrors hw kind
  | anonymous slot =>
    cases slot with
    | none =>
      refine .done rfl (alike_frame h ?_)
      rw [Bytes.length_zeros, Bytes.length_zeros, hlength]
    | some slot =>
      have hread := SwapTable.swapIn_mirrors (ε := PagerError) (swap_of_alike h) slot hlength
      have hread : Mirrors (ε := PagerError) (Shares outline) (fun x x' => x'.1.length = x.1.length ∧ x'.2 = x.2)
          (onSwap (SwapTable.swapIn slot t.frame) t) (onSwap (SwapTable.swapIn slot t'.frame) t') :=
        hread.within fun hswap => alike_swap h hswap
      refine hread.bind fun {x x' u u'} _ _ hx hu => ?_
      obtain ⟨bytes, r⟩ := x
      obtain ⟨bytes', r'⟩ := x'
      obtain ⟨hbytes, rfl⟩ : bytes'.length = bytes.length ∧ r' = r := hx
      have hset : Mirrors (ε := PagerError) (Shares outline) Eq (setFrame bytes u) (setFrame bytes' u') :=
        .done rfl (alike_frame hu hbytes)
      refine hset.bind fun _ _ _ hv => ?_
      have hresult : Mirrors (Shares outline) Eq (Action.ofResult r' _) (Action.ofResult r' _) :=
        .of_result hv
      exact hresult.bind fun _ _ _ hw => setKind_mirrors hw _
  | fileBacked file => exact load_mirrors h _ _ _

/-- A page is filled with the same bytes from the same backing. -/
theorem Populated.frame_eq {u u' : Transfer} (hp : Populated t u) (hp' : Populated t' u')
    (h : t'.outline = t.outline) (hf : t.frame.length = pageSize)
    (hinit : ∀ u, t.page.kind = .unpopulated u → u.initializer.Oblivious)
    (hslot : ∀ n, t.page.slot = some n → t'.swap.stored n = t.swap.stored n) :
    u'.frame = u.frame := by
  have hlength := length_of_alike h
  have hpage := page_of_alike h
  have hfiles := files_of_alike h
  cases hp with
  | first hkind hfill =>
    cases hp' with
    | first hkind' hfill' =>
      cases hkind.symm.trans (hpage ▸ hkind')
      have hfills := fill_fills (hlength.trans hf) hfill'
      rw [hfiles] at hfills
      exact (fill_fills hf hfill).unique (hinit _ hkind) hfills
    | blank hkind' | back hkind' | reload hkind' => cases hkind.symm.trans (hpage ▸ hkind')
  | blank hkind =>
    cases hp' with
    | blank hkind' => exact congrArg Bytes.zeros hlength
    | first hkind' | back hkind' | reload hkind' => cases hkind.symm.trans (hpage ▸ hkind')
  | back hkind =>
    cases hp' with
    | back hkind' =>
      cases hkind.symm.trans (hpage ▸ hkind')
      exact hslot _ (by rw [Page.slot, hkind])
    | first hkind' | blank hkind' | reload hkind' => cases hkind.symm.trans (hpage ▸ hkind')
  | reload hkind hload =>
    cases hp' with
    | reload hkind' hload' =>
      cases hkind.symm.trans (hpage ▸ hkind')
      obtain ⟨file, hfile, -, hframe⟩ := load_ok hload
      obtain ⟨file', hfile', -, hframe'⟩ := load_ok hload'
      cases hfile.symm.trans (hfiles ▸ hfile')
      rw [hframe, hframe', hlength]
    | first hkind' | blank hkind' | back hkind' => cases hkind.symm.trans (hpage ▸ hkind')

/-- The same bytes are written back in both. -/
theorem writeBack_mirrors (h : t'.outline = t.outline) (hframe : t'.frame = t.frame)
    (file : FileBacking) : Mirrors (Shares outline) Eq (writeBack file t) (writeBack file t') := by
  unfold writeBack
  rw [Action.get_bind, Action.get_bind, hframe]
  by_cases hcount : t.frame.length < file.readBytes
  · rw [if_pos hcount]
    exact .bug _
  · rw [if_neg hcount]
    refine (onFiles_mirrors h _).bind fun {written written' u u'} _ _ heq hu => ?_
    subst heq
    by_cases hshort : written ≠ file.readBytes
    · rw [if_pos hshort]
      exact .failed _ hu
    · rw [if_neg hshort]
      exact .done rfl hu

/-- Moving a page out fares the same, unless it is a page of a file and holds other bytes. -/
theorem evict_mirrors (h : t'.outline = t.outline) (dirty : Bool)
    (hframe : ∀ file, t.page.kind = .fileBacked file → t'.frame = t.frame) :
    Mirrors (Shares outline) Eq (evict dirty t) (evict dirty t') := by
  unfold evict
  rw [Action.get_bind, Action.get_bind, page_of_alike h]
  cases hkind : t.page.kind with
  | unpopulated u => exact .bug _
  | anonymous slot =>
    cases slot with
    | some slot => exact .bug _
    | none =>
      have hout : Mirrors (Shares outline) Eq (onSwap (SwapTable.swapOut t.frame) t)
          (onSwap (SwapTable.swapOut t'.frame) t') :=
        (SwapTable.swapOut_mirrors (swap_of_alike h) (length_of_alike h)).within
          fun hswap => alike_swap h hswap
      refine hout.bind fun {slot slot' _ _} _ _ heq hu => ?_
      exact heq ▸ setKind_mirrors hu _
  | fileBacked file =>
    cases dirty with
    | false => exact .done rfl h
    | true => exact writeBack_mirrors h (hframe file hkind) file

end Transfer

namespace Machine

variable {s s' : Machine} {id : SpaceId} {a : VirtualAddress} {address : PhysicalAddress}

/-- A frame is there in both machines or in neither. -/
theorem readFrame_bind_mirrors {α : Type} (h : s'.outline = s.outline)
    {alike : Machine → Machine → Prop} {R : α → α → Prop} {f f' : Bytes → Act α}
    (hf : ∀ {bytes bytes'}, s.pool.read address = .ok bytes →
      s'.pool.read address = .ok bytes' → bytes'.length = bytes.length →
        Mirrors alike R (f bytes s) (f' bytes' s')) :
    Mirrors alike R ((readFrame address >>= f) s) ((readFrame address >>= f') s') := by
  rcases FramePool.read_of_alike (pool_of_alike h) address with
    ⟨b, hb, hb'⟩ | ⟨bytes, bytes', hbytes, hbytes', hlength⟩
  · have hbug : ∀ u : Machine, u.pool.read address = .error b → readFrame address u = .error b := by
      intro u hu
      rw [readFrame, Action.get_bind, hu]
      rfl
    rw [Action.bind_eq_bug.2 (.inl (hbug s hb)), Action.bind_eq_bug.2 (.inl (hbug s' hb'))]
    exact .bug b
  · rw [readFrame_bind hbytes, readFrame_bind hbytes']
    exact hf hbytes hbytes' hlength

theorem writeFrame_mirrors (h : s'.outline = s.outline) (address : PhysicalAddress) (start : Nat)
    (bytes bytes' : Bytes) : Mirrors (Shares outline) Eq (writeFrame address start bytes s)
      (writeFrame address start bytes' s') := by
  unfold writeFrame
  rw [Action.get_bind, Action.get_bind]
  rcases FramePool.write_of_alike (pool_of_alike h) address start bytes bytes' with
    ⟨b, hb, hb'⟩ | ⟨pool, pool', hpool, hpool', halike⟩
  · rw [hb, hb']
    exact .bug b
  · rw [hpool, hpool']
    exact .done rfl (alike_pool h halike)

/-- A transfer fares in both machines as it does on the page and the two frames. -/
theorem transfer_mirrors (h : s'.outline = s.outline) {m : Action Transfer PagerError Unit}
    (hm : ∀ {sp p bytes bytes'}, s.spaces.get? id = some sp → sp.pages.get? a = some p →
      s.pool.read address = .ok bytes → s'.pool.read address = .ok bytes' →
      Transfer.outline ⟨p, bytes', s'.swap, s'.files, []⟩ =
        Transfer.outline ⟨p, bytes, s.swap, s.files, []⟩ →
      Mirrors (Shares Transfer.outline) Eq
        (m ⟨p, bytes, s.swap, s.files, []⟩) (m ⟨p, bytes', s'.swap, s'.files, []⟩)) :
    Mirrors (Shares outline) Eq (transfer id a address m s) (transfer id a address m s') := by
  refine page_bind_mirrors h h fun {sp p} hs hp => ?_
  refine readFrame_bind_mirrors h fun {bytes bytes'} hbytes hbytes' hlength => ?_
  rw [Action.get_bind, Action.get_bind]
  have hstart : Transfer.outline ⟨p, bytes', s'.swap, s'.files, []⟩ =
      Transfer.outline ⟨p, bytes, s.swap, s.files, []⟩ := by
    rw [Transfer.outline, Transfer.outline, Bytes.blank_eq_iff.2 hlength, swap_of_alike h,
      files_of_alike h]
  rcases (hm hs hp hbytes hbytes' hstart).outcome with
    ⟨b, hb, hb'⟩ | ⟨r, t, t', ht, ht', halike⟩
  · rw [hb, hb']
    exact .bug b
  · rw [ht, ht']
    have hset : outline { s' with
          swap := t'.swap
          files := t'.files
          inits := t'.inits.map (Prod.mk (Owner.mk id a)) ++ s'.inits } =
        outline { s with
          swap := t.swap
          files := t.files
          inits := t.inits.map (Prod.mk (Owner.mk id a)) ++ s.inits } := by
      rw [Transfer.files_of_alike halike, Transfer.inits_of_alike halike, inits_of_alike h]
      have hswap := alike_swap h (Transfer.swap_of_alike halike)
      exact alike_inits (alike_files hswap t.files) _
    refine (writeFrame_mirrors hset address 0 t.frame t'.frame).bind fun _ _ _ hu => ?_
    rw [Transfer.page_of_alike halike]
    exact ((blind_modifySpace id _).bind fun _ => .ofResult r).mirrors hu

end Machine
end Pager
