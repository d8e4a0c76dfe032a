import Pager.Proofs.Enrolment
import Pager.Proofs.Reckoning

/-!
What can end in a bug from outside. A run can only do so at a page that was registered
to take more than a page from its file, at the moment such a page is filled or written
back; every other check is met, whatever is asked of the machine and whatever fails.
-/
namespace Pager

/-- The addresses that are named are addresses. -/
def SpaceOp.Canonical : SpaceOp → Prop
  | fault _ _ _ stackPointer => AddressKind.virtual.Admits stackPointer
  | _ => True

def Op.Canonical : Op → Prop
  | onSpace _ address op => AddressKind.virtual.Admits address ∧ op.Canonical
  | _ => True

def SpaceOp.maps : SpaceOp → Bool
  | mmap .. => true
  | _ => false

def Op.maps : Op → Bool
  | onSpace _ _ op => op.maps
  | _ => false

/-- A page is registered that wants more of its file than a page holds. -/
def SpaceOp.Overreaches : SpaceOp → Prop
  | register _ _ _ slice => pageSize < slice.readBytes
  | _ => False

def Op.Overreaches : Op → Prop
  | onSpace _ _ op => op.Overreaches
  | _ => False

/-- The records of the space lie where user pages can, and its mappings were counted. -/
structure Space.Counted (count : Nat) (sp : Space) : Prop where
  lies : sp.Lies
  number_le : sp.nextMapping ≤ count + 1

theorem Space.counted_empty (count : Nat) : ({} : Space).Counted count where
  lies := by
    intro start record hrecord
    cases hrecord
  number_le := Nat.le_add_left 1 count

theorem Space.Counted.of_books {sp after : Space} {count more : Nat} (h : sp.Counted count)
    (hmappings : after.mappings = sp.mappings) (hnext : after.nextMapping = sp.nextMapping)
    (hmore : count ≤ more) : after.Counted more where
  lies := by
    intro start record hrecord
    rw [hmappings] at hrecord
    exact h.lies start record hrecord
  number_le := by
    rw [hnext]
    exact Nat.le_trans h.number_le (Nat.succ_le_succ hmore)

namespace Label

/-- Records and numbers of mappings stay. -/
def Steady : Label → Prop
  | number _ | record .. | unrecord .. => False
  | _ => True

variable {l : Label} {id : SpaceId}

theorem Founds.steady {refuses : Option PagerError} (h : l.Founds id refuses) : l.Steady := by
  cases l <;> trivial

end Label

/-- Apart from mapping, unmapping and teardown no operation touches what is recorded. -/
theorem SpaceOp.Makes.steady {op : SpaceOp} {s : Machine} {id : SpaceId} {a : VirtualAddress}
    {l : Label} (h : op.Makes s id a l) (hmap : op.maps = false) (hunmap : op ≠ .munmap)
    (hteardown : op ≠ .teardown) (hduplicate : ∀ refuses, op ≠ .duplicate refuses) : l.Steady := by
  cases l with
  | number | record | unrecord =>
    exfalso
    cases op with
    | mmap => cases hmap
    | munmap => exact hunmap rfl
    | teardown => exact hteardown rfl
    | duplicate refuses => exact hduplicate refuses rfl
    | pin | fault | touch =>
      rcases h with h | h
      · cases h
      · cases h
    | remove =>
      obtain ⟨_, h⟩ := h
      cases h
    | _ => cases h
  | _ => trivial

section

variable {m n : Moment} {l : Label} {P : Space → Prop}

theorem Move.each (hmove : Move l m n) (hl : l.Steady) (hempty : P {})
    (hkept : ∀ {sp after : Space}, after.mappings = sp.mappings →
      after.nextMapping = sp.nextMapping → P sp → P after)
    (hm : m.machine.Each P) : n.machine.Each P := by
  cases hmove with
  | note | turn | take | giveBack | scribble | request | handles | outside | switch | pin | spare
  | attempt | store => exact hm
  | mark hs | soil hs | adjust hs | evict _ _ hs | populate _ hs | lose _ hs | seat _ hs
  | unseat _ hs | register hs | remove hs =>
    refine hm.insert rfl (hkept ?_ ?_ (hm _ _ hs))
    · rfl
    · rfl
  | create => exact hm.insert rfl hempty
  | drop => exact hm.erase rfl
  | number | record | unrecord => cases hl

end

namespace Machine

variable {s t : Machine} {id : SpaceId} {a : VirtualAddress} {sp : Space} {b : Bug} {count : Nat}

theorem Each.mono {P Q : Space → Prop} (h : s.Each P) (hPQ : ∀ sp, P sp → Q sp) : s.Each Q :=
  fun id sp hs => hPQ sp (h id sp hs)

theorem Each.counted (h : s.Each (Space.Counted count)) {kinds : Label → Prop}
    (hmoves : Moves kinds ⟨s, none⟩ ⟨t, none⟩) (hl : ∀ l, kinds l → l.Steady) :
    t.Each (Space.Counted count) :=
  hmoves.preserves (P := fun n => n.machine.Each (Space.Counted count))
    (fun hkind hm hmove => hmove.each (hl _ hkind) (Space.counted_empty count)
      (fun hmappings hnext hsp => hsp.of_books hmappings hnext (Nat.le_refl _)) hm) h

/-- A mapping takes one number, and its record lies where it was asked for. -/
theorem mmap_counted {length : Nat} {writable : Bool} {file : Handle} {offset : Nat}
    {r : Except PagerError VirtualAddress}
    (run : mmap id a length writable file offset s = .ok (r, t))
    (hcounted : s.Each (Space.Counted count)) : t.Each (Space.Counted (count + 1)) := by
  have hmore : s.Each (Space.Counted (count + 1)) :=
    hcounted.mono fun sp hsp => hsp.of_books rfl rfl (Nat.le_succ _)
  rcases mmap_cases run with ⟨e, -, rfl | htrace⟩ |
    ⟨-, sp, pages, table, hs, -, haligned, hrange, -, -, ht, -⟩
  · exact hmore
  · cases htrace with
    | cons hhandles hrest =>
      cases hrest with
      | cons hnumber hrest =>
        cases hrest
        cases hhandles
        cases hnumber with
        | number hs =>
          have hsp := hcounted _ _ hs
          exact hmore.insert rfl ⟨hsp.lies, Nat.succ_le_succ hsp.number_le⟩
  · have hsp := hcounted _ _ hs
    refine hmore.insert ht ⟨?_, Nat.succ_le_succ hsp.number_le⟩
    intro start record hrecord
    have hrecord : (sp.mappings.insert a.value _).get? start = some record := hrecord
    rw [Table.get?_insert] at hrecord
    split at hrecord
    · rename_i hstart
      cases hrecord
      rw [hstart]
      exact pages_le_kernelBase haligned hrange
    · exact hsp.lies start record hrecord

theorem perform_counted (h : Coherent ⟨s, none⟩) {op : SpaceOp} {r : Except Failure Value}
    (hs : s.spaces.get? id = some sp) (run : perform id a op s = .ok (r, t))
    (hcounted : s.Each (Space.Counted count)) :
    t.Each (Space.Counted (count + if op.maps then 1 else 0)) := by
  have hmoves := perform_moves h run
  cases op with
  | teardown =>
    obtain ⟨q, hq, -⟩ := liftPager_eq_ok.1 run
    exact hcounted.erase (teardown_moves h hq).2.2
  | mmap length writable file offset =>
    rcases held_cases run with ⟨q, hq, -⟩ | ⟨-, rfl⟩
    · exact mmap_counted hq hcounted
    · exact hcounted.mono fun sp hsp => hsp.of_books rfl rfl (Nat.le_succ _)
  | munmap =>
    obtain ⟨q, hq, -⟩ := liftPager_eq_ok.1 run
    have hsp := hcounted _ _ hs
    obtain ⟨after, ht, hlies, hnext⟩ := munmap_lies h hs hsp.lies hq
    exact hcounted.insert ht ⟨hlies, hnext ▸ hsp.number_le⟩
  | duplicate refuses =>
    obtain ⟨q, hq, -⟩ := liftPager_eq_ok.1 run
    obtain ⟨w, hfound, ⟨-, rfl, -⟩ | ⟨-, -, ht, -⟩⟩ := duplicate_moves h hq
    · exact hcounted.counted hfound fun l hl => hl.steady
    · exact (hcounted.counted hfound fun l hl => hl.steady).erase ht
  | _ =>
    exact hcounted.counted hmoves fun l hl => hl.steady rfl (by rintro ⟨⟩) (by rintro ⟨⟩)
      (by rintro _ ⟨⟩)

theorem step_counted (h : Coherent ⟨s, none⟩) {op : Op} {r : Except Failure Value}
    (run : step op s = .ok (r, t)) (hcounted : s.Each (Space.Counted count)) :
    t.Each (Space.Counted (count + if op.maps then 1 else 0)) := by
  have hmoves := step_moves h run
  cases op with
  | onSpace id address op =>
    rcases onSpace_cases run with ⟨sp, hs, hrun⟩ | ⟨-, rfl⟩
    · exact perform_counted h hs hrun hcounted
    · exact hcounted.mono fun sp hsp => hsp.of_books rfl rfl (Nat.le_add_right ..)
  | createSpace =>
    refine hcounted.counted hmoves ?_
    rintro l (rfl | rfl)
    · trivial
    · trivial
  | unlock id =>
    refine hcounted.counted hmoves fun l hl => ?_
    cases l <;> trivial
  | _ =>
    refine hcounted.counted hmoves ?_
    rintro l rfl
    trivial

/-- Only a page that is registered to want too much ever does. -/
theorem run_fits {ops : List Op} {results : List (Except Failure Value)} (h : Coherent ⟨s, none⟩)
    (hrun : run ops s = .ok (results, t)) (hops : ∀ op ∈ ops, ¬ op.Overreaches) (hfits : s.Fits) :
    t.Fits := by
  refine fits_iff.2 (run_all (P := fun p => p.readBytes ≤ pageSize) (fun _ hle hp => ?_) h hrun
    (fun op hmem p hbrings => ?_) (fits_iff.1 hfits))
  · rw [Page.readBytes_resting] at hp ⊢
    exact Nat.le_trans hle hp
  · rw [Page.readBytes_resting]
    cases op with
    | onSpace id address op =>
      refine Nat.le_trans hbrings.readBytes_le ?_
      cases op with
      | register writable type init slice => exact Nat.not_lt.1 (hops _ hmem)
      | _ => exact Nat.le_refl _
    | _ => cases hbrings

variable {α β : Type}

theorem liftPager_eq_bug {m : Act α} {g : α → Value}
    (run : (do return g (← liftPager m) : StepAct Value) s = .error b) : m s = .error b := by
  rcases Action.bind_eq_bug.1 run with hbug | ⟨x, u, -, run⟩
  · exact Action.mapError_eq_bug.1 hbug
  · cases run

theorem requireHeld_bind_eq_bug {file : Handle} {f : Unit → StepAct β}
    (run : (requireHeld file >>= f) s = .error b) : f () s = .error b := by
  rcases Action.bind_eq_bug.1 run with hbug | ⟨_, u, hheld, run⟩
  · unfold requireHeld at hbug
    rw [Action.get_bind] at hbug
    split at hbug
    · cases hbug
    · cases hbug
  · unfold requireHeld at hheld
    rw [Action.get_bind] at hheld
    split at hheld
    · cases hheld
    · cases hheld
      exact run

theorem onFiles_bind_eq_bug {m : Action FileStore StoreError α} {g : α → Value}
    (run : (do return g (← onFiles m) : StepAct Value) s = .error b) : m s.files = .error b := by
  rcases Action.bind_eq_bug.1 run with hbug | ⟨x, u, -, run⟩
  · exact Action.mapError_eq_bug.1 (Action.within_eq_bug.1 hbug)
  · cases run

theorem requireIdle_bind_eq_bug {f : Unit → StepAct β}
    (run : (requireIdle id >>= f) s = .error b) :
    ∃ sp, s.spaces.get? id = some sp ∧ f () s = .error b := by
  rw [Action.bind_apply, requireIdle, Action.get_bind] at run
  cases hs : s.spaces.get? id with
  | none =>
    simp only [hs] at run
    cases run
  | some sp =>
    refine ⟨sp, rfl, ?_⟩
    cases hbusy : sp.busy with
    | true =>
      simp only [hs, hbusy, if_true] at run
      cases run
    | false =>
      simp only [hs, hbusy] at run
      exact run

/-- A request to a space ends in a bug only at a page that wants too much of its file. -/
theorem perform_eq_bug (h : Coherent ⟨s, none⟩) {op : SpaceOp} (hs : s.spaces.get? id = some sp)
    (hlies : sp.Lies) (hnext : op.maps = true → sp.nextMapping + 1 < 2 ^ 64)
    (hop : op.Canonical) (run : perform id a op s = .error b) :
    Overruns (op.Makes s id a) ⟨s, none⟩ b ∧ ¬ s.Fits := by
  have hspace : space id s ≠ .error b := by
    intro hbug
    unfold space at hbug
    rw [Action.get_bind, hs] at hbug
    cases hbug
  -- whoever adds no page too large has come upon an old one
  have hold : ∀ {kinds : Label → Prop}, Overruns kinds ⟨s, none⟩ b →
      (∀ l, kinds l → l.Fits) → Overruns kinds ⟨s, none⟩ b ∧ ¬ s.Fits :=
    fun hover hl => ⟨hover, hover.not_fits h hl⟩
  cases op with
  | teardown =>
    have hhalts := (teardown_halts h hs hlies (liftPager_eq_bug run)).2
    exact hold (hhalts.overruns h) fun l hl => hl.fits
  | registerAnonymous writable => exact absurd (liftPager_eq_bug run) (register_ne_bug hs)
  | register writable type init slice =>
    have hregister : Machine.register id a writable type init slice s = .error b := by
      dsimp only [perform] at run
      cases hfile : slice.file with
      | none =>
        rw [hfile] at run
        exact liftPager_eq_bug run
      | some file =>
        rw [hfile] at run
        exact liftPager_eq_bug (requireHeld_bind_eq_bug run)
    exact absurd hregister (register_ne_bug hs)
  | registerSegment file offset readBytes zeroBytes writable =>
    exact absurd (liftPager_eq_bug (requireHeld_bind_eq_bug run)) (registerSegment_ne_bug hs)
  | mmap length writable file offset =>
    exact absurd (liftPager_eq_bug (requireHeld_bind_eq_bug run)) (mmap_ne_bug hs (hnext rfl))
  | munmap => exact hold ((munmap_halts h hs hlies (liftPager_eq_bug run)).overruns h) fun l hl => hl.fits
  | remove => exact absurd (liftPager_eq_bug run) (remove_ne_bug h hs)
  | claim => exact hold (claim_eq_bug h hs (liftPager_eq_bug run)) fun l hl => hl.fits
  | pin =>
    obtain ⟨hover, hfits⟩ := hold (pin_eq_bug h hs (liftPager_eq_bug run)) fun l hl => hl.fits
    exact ⟨hover.mono fun l hl => .inl hl, hfits⟩
  | unpin => exact absurd (liftPager_eq_bug run) (unpin_ne_bug h hs)
  | lookup | count => exact absurd (liftPager_eq_bug run) hspace
  | setStackPointer | lock | refuseEntries => cases run
  | copyFrom length => exact hold (readUser_eq_bug h hs (liftPager_eq_bug run)) fun l hl => hl.fits
  | copyTo bytes => exact hold (writeUser_eq_bug h hs (liftPager_eq_bug run)) fun l hl => hl.fits
  | fault write user notPresent stackPointer =>
    rcases Action.liftM_bind_eq_bug.1 run with hbug | ⟨sp, -, run⟩
    · have hadmits : AddressKind.virtual.Admits stackPointer := hop
      rw [Address.make, if_pos hadmits] at hbug
      cases hbug
    · obtain ⟨hover, hfits⟩ := hold (serveFault_eq_bug h hs (liftPager_eq_bug run)) fun l hl => hl.2
      exact ⟨hover.mono fun l hl => hl.1, hfits⟩
  | duplicate refuses =>
    obtain ⟨hover, hfits⟩ := duplicate_eq_bug h hs (liftPager_eq_bug run)
    exact ⟨hover.mono fun l hl => .inl hl, hfits⟩
  | touch write => exact absurd (liftPager_eq_bug run) (touch_ne_bug hs)

theorem step_eq_bug (h : Coherent ⟨s, none⟩) {op : Op} (hcounted : s.Each (Space.Counted count))
    (hcount : (count + if op.maps then 1 else 0) < 2 ^ 63) (hop : op.Canonical)
    (run : step op s = .error b) : Overruns (op.Makes s) ⟨s, none⟩ b ∧ ¬ s.Fits := by
  cases op with
  | createSpace => cases run
  | onSpace id address op =>
    obtain ⟨hadmits, hop⟩ := hop
    obtain ⟨sp, hs, run⟩ := requireIdle_bind_eq_bug run
    have hsp := hcounted id sp hs
    have hnext : op.maps = true → sp.nextMapping + 1 < 2 ^ 64 := by
      intro hmaps
      have hcount : (count + if op.maps then 1 else 0) < 2 ^ 63 := hcount
      rw [if_pos hmaps] at hcount
      exact Nat.lt_of_le_of_lt (Nat.succ_le_succ hsp.number_le) (by omega)
    rcases Action.liftM_bind_eq_bug.1 run with hbug | ⟨a, ha, run⟩
    · rw [Address.make, if_pos hadmits] at hbug
      cases hbug
    · obtain ⟨-, rfl⟩ := Address.make_eq_ok.1 ha
      exact perform_eq_bug h hs hsp.lies hnext hop run
  | unlock id =>
    dsimp only [step] at run
    rw [Action.get_bind] at run
    split at run
    · cases run
    · cases run
  | openFile file =>
    have hbug := onFiles_bind_eq_bug (requireHeld_bind_eq_bug run)
    exact absurd hbug (FileStore.hold_ne_bug file)
  | closeFile file => cases run
  | writeFile file offset bytes =>
    have hbug := onFiles_bind_eq_bug (requireHeld_bind_eq_bug run)
    exact absurd hbug (FileStore.writeAt_ne_bug file bytes offset)
  | switchFile file switches => cases requireHeld_bind_eq_bug run
  | switchDisk switches => cases run

/-- A run that ends in a bug does so in one operation, on a machine with a page that wants too
much of its file. -/
theorem run_eq_bug {ops : List Op} (h : Coherent ⟨s, none⟩) (hcounted : s.Each (Space.Counted count))
    (hcount : count + ops.countP Op.maps < 2 ^ 63) (hops : ∀ op ∈ ops, op.Canonical)
    (hrun : run ops s = .error b) :
    ∃ before op after results t, ops = before ++ op :: after ∧ run before s = .ok (results, t) ∧
      step op t = .error b ∧ Overruns (op.Makes t) ⟨t, none⟩ b ∧ ¬ t.Fits := by
  induction ops generalizing s count with
  | nil => cases hrun
  | cons op ops ih =>
    have hop := hops op (List.mem_cons_self ..)
    have hmaps : (op :: ops).countP Op.maps =
        ops.countP Op.maps + if op.maps then 1 else 0 := List.countP_cons ..
    rw [run] at hrun
    rcases except_bind_eq_error.1 hrun with hstep | ⟨⟨r, u⟩, hstep, hrest⟩
    · obtain ⟨hover, hfits⟩ := step_eq_bug h hcounted (by omega) hop hstep
      exact ⟨[], op, ops, [], s, rfl, rfl, hstep, hover, hfits⟩
    · rcases except_bind_eq_error.1 hrest with hrun | ⟨_, -, hlast⟩
      · obtain ⟨before, op', after, results, t, rfl, hbefore, hend⟩ :=
          ih (h.moves (step_moves h hstep)) (step_counted h hstep hcounted) (by omega)
            (fun op hmem => hops op (List.mem_cons_of_mem _ hmem)) hrun
        refine ⟨op :: before, op', after, r :: results, t, rfl, ?_, hend⟩
        exact run_cons_eq_ok.2 ⟨r, u, results, hstep, hbefore, rfl⟩
      · cases hlast

/-- A machine starts on frames below 4 GiB and on sectors that fit a buffer. -/
theorem boot_ok {frames sectors : Nat} (files : List Bytes) (hframes : frames ≤ 2 ^ 20)
    (hsectors : sectors * sectorSize ≤ maxBufferSize) :
    ∃ start, boot frames sectors files = .ok start := by
  have hpool : FramePool.ofSize frames = .ok _ := FramePool.ofSize_eq_ok.2 ⟨hframes, rfl⟩
  have hdisk : Disk.ofSize sectors = .ok _ := if_neg (Nat.not_lt.2 hsectors)
  unfold boot
  rw [hpool, hdisk]
  exact ⟨_, rfl⟩

theorem boot_fits {frames sectors : Nat} {files : List Bytes}
    (h : boot frames sectors files = .ok s) : s.Fits := fits_iff.2 (boot_all h)

/-- A machine of no more than the memory that can be addressed starts, and every run of it ends,
unless an operation comes upon a page that was registered to take more than a page of its file. -/
theorem run_safe {frames sectors : Nat} (files : List Bytes) {ops : List Op}
    (hframes : frames ≤ 2 ^ 20) (hsectors : sectors * sectorSize ≤ maxBufferSize)
    (hmaps : ops.countP Op.maps < 2 ^ 63) (hops : ∀ op ∈ ops, op.Canonical) :
    ∃ start, boot frames sectors files = .ok start ∧
      ((∃ results t, run ops start = .ok (results, t)) ∨
        ∃ before op after results s, ops = before ++ op :: after ∧
          run before start = .ok (results, s) ∧ step op s = .error .bounds ∧
          Overruns (op.Makes s) ⟨s, none⟩ .bounds ∧ ∃ earlier ∈ before, earlier.Overreaches) := by
  obtain ⟨start, hboot⟩ := boot_ok files hframes hsectors
  refine ⟨start, hboot, ?_⟩
  have hcoherent := boot_coherent hboot
  have hempty := boot_spaces hboot
  have hcounted : start.Each (Space.Counted 0) := by
    intro id sp hs
    rw [hempty] at hs
    cases hs
  cases hrun : run ops start with
  | ok last => exact .inl ⟨last.1, last.2, rfl⟩
  | error b =>
    obtain ⟨before, op, after, results, t, hsplit, hbefore, hstep, hover, hnot⟩ :=
      run_eq_bug hcoherent hcounted (by omega) hops hrun
    obtain rfl : b = .bounds := hover.1
    refine .inr ⟨before, op, after, results, t, hsplit, hbefore, hstep, hover, ?_⟩
    by_contra hnone
    push Not at hnone
    exact hnot (run_fits hcoherent hbefore hnone (boot_fits hboot))

/-- A page is registered for a byte more of a file than it holds, and claimed in the end. -/
def overlong : List Op := [.createSpace,
  .onSpace 1 0x10000 (.register true .fileBacked none
    { file := some (FileStore.firstHandle 0), readBytes := pageSize + 1 }),
  .onSpace 1 0x20000 (.mmap 100 true (FileStore.firstHandle 0) 0),
  .onSpace 1 0x20000 (.copyTo [1, 2, 3]), .onSpace 1 0x10000 .claim, .createSpace]

/-- The claim is the bug, and without the page there is none. -/
theorem run_safe_of_overlong : ∃ start, boot 2 64 [[7]] = .ok start ∧
    run overlong start = .error .bounds ∧
    (∃ before op after results s, overlong = before ++ op :: after ∧
      run before start = .ok (results, s) ∧ step op s = .error .bounds ∧
      Overruns (op.Makes s) ⟨s, none⟩ .bounds ∧ ∃ earlier ∈ before, earlier.Overreaches) ∧
    ∃ results t, run (overlong.eraseIdx 1) start = .ok (results, t) := by
  have hcanonical : ∀ op ∈ overlong, op.Canonical := by
    simp [overlong, Op.Canonical, SpaceOp.Canonical, AddressKind.Admits]
  obtain ⟨start, hboot, hcase⟩ := @run_safe 2 64 [[7]] overlong (by decide) (by decide) (by decide)
    hcanonical
  have hbug : (boot 2 64 [[7]] >>= fun start => (run overlong start).map fun _ => ()) =
      .error .bounds := by decide +kernel
  have hend : (boot 2 64 [[7]] >>= fun start => run (overlong.eraseIdx 1) start >>= fun _ => .ok ()) =
      .ok () := by decide +kernel
  rw [hboot] at hbug hend
  have hbug : (run overlong start).map (fun _ => ()) = .error .bounds := hbug
  have hend : (run (overlong.eraseIdx 1) start >>= fun _ => .ok ()) = .ok () := hend
  obtain ⟨⟨results, t⟩, hlast, -⟩ := except_bind_eq_ok.1 hend
  cases hrun : run overlong start with
  | ok last =>
    rw [hrun] at hbug
    cases hbug
  | error b =>
    rw [hrun] at hbug
    cases hbug
    rcases hcase with ⟨results', t', hrun'⟩ | hcase
    · cases hrun.symm.trans hrun'
    · exact ⟨start, hboot, hrun, hcase, results, t, hlast⟩

end Machine
end Pager
