import Pager.Proofs.Copying
import Pager.Proofs.Gaining
import Pager.Proofs.Reachability

/-!
Paging is invisible. Whatever operations are carried out, on whatever spaces and
with whatever failures of the devices, the machine behaves as one that has all of
its anonymous memory at hand all the time: each operation means to the cells what
it says, and every byte that is read is the one that memory holds there.
-/
namespace Pager

/-- Operations that leave every directory willing to take entries. -/
def Op.Obliging : Op → Prop
  | .onSpace _ _ (.refuseEntries (some _)) | .onSpace _ _ (.duplicate (some _)) => False
  | _ => True

/-- An obliging operation tells no directory to refuse. -/
theorem Op.Obliging.adjusts {s : Machine} {op : Op} (h : op.Obliging) (hw : s.Willing)
    {refuses : Option PagerError} (hl : op.Makes s (.adjust refuses)) : refuses = none := by
  have hanswer : ∀ {id}, s.HasAnswer id refuses → refuses = none := by
    rintro id ⟨sp, hs, hanswer⟩
    rw [← hanswer]
    exact hw id sp hs
  cases op with
  | onSpace id address op =>
    cases op with
    | setStackPointer | lock => exact hanswer hl
    | refuseEntries error =>
      cases error with
      | none => exact hl
      | some e => exact h.elim
    | duplicate error =>
      cases error with
      | none => exact (hl.elim fun hfound => hfound.elim (fun he => he) fun he => he) False.elim
      | some e => exact h.elim
    | pin => exact (hl.elim False.elim False.elim)
    | fault => exact (hl.elim False.elim False.elim)
    | remove => exact (hl.elim fun _ hl => False.elim hl)
    | touch => exact hl.elim (fun he => by cases he) fun he => by cases he
    | _ => exact False.elim hl
  | unlock id => exact hanswer hl
  | createSpace => exact hl.elim (fun he => by cases he) fun he => by cases he
  | _ => cases hl

theorem Ideal.Performs.refused {m : Ideal} (id : SpaceId) (a : VirtualAddress) (op : SpaceOp)
    (failure : Failure) : m.Performs id a m op (.error failure) := by
  cases op with
  | claim | pin | copyFrom => exact Touches.refl
  | fault => exact ⟨m, .inl rfl, Touches.refl⟩
  | copyTo bytes => exact ⟨0, Touches.refl.stores_nil⟩
  | _ => rfl

/-- Pages that belong to mappings are pages of files. -/
theorem Coherent.filed_of_dismantles {m n : Moment} {l : Label} {id : SpaceId} (h : Coherent m)
    (hmove : Move l m n) (hl : l.Dismantles id) : l.Filed := by
  cases hmove with
  | unseat hf hs hp =>
    obtain ⟨-, mapping, hmapping⟩ := hl
    exact h.typed _ _ (Coherent.pageAt_eq hs hp) (by rw [hmapping]; rfl)
  | remove hs hp =>
    obtain ⟨-, mapping, hmapping⟩ := hl
    exact h.typed _ _ (Coherent.pageAt_eq hs hp) (by rw [hmapping]; rfl)
  | note | request | giveBack | unrecord => rfl
  | _ => cases hl

namespace Machine

variable {s t : Machine} {id : SpaceId} {a : VirtualAddress}

theorem flat_munmap (h : Coherent ⟨s, none⟩) {r : Except PagerError Unit}
    (run : munmap id a s = .ok (r, t)) : t.flat = s.flat :=
  h.keeps (munmap_moves h run).1 (·.machine.flat) fun hl hm hmove =>
    hm.flat_filed hmove (hm.filed_of_dismantles hmove hl)

theorem flat_mmap (h : Coherent ⟨s, none⟩) {length : Nat} {writable : Bool} {file : Handle}
    {offset : Nat} {r : Except PagerError VirtualAddress}
    (run : mmap id a length writable file offset s = .ok (r, t)) : t.flat = s.flat := by
  rcases mmap_cases run with ⟨e, -, hfailed⟩ | ⟨-, _, pages, _, -, -, -, -, hpages, -, -, -, htrace⟩
  · exact h.flat_still_moves (moves_of_failed hfailed) fun l hl => by cases l <;> first | rfl | cases hl
  · have hmoves : Moves Label.Filed ⟨s, none⟩ ⟨t, none⟩ := by
      refine moves_of_mapping htrace rfl rfl (fun p hp => ?_) rfl rfl
      obtain ⟨k, -, rfl⟩ := (mem_pageRun_iff hpages).1 hp
      rfl
    exact h.flat_filed_moves hmoves fun l hl => hl

theorem flat_teardown (h : Coherent ⟨s, none⟩) {r : Except PagerError Unit}
    (run : teardown id s = .ok (r, t)) :
    r = .ok () ∧ t.flat = fun pl => if pl.space = id then none else s.flat pl := by
  obtain ⟨hr, hmoves, hspaces⟩ := teardown_moves h run
  refine ⟨hr, funext fun pl => ?_⟩
  by_cases hpl : pl.space = id
  · rw [if_pos hpl]
    apply flat_of_none
    rw [Pager.pageAt, hspaces, hpl, Table.get?_erase, if_pos rfl, Option.bind_none]
  · rw [if_neg hpl]
    exact h.flat_elsewhere_moves hmoves fun l hl => hl.place?_ne hpl

theorem flat_remove (h : Coherent ⟨s, none⟩) {r : Except PagerError Unit}
    (run : remove id a s = .ok (r, t)) :
    (∃ e, r = .error e) ∧ t.flat = s.flat ∨
      r = .ok () ∧ t.flat = Function.update s.flat (.containing id a.value) none := by
  obtain ⟨sp, hs, ⟨-, rfl, rfl⟩ | ⟨p, directory, hp, rfl, hmoves, -, hspaces⟩⟩ :=
    remove_moves h run
  · exact .inl ⟨⟨_, rfl⟩, rfl⟩
  · refine .inr ⟨rfl, funext fun pl => ?_⟩
    rw [← Place.of_eq_containing]
    by_cases hpl : pl = .of id a
    · rw [hpl, Function.update_self]
      apply flat_of_none
      have hget : t.spaces.get? id = some { sp with pages := sp.pages.erase a, directory } := by
        rw [hspaces, Table.get?_insert_self]
      refine (pageAt_of_get? hget _).trans ?_
      exact (Table.get?_erase ..).trans (if_pos rfl)
    · rw [Function.update_of_ne hpl]
      apply h.flat_elsewhere_moves hmoves
      intro l hl hplace
      cases l with
      | unseat other p | remove other p =>
        cases hplace
        exact hpl hl.1
      | _ => cases hplace <;> cases hl

theorem flat_adjust (h : Coherent ⟨s, none⟩) {f : Space → Space} {r : Except PagerError Unit}
    (run : modifySpace id f s = .ok (r, t)) (refuses : Space → Option PagerError)
    (hf : ∀ sp, ∃ stackPointer busy, f sp = { sp with
      stackPointer, refusesEntries := refuses sp, busy }) : t.flat = s.flat := by
  rcases (adjust_moves run refuses hf).2 with rfl | ⟨sp, -, hmove⟩
  · rfl
  · exact h.flat_still hmove rfl

/-- A fault first registers a stack page, if at all. -/
theorem serveFault_performs (h : Coherent ⟨s, none⟩) (hw : s.Willing) {fault : PageFault}
    {r : Except PagerError Unit} (run : serveFault id fault s = .ok (r, t)) :
    ∃ grown, (grown = s.ideal ∨ grown.files = s.ideal.files ∧
      s.ideal.Gains (.single (.containing id fault.address.value)
        (Cell.first .anonymous none {})) grown) ∧
      grown.Touches (· = .containing id fault.address.value) t.ideal := by
  obtain ⟨u, hu, hmoves⟩ := serveFault_moves h run
  rw [Place.of_eq_containing] at hmoves
  rcases hu with rfl | ⟨_, hgrows⟩
  · obtain ⟨htouches, -⟩ := h.touches_moves hw hmoves fun l hl => hl.settles
    exact ⟨u.ideal, .inl rfl, htouches⟩
  · have hgrow : Moves (Label.Registers id s.files.held) ⟨s, none⟩ ⟨u, none⟩ := by
      refine hgrows.adds.moves fun p hp => ?_
      rw [List.mem_singleton.1 hp]
      exact ⟨Page.isNew_ofStack _, .of_anonymous rfl, hgrows.stands⟩
    have hwilling : u.Willing := hgrow.preserves (P := fun n => n.machine.Willing)
      (fun hl hm hmove => hmove.willing hm fun refuses he => by
        subst he
        exact False.elim hl) hw
    obtain ⟨htouches, -⟩ := (h.moves hgrow).touches_moves hwilling hmoves fun l hl => hl.settles
    exact ⟨u.ideal, .inr ⟨hgrows.adds.files, hgrows.adds.gains_ofStack⟩, htouches⟩

/-- An operation on a space does to memory what it says. -/
theorem perform_performs (h : Coherent ⟨s, none⟩) (hw : s.Willing) {op : SpaceOp}
    {r : Except Failure Value} (run : perform id a op s = .ok (r, t)) :
    s.ideal.Performs id a t.ideal op r := by
  cases op with
  | teardown =>
    obtain ⟨q, hq, rfl⟩ := liftPager_eq_ok.1 run
    obtain ⟨rfl, hflat⟩ := flat_teardown h hq
    exact hflat
  | registerAnonymous writable =>
    obtain ⟨q, hq, rfl⟩ := liftPager_eq_ok.1 run
    rcases register_cases hq with ⟨rfl, hadds⟩ | ⟨e, rfl, rfl⟩
    · exact hadds.gains_fresh
    · rfl
  | register writable type init slice =>
    rcases performRegister_cases run with ⟨q, -, hq, rfl⟩ | ⟨rfl, rfl⟩
    · rcases register_cases hq with ⟨rfl, hadds⟩ | ⟨e, rfl, rfl⟩
      · exact hadds.gains_fresh
      · rfl
    · rfl
  | registerSegment file offset readBytes zeroBytes writable =>
    rcases held_cases run with ⟨q, hq, rfl⟩ | ⟨rfl, rfl⟩
    · rcases registerSegment_cases hq with ⟨rfl, haligned, htotal, pages, hpages, hadds⟩ |
        ⟨e, rfl, rfl⟩
      · exact hadds.gains_segment haligned htotal hpages
      · rfl
    · rfl
  | mmap length writable file offset =>
    rcases held_cases run with ⟨q, hq, rfl⟩ | ⟨rfl, rfl⟩
    · exact flat_mmap h hq
    · rfl
  | munmap =>
    obtain ⟨q, hq, rfl⟩ := liftPager_eq_ok.1 run
    exact flat_munmap h hq
  | remove =>
    obtain ⟨q, hq, rfl⟩ := liftPager_eq_ok.1 run
    rcases flat_remove h hq with ⟨⟨e, rfl⟩, hflat⟩ | ⟨rfl, hflat⟩
    · exact hflat
    · exact hflat
  | claim =>
    obtain ⟨q, hq, rfl⟩ := liftPager_eq_ok.1 run
    have hmoves := (claim_moves h hq).1
    rw [Place.of_eq_containing] at hmoves
    exact (h.touches_moves hw hmoves fun l hl => hl.settles).1
  | pin =>
    obtain ⟨q, hq, rfl⟩ := liftPager_eq_ok.1 run
    have hmoves := pin_moves h hq
    rw [Place.of_eq_containing] at hmoves
    refine (h.touches_moves hw hmoves fun l hl => ?_).1
    exact hl.elim (fun hl => hl.settles) fun hl => hl.settles _
  | unpin =>
    obtain ⟨q, hq, rfl⟩ := liftPager_eq_ok.1 run
    exact h.flat_still_moves (unpin_moves hq) fun l hl => by cases l <;> first | rfl | cases hl
  | lookup | count =>
    obtain ⟨q, hq, -⟩ := liftPager_eq_ok.1 run
    rw [(space_eq_ok hq).1]
    rfl
  | setStackPointer | lock =>
    obtain ⟨q, hq, -⟩ := liftPager_eq_ok.1 run
    exact flat_adjust h hq Space.refusesEntries fun sp => ⟨_, _, rfl⟩
  | refuseEntries error =>
    obtain ⟨q, hq, -⟩ := liftPager_eq_ok.1 run
    exact flat_adjust h hq (fun _ => error) fun sp => ⟨_, _, rfl⟩
  | copyFrom length =>
    obtain ⟨q, hq, rfl⟩ := liftPager_eq_ok.1 run
    obtain ⟨htouches, hyields⟩ := readUser_yields h hw hq
    cases q with
    | error e => exact htouches
    | ok bytes => exact ⟨htouches, hyields bytes rfl⟩
  | copyTo bytes =>
    obtain ⟨q, hq, rfl⟩ := liftPager_eq_ok.1 run
    rcases writeUser_stores h hw hq with ⟨rfl, hstores⟩ | ⟨⟨e, rfl⟩, hstores⟩
    · exact hstores
    · exact hstores
  | fault write user notPresent stackPointer =>
    obtain ⟨sp, -, hrun⟩ := Action.liftM_bind_eq_ok.1 run
    obtain ⟨q, hq, -⟩ := liftPager_eq_ok.1 hrun
    have hgrown := serveFault_performs h hw hq
    dsimp only at hgrown
    exact hgrown
  | duplicate refuses =>
    obtain ⟨q, hq, rfl⟩ := liftPager_eq_ok.1 run
    obtain ⟨w, -, ⟨rfl, -, hflat⟩ | ⟨⟨e, rfl⟩, -, -, hflat⟩⟩ := duplicate_moves h hq
    · refine ⟨fun pl hpl => ?_, hflat⟩
      apply flat_of_none
      rw [Pager.pageAt, hpl, h.fresh s.nextSpace (Nat.le_refl _), Option.bind_none]
    · exact hflat
  | touch write =>
    obtain ⟨q, hq, -⟩ := liftPager_eq_ok.1 run
    refine h.flat_still_moves (touch_moves hq) ?_
    rintro _ (rfl | rfl)
    · rfl
    · rfl

theorem step_performs (h : Coherent ⟨s, none⟩) (hw : s.Willing) {op : Op}
    {r : Except Failure Value} (run : step op s = .ok (r, t)) : s.ideal.Step t.ideal op r := by
  cases op with
  | createSpace =>
    obtain ⟨q, hq, -⟩ := liftPager_eq_ok.1 run
    have hmoves : Moves (fun l => l.place? = none) ⟨s, none⟩ ⟨t, none⟩ :=
      .of_trace (createSpace_moves hq).2.1 (by simp [Label.place?])
    exact h.flat_still_moves hmoves fun l hl => hl
  | onSpace id address op =>
    rcases onSpace_cases run with ⟨-, -, hrun⟩ | ⟨⟨reason, rfl⟩, rfl⟩
    · exact perform_performs h hw hrun
    · exact Ideal.Performs.refused ..
  | unlock id =>
    dsimp only [step] at run
    rw [Action.get_bind] at run
    by_cases hspace : (!s.spaces.contains id) = true
    · rw [if_pos hspace] at run
      cases run
      rfl
    · rw [if_neg hspace] at run
      obtain ⟨q, hq, -⟩ := liftPager_eq_ok.1 run
      exact flat_adjust h hq Space.refusesEntries fun sp => ⟨_, _, rfl⟩
  | openFile file | writeFile file =>
    rcases requireHeld_bind_eq_ok.1 run with ⟨-, hrun⟩ | ⟨-, -, rfl⟩
    · rcases onFiles_bind_eq_ok.1 hrun with ⟨_, files, -, hlast⟩ | ⟨_, files, -, -, rfl⟩
      · cases hlast
        rfl
      · rfl
    · rfl
  | closeFile file =>
    cases run
    rfl
  | switchFile file switches =>
    rcases requireHeld_bind_eq_ok.1 run with ⟨-, hrun⟩ | ⟨-, -, rfl⟩
    · cases hrun
      rfl
    · rfl
  | switchDisk switches =>
    cases run
    exact h.flat_still (.switch switches) rfl

/-- Taking away pages that does not succeed takes away nothing. -/
theorem flat_of_refused {address : Nat} {op : SpaceOp} {e : Failure} (h : Coherent ⟨s, none⟩)
    (hop : op = .remove ∨ op = .teardown)
    (run : step (.onSpace id address op) s = .ok (.error e, t)) : t.flat = s.flat := by
  rcases onSpace_cases run with ⟨-, -, hrun⟩ | ⟨-, rfl⟩
  · rcases hop with rfl | rfl
    · obtain ⟨q, hq, hr⟩ := liftPager_eq_ok.1 hrun
      rcases flat_remove h hq with ⟨-, hflat⟩ | ⟨rfl, -⟩
      · exact hflat
      · cases hr
    · obtain ⟨q, hq, hr⟩ := liftPager_eq_ok.1 hrun
      obtain ⟨rfl, -⟩ := flat_teardown h hq
      cases hr
  · rfl

theorem step_willing (h : Coherent ⟨s, none⟩) (hw : s.Willing) {op : Op} (hop : op.Obliging)
    {r : Except Failure Value} (run : step op s = .ok (r, t)) : t.Willing := by
  refine (step_moves h run).preserves (P := fun n => n.machine.Willing) ?_ hw
  intro l m n hl hm hmove
  apply hmove.willing hm
  rintro refuses rfl
  exact hop.adjusts hw hl

theorem run_willing {ops : List Op} {results : List (Except Failure Value)}
    (h : Coherent ⟨s, none⟩) (hw : s.Willing) (hops : ∀ op ∈ ops, op.Obliging)
    (hrun : run ops s = .ok (results, t)) : t.Willing := by
  exact run_keep h (fun op hop {_ _ _} hu hwu hstep => step_willing hu hwu (hops op hop) hstep) hw hrun

/-- A machine that was just started has no directory that could refuse anything. -/
theorem boot_willing {frames sectors : Nat} {files : List Bytes} {start : Machine}
    (hboot : boot frames sectors files = .ok start) : start.Willing := by
  intro id sp hs
  cases (boot_spaces hboot id).symm.trans hs

theorem run_performs {ops : List Op} {results : List (Except Failure Value)}
    (h : Coherent ⟨s, none⟩) (hw : s.Willing) (hops : ∀ op ∈ ops, op.Obliging)
    (hrun : run ops s = .ok (results, t)) :
    Ideal.Run s.ideal ops results ((visited ops s).map ideal) := by
  induction ops generalizing s results with
  | nil =>
    cases hrun
    exact .nil
  | cons op ops ih =>
    obtain ⟨r, u, rest, hstep, hrest, rfl⟩ := run_cons_eq_ok.1 hrun
    have hop := hops op (List.mem_cons_self ..)
    have hmoves := step_moves h hstep
    have htail := ih (h.moves hmoves) (step_willing h hw hop hstep)
      (fun other hother => hops other (List.mem_cons_of_mem _ hother)) hrest
    rw [visited, hstep]
    exact .cons (step_performs h hw hstep) htail

/-- Paging is invisible for anonymous memory: a machine that was just started has no memory, and
what every operation does and answers from then on is what it does and answers on memory itself. -/
theorem paging_invisible {frames sectors : Nat} {files : List Bytes} {start last : Machine}
    {ops : List Op} {results : List (Except Failure Value)}
    (hboot : boot frames sectors files = .ok start) (hops : ∀ op ∈ ops, op.Obliging)
    (hrun : run ops start = .ok (results, last)) :
    start.flat = (fun _ => none) ∧
      Ideal.Run start.ideal ops results ((visited ops start).map ideal) := by
  have hspaces : ∀ id, start.spaces.get? id = none := by
    unfold boot at hboot
    obtain ⟨pool, -, hboot⟩ := except_bind_eq_ok.1 hboot
    obtain ⟨disk, -, hboot⟩ := except_bind_eq_ok.1 hboot
    cases hboot
    exact fun _ => rfl
  constructor
  · funext pl
    apply flat_of_none
    rw [Pager.pageAt, hspaces, Option.bind_none]
  · refine run_performs (boot_coherent hboot) (fun id sp hs => ?_) hops hrun
    rw [hspaces] at hs
    cases hs

/-- A byte is stored in a page, another page is claimed, and the byte is read again. -/
def takingTurns : List Op := [.createSpace, .onSpace 1 0x10000 (.registerAnonymous true),
  .onSpace 1 0x11000 (.registerAnonymous true), .onSpace 1 0x10000 (.copyTo [7]),
  .onSpace 1 0x11000 .claim, .onSpace 1 0x10000 (.copyFrom 1)]

/-- With a single frame both pages are moved out in turn. -/
theorem paging_invisible_of_takingTurns : ∃ start results last,
    boot 1 16 [] = .ok start ∧ run takingTurns start = .ok (results, last) ∧
    (results[5]?.bind fun r => match r with
      | .ok (.bytes bytes) => some bytes
      | _ => none) = some [7] ∧
    last.evictions = 2 ∧ start.flat = (fun _ => none) ∧
    Ideal.Run start.ideal takingTurns results ((visited takingTurns start).map ideal) := by
  have hend : (boot 1 16 [] >>= fun start => run takingTurns start >>= fun last =>
      .ok (last.1[5]?.bind fun r => match r with
        | .ok (.bytes bytes) => some bytes
        | _ => none, last.2.evictions)) = .ok (some [7], 2) := by decide +kernel
  obtain ⟨start, hboot, hend⟩ := except_bind_eq_ok.1 hend
  obtain ⟨⟨results, last⟩, hrun, hend⟩ := except_bind_eq_ok.1 hend
  obtain ⟨hread, hevictions⟩ := Prod.mk.inj (Except.ok.inj hend)
  have hops : ∀ op ∈ takingTurns, op.Obliging := by simp [takingTurns, Op.Obliging]
  exact ⟨start, results, last, hboot, hrun, hread, hevictions, paging_invisible hboot hops hrun⟩

end Machine
end Pager
