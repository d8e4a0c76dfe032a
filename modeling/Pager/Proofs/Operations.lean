import Pager.Machine.Operation
import Pager.Proofs.Access
import Pager.Proofs.Duplication

/-!
Whole operations as moves, and with them every run. A machine that was just
started is coherent, so every machine that operations can lead to is, whatever
the operations are and whichever of them failed.
-/
namespace Pager

namespace Label

/-- A mapping is entered with its pages, which refer to a handle of their own. -/
def Maps (id : SpaceId) (serial : Nat) : Label → Prop
  | handles | note => True
  | number other | record other _ _ => other = id
  | register pl page => pl.space = id ∧ page.mapping.isSome = true ∧
      (∃ file, page.handle = some ⟨file, serial⟩) ∧ page.Stands
  | _ => False

/-- A space's own bookkeeping is changed, and its directory told what to answer. -/
def Adjusts (answers : Option PagerError → Prop) : Label → Prop
  | adjust refuses => answers refuses
  | _ => False

end Label

/-- What a space's directory answers to new entries. -/
def Machine.HasAnswer (s : Machine) (id : SpaceId) (refuses : Option PagerError) : Prop :=
  ∃ sp, s.spaces.get? id = some sp ∧ sp.refusesEntries = refuses

/-- The moves that an operation on a space may make. -/
def SpaceOp.Makes (s : Machine) (id : SpaceId) (a : VirtualAddress) : SpaceOp → Label → Prop
  | teardown => Label.Clears id
  | registerAnonymous _ | register .. | registerSegment .. => Label.Registers id s.files.held
  | mmap .. => Label.Maps id s.files.nextSerial
  | munmap => Label.Dismantles id
  | remove => fun l => ∃ mapping, l.Removes (.of id a) mapping
  | claim => Label.Claims (· = .of id a)
  | pin => fun l => l.Claims (· = .of id a) ∨ l.Pins
  | unpin => Label.Pins
  | lookup | count => fun _ => False
  | setStackPointer | lock => Label.Adjusts (s.HasAnswer id)
  | copyFrom _ | copyTo _ => Label.Copies id
  | fault .. => fun l => l.Registers id s.files.held ∨ l.Claims (· = .of id a)
  | duplicate refuses => fun l => l.Founds s.nextSpace refuses ∨ l.Clears s.nextSpace
  | touch _ => fun l => l = .mark ∨ l = .soil (.of id a)
  | refuseEntries error => Label.Adjusts (· = error)

/-- The moves that an operation may make. -/
def Op.Makes (s : Machine) : Op → Label → Prop
  | createSpace => fun l => l = .create s.nextSpace ∨ l = .note
  | onSpace id address op => op.Makes s id ⟨address⟩
  | unlock id => Label.Adjusts (s.HasAnswer id)
  | openFile _ | closeFile _ | writeFile .. | switchFile .. => (· = .outside)
  | switchDisk _ => (· = .switch)

namespace Machine

variable {s t : Machine} {id : SpaceId} {a : VirtualAddress} {α β : Type}

theorem liftPager_bind_eq_ok {m : Act α} {f : α → StepAct β} {r : Except Failure β} :
    (liftPager m >>= f) s = .ok (r, t) ↔
      (∃ x u, m s = .ok (.ok x, u) ∧ f x u = .ok (r, t)) ∨
        ∃ e, m s = .ok (.error e, t) ∧ r = .error (.pager e) := by
  rw [Action.bind_eq_ok]
  constructor
  · rintro (⟨x, u, hm, hf⟩ | ⟨e, hm, rfl⟩)
    · obtain ⟨q, hq, hx⟩ := Action.mapError_eq_ok.1 hm
      cases q with
      | error e => cases hx
      | ok y =>
        cases hx
        exact .inl ⟨x, u, hq, hf⟩
    · obtain ⟨q, hq, he⟩ := Action.mapError_eq_ok.1 hm
      cases q with
      | ok y => cases he
      | error e' =>
        cases he
        exact .inr ⟨e', hq, rfl⟩
  · rintro (⟨x, u, hm, hf⟩ | ⟨e, hm, rfl⟩)
    · exact .inl ⟨x, u, Action.mapError_eq_ok.2 ⟨_, hm, rfl⟩, hf⟩
    · exact .inr ⟨_, Action.mapError_eq_ok.2 ⟨_, hm, rfl⟩, rfl⟩

/-- An operation that is carried out in one go. -/
theorem liftPager_eq_ok {m : Act α} {g : α → Value} {r : Except Failure Value} :
    (do return g (← liftPager m) : StepAct Value) s = .ok (r, t) ↔
      ∃ q, m s = .ok (q, t) ∧ r = (q.map g).mapError .pager := by
  rw [liftPager_bind_eq_ok]
  constructor
  · rintro (⟨x, u, hm, hpure⟩ | ⟨e, hm, rfl⟩)
    · cases hpure
      exact ⟨_, hm, rfl⟩
    · exact ⟨_, hm, rfl⟩
  · rintro ⟨q, hm, rfl⟩
    cases q with
    | ok x => exact .inl ⟨x, t, hm, rfl⟩
    | error e => exact .inr ⟨e, hm, rfl⟩

theorem requireHeld_bind_eq_ok {file : Handle} {f : Unit → StepAct α} {r : Except Failure α} :
    (requireHeld file >>= f) s = .ok (r, t) ↔
      (file ∈ s.files.held ∧ f () s = .ok (r, t)) ∨
        (file ∉ s.files.held ∧ r = .error (.refused .noFile) ∧ t = s) := by
  by_cases hheld : file ∈ s.files.held
  · have hrun : requireHeld file s = .ok (.ok (), s) := by
      unfold requireHeld
      rw [Action.get_bind, if_neg (by simpa using hheld)]
      rfl
    rw [Action.bind_of_ok hrun]
    simp [hheld]
  · have hrun : requireHeld file s = .ok (.error (.refused .noFile), s) := by
      unfold requireHeld
      rw [Action.get_bind, if_pos (by simpa using hheld)]
      rfl
    rw [Action.bind_apply, hrun]
    simp only [Except.ok.injEq, Prod.mk.injEq, hheld, false_and, false_or, not_false_eq_true,
      true_and]
    exact and_congr eq_comm eq_comm

/-- An operation that needs a handle is refused without it, and otherwise carried out. -/
theorem held_cases {file : Handle} {m : Act α} {g : α → Value} {r : Except Failure Value}
    (run : (do requireHeld file; return g (← liftPager m) : StepAct Value) s = .ok (r, t)) :
    (∃ q, m s = .ok (q, t) ∧ r = (q.map g).mapError .pager) ∨
      r = .error (.refused .noFile) ∧ t = s := by
  rcases requireHeld_bind_eq_ok.1 run with ⟨-, hrun⟩ | ⟨-, hr, ht⟩
  · exact .inl (liftPager_eq_ok.1 hrun)
  · exact .inr ⟨hr, ht⟩

theorem performRegister_cases {writable : Bool} {type : PageType} {init : Option Initializer}
    {slice : LoadSlice} {r : Except Failure Value}
    (run : perform id a (.register writable type init slice) s = .ok (r, t)) :
    (∃ q, (∀ file, slice.file = some file → file ∈ s.files.held) ∧
      register id a writable type init slice s = .ok (q, t) ∧
      r = (q.map fun _ => Value.unit).mapError .pager) ∨
      r = .error (.refused .noFile) ∧ t = s := by
  dsimp only [perform] at run
  cases hfile : slice.file with
  | none =>
    rw [hfile] at run
    obtain ⟨q, hq, hr⟩ := liftPager_eq_ok.1 run
    exact .inl ⟨q, fun _ hnone => (by cases hnone), hq, hr⟩
  | some file =>
    rw [hfile] at run
    rcases requireHeld_bind_eq_ok.1 run with ⟨hheld, hrun⟩ | ⟨-, hr, ht⟩
    · obtain ⟨q, hq, hr⟩ := liftPager_eq_ok.1 hrun
      refine .inl ⟨q, fun other hother => ?_, hq, hr⟩
      cases hother
      exact hheld
    · exact .inr ⟨hr, ht⟩

/-- An operation on a space that is not there, or busy, is refused and changes nothing. -/
theorem requireIdle_cases {f : Unit → StepAct α} {r : Except Failure α}
    (run : (requireIdle id >>= f) s = .ok (r, t)) :
    (∃ sp, s.spaces.get? id = some sp ∧ sp.busy = false ∧ f () s = .ok (r, t)) ∨
      ((∃ reason, r = .error (.refused reason)) ∧ t = s) := by
  rw [Action.bind_eq_ok] at run
  unfold requireIdle at run
  rw [Action.get_bind] at run
  cases hs : s.spaces.get? id with
  | none =>
    rw [hs] at run
    rcases run with ⟨_, u, hrun, -⟩ | ⟨e, hrun, rfl⟩
    · cases hrun
    · cases hrun
      exact .inr ⟨⟨_, rfl⟩, rfl⟩
  | some sp =>
    rw [hs] at run
    cases hbusy : sp.busy with
    | true =>
      simp only [hbusy, if_true] at run
      rcases run with ⟨_, u, hrun, -⟩ | ⟨e, hrun, rfl⟩
      · cases hrun
      · cases hrun
        exact .inr ⟨⟨_, rfl⟩, rfl⟩
    | false =>
      simp only [hbusy] at run
      rcases run with ⟨_, u, hrun, hnext⟩ | ⟨e, hrun, -⟩
      · cases hrun
        exact .inl ⟨sp, rfl, hbusy, hnext⟩
      · cases hrun

/-- An operation on a space is carried out, or the space is not there, or busy, and it is refused
and changes nothing. -/
theorem onSpace_cases {address : Nat} {op : SpaceOp} {r : Except Failure Value}
    (run : step (.onSpace id address op) s = .ok (r, t)) :
    (∃ sp, s.spaces.get? id = some sp ∧ perform id ⟨address⟩ op s = .ok (r, t)) ∨
      ((∃ reason, r = .error (.refused reason)) ∧ t = s) := by
  rcases requireIdle_cases run with ⟨sp, hs, -, hidle⟩ | hrefused
  · obtain ⟨a, ha, hidle⟩ := Action.liftM_bind_eq_ok.1 hidle
    obtain ⟨-, rfl⟩ := Address.make_eq_ok.1 ha
    exact .inl ⟨sp, hs, hidle⟩
  · exact .inr hrefused

/-- An operation on a space that succeeded was carried out. -/
theorem of_idle {address : Nat} {op : SpaceOp} {value : Value}
    (run : step (.onSpace id address op) s = .ok (.ok value, t)) :
    perform id ⟨address⟩ op s = .ok (.ok value, t) := by
  rcases onSpace_cases run with ⟨-, -, hrun⟩ | ⟨⟨_, hr⟩, -⟩
  · exact hrun
  · cases hr

theorem space_eq_ok {r : Except PagerError Space} (run : space id s = .ok (r, t)) :
    t = s ∧ ∃ sp, s.spaces.get? id = some sp ∧ r = .ok sp := by
  unfold space at run
  rw [Action.get_bind] at run
  cases hs : s.spaces.get? id with
  | none =>
    rw [hs] at run
    cases run
  | some sp =>
    rw [hs] at run
    cases run
    exact ⟨rfl, sp, rfl, rfl⟩

/-- Changing what a space's own bookkeeping says is one move, or nothing if it does not exist. -/
theorem adjust_moves {f : Space → Space} {r : Except PagerError Unit}
    (run : modifySpace id f s = .ok (r, t)) (refuses : Space → Option PagerError)
    (hf : ∀ sp, ∃ stackPointer busy, f sp = { sp with
      stackPointer, refusesEntries := refuses sp, busy }) :
    r = .ok () ∧ (t = s ∨ ∃ sp, s.spaces.get? id = some sp ∧
      Move (.adjust (refuses sp)) ⟨s, none⟩ ⟨t, none⟩) := by
  cases run
  refine ⟨rfl, ?_⟩
  cases hs : s.spaces.get? id with
  | none =>
    refine .inl ?_
    show { s with spaces := s.spaces.modify id f } = s
    rw [Table.modify_of_none hs]
  | some sp =>
    obtain ⟨stackPointer, busy, he⟩ := hf sp
    refine .inr ⟨sp, rfl, ?_⟩
    show Move _ _ ⟨{ s with spaces := s.spaces.modify id f }, none⟩
    rw [Table.modify_eq_insert hs, he]
    exact .adjust hs stackPointer (refuses sp) busy

theorem adjust_makes {f : Space → Space} {r : Except PagerError Unit}
    {answers : Option PagerError → Prop} (refuses : Space → Option PagerError)
    (run : modifySpace id f s = .ok (r, t))
    (hf : ∀ sp, ∃ stackPointer busy, f sp = { sp with
      stackPointer, refusesEntries := refuses sp, busy })
    (hasked : ∀ sp, s.spaces.get? id = some sp → answers (refuses sp)) :
    Moves (Label.Adjusts answers) ⟨s, none⟩ ⟨t, none⟩ := by
  rcases (adjust_moves run refuses hf).2 with rfl | ⟨sp, hs, hmove⟩
  · exact .refl
  · exact .single hmove (hasked sp hs)

theorem mmap_moves {length : Nat} {writable : Bool} {file : Handle} {offset : Nat}
    {r : Except PagerError VirtualAddress}
    (run : mmap id a length writable file offset s = .ok (r, t)) :
    Moves (Label.Maps id s.files.nextSerial) ⟨s, none⟩ ⟨t, none⟩ := by
  rcases mmap_cases run with ⟨e, -, hfailed⟩ | ⟨-, _, pages, _, -, -, -, -, hpages, -, -, -, htrace⟩
  · apply (moves_of_failed hfailed).mono
    intro l hl
    cases l <;> first | exact hl | cases hl
  · refine moves_of_mapping htrace trivial rfl (fun p hp => ?_) rfl trivial
    obtain ⟨k, -, rfl⟩ := (mem_pageRun_iff hpages).1 hp
    exact ⟨rfl, rfl, ⟨file.file, rfl⟩, .of_unstacked rfl⟩

/-- An operation on a space consists of its moves. -/
theorem perform_moves (h : Coherent ⟨s, none⟩) {op : SpaceOp} {r : Except Failure Value}
    (run : perform id a op s = .ok (r, t)) : Moves (op.Makes s id a) ⟨s, none⟩ ⟨t, none⟩ := by
  cases op with
  | teardown =>
    obtain ⟨q, hq, -⟩ := liftPager_eq_ok.1 run
    exact (teardown_moves h hq).2.1
  | registerAnonymous writable =>
    obtain ⟨q, hq, -⟩ := liftPager_eq_ok.1 run
    rcases register_cases hq with ⟨-, ha⟩ | ⟨e, -, rfl⟩
    · refine ha.moves fun p hp => ?_
      rw [List.mem_singleton.1 hp]
      exact ⟨Page.isNew_fresh .., .of_anonymous rfl, .of_unstacked rfl⟩
    · exact .refl
  | register writable type init slice =>
    rcases performRegister_cases run with ⟨q, hheld, hq, -⟩ | ⟨-, rfl⟩
    · rcases register_cases hq with ⟨rfl, ha⟩ | ⟨e, -, rfl⟩
      · refine ha.moves fun p hp => ?_
        rw [List.mem_singleton.1 hp]
        refine ⟨Page.isNew_fresh .., ?_, .of_unstacked rfl⟩
        rintro (rfl : type = .fileBacked)
        obtain ⟨file, hfile⟩ := register_filed hq
        exact ⟨file, hheld file hfile, hfile⟩
      · exact .refl
    · exact .refl
  | registerSegment file offset readBytes zeroBytes writable =>
    rcases held_cases run with ⟨q, hq, -⟩ | ⟨-, rfl⟩
    · rcases registerSegment_cases hq with ⟨-, -, -, pages, hpages, ha⟩ | ⟨e, -, rfl⟩
      · refine ha.moves fun p hp => ?_
        obtain ⟨k, -, rfl⟩ := (mem_pageRun_iff hpages).1 hp
        exact ⟨Page.isNew_fresh .., .of_anonymous rfl, .of_unstacked rfl⟩
      · exact .refl
    · exact .refl
  | mmap length writable file offset =>
    rcases held_cases run with ⟨q, hq, -⟩ | ⟨-, rfl⟩
    · exact mmap_moves hq
    · exact .refl
  | munmap =>
    obtain ⟨q, hq, -⟩ := liftPager_eq_ok.1 run
    exact (munmap_moves h hq).1
  | remove =>
    obtain ⟨q, hq, -⟩ := liftPager_eq_ok.1 run
    obtain ⟨sp, -, ⟨-, -, rfl⟩ | ⟨p, _, -, -, hmoves, -⟩⟩ := remove_moves h hq
    · exact .refl
    · exact hmoves.mono fun l hl => ⟨_, hl⟩
  | claim =>
    obtain ⟨q, hq, -⟩ := liftPager_eq_ok.1 run
    exact (claim_moves h hq).1
  | pin =>
    obtain ⟨q, hq, -⟩ := liftPager_eq_ok.1 run
    exact pin_moves h hq
  | unpin =>
    obtain ⟨q, hq, -⟩ := liftPager_eq_ok.1 run
    exact unpin_moves hq
  | lookup =>
    obtain ⟨q, hq, -⟩ := liftPager_eq_ok.1 run
    rw [(space_eq_ok hq).1]
    exact .refl
  | count =>
    obtain ⟨q, hq, -⟩ := liftPager_eq_ok.1 run
    rw [(space_eq_ok hq).1]
    exact .refl
  | setStackPointer =>
    obtain ⟨q, hq, -⟩ := liftPager_eq_ok.1 run
    exact adjust_makes Space.refusesEntries hq (fun sp => ⟨_, _, rfl⟩) fun sp hs => ⟨sp, hs, rfl⟩
  | copyFrom length =>
    obtain ⟨q, hq, -⟩ := liftPager_eq_ok.1 run
    exact (readUser_moves h hq).mono fun l hl => hl.copies
  | copyTo bytes =>
    obtain ⟨q, hq, -⟩ := liftPager_eq_ok.1 run
    exact writeUser_moves h hq
  | fault write user notPresent stackPointer =>
    obtain ⟨sp, -, hrun⟩ := Action.liftM_bind_eq_ok.1 run
    obtain ⟨q, hq, -⟩ := liftPager_eq_ok.1 hrun
    obtain ⟨u, hu, hmoves⟩ := serveFault_moves h hq
    have hclaims := hmoves.mono fun l hl =>
      (.inr hl : l.Registers id s.files.held ∨ l.Claims (· = .of id a))
    rcases hu with rfl | ⟨_, hgrows⟩
    · exact hclaims
    · have hregisters : Moves (Label.Registers id s.files.held) ⟨s, none⟩ ⟨u, none⟩ := by
        refine hgrows.adds.moves fun p hp => ?_
        rw [List.mem_singleton.1 hp]
        exact ⟨Page.isNew_ofStack a, .of_anonymous rfl, hgrows.stands⟩
      exact (hregisters.mono fun l hl => .inl hl).trans hclaims
  | duplicate refuses =>
    obtain ⟨q, hq, -⟩ := liftPager_eq_ok.1 run
    obtain ⟨w, hfound, ⟨-, rfl, -⟩ | ⟨-, hclear, -⟩⟩ := duplicate_moves h hq
    · exact hfound.mono fun l hl => .inl hl
    · exact (hfound.mono fun l hl => .inl hl).trans (hclear.mono fun l hl => .inr hl)
  | touch write =>
    obtain ⟨q, hq, -⟩ := liftPager_eq_ok.1 run
    exact touch_moves hq
  | refuseEntries error =>
    obtain ⟨q, hq, -⟩ := liftPager_eq_ok.1 run
    exact adjust_makes (fun _ => error) hq (fun sp => ⟨_, _, rfl⟩) fun _ _ => rfl
  | lock =>
    obtain ⟨q, hq, -⟩ := liftPager_eq_ok.1 run
    exact adjust_makes Space.refusesEntries hq (fun sp => ⟨_, _, rfl⟩) fun sp hs => ⟨sp, hs, rfl⟩

theorem onFiles_bind_eq_ok {m : Action FileStore StoreError α} {f : α → StepAct β}
    {r : Except Failure β} :
    (onFiles m >>= f) s = .ok (r, t) ↔
      (∃ x files, m s.files = .ok (.ok x, files) ∧ f x { s with files } = .ok (r, t)) ∨
        ∃ e files, m s.files = .ok (.error e, files) ∧ r = .error (.store e) ∧
          t = { s with files } := by
  rw [Action.bind_eq_ok]
  constructor
  · rintro (⟨x, u, hm, hf⟩ | ⟨e, hm, rfl⟩)
    · obtain ⟨files, hwithin, rfl⟩ := Action.within_eq_ok.1 hm
      obtain ⟨q, hq, hx⟩ := Action.mapError_eq_ok.1 hwithin
      cases q with
      | error e => cases hx
      | ok y =>
        cases hx
        exact .inl ⟨x, files, hq, hf⟩
    · obtain ⟨files, hwithin, rfl⟩ := Action.within_eq_ok.1 hm
      obtain ⟨q, hq, he⟩ := Action.mapError_eq_ok.1 hwithin
      cases q with
      | ok y => cases he
      | error e' =>
        cases he
        exact .inr ⟨e', files, hq, rfl, rfl⟩
  · rintro (⟨x, files, hm, hf⟩ | ⟨e, files, hm, rfl, rfl⟩)
    · exact .inl ⟨x, _, Action.within_eq_ok.2 ⟨files, Action.mapError_eq_ok.2 ⟨_, hm, rfl⟩, rfl⟩, hf⟩
    · exact .inr ⟨_, Action.within_eq_ok.2 ⟨files, Action.mapError_eq_ok.2 ⟨_, hm, rfl⟩, rfl⟩, rfl⟩

/-- Every operation consists of moves, whatever comes of it. -/
theorem step_moves (h : Coherent ⟨s, none⟩) {op : Op} {r : Except Failure Value}
    (run : step op s = .ok (r, t)) :
    Moves (op.Makes s) ⟨s, none⟩ ⟨t, none⟩ := by
  cases op with
  | createSpace =>
    obtain ⟨q, hq, -⟩ := liftPager_eq_ok.1 run
    exact .of_trace (createSpace_moves hq).2.1 (by simp [Op.Makes])
  | onSpace id address op =>
    rcases onSpace_cases run with ⟨-, -, hrun⟩ | ⟨-, rfl⟩
    · exact perform_moves h hrun
    · exact .refl
  | unlock id =>
    dsimp only [step] at run
    rw [Action.get_bind] at run
    by_cases hspace : (!s.spaces.contains id) = true
    · rw [if_pos hspace] at run
      cases run
      exact .refl
    · rw [if_neg hspace] at run
      obtain ⟨q, hq, -⟩ := liftPager_eq_ok.1 run
      exact adjust_makes Space.refusesEntries hq (fun sp => ⟨_, _, rfl⟩) fun sp hs => ⟨sp, hs, rfl⟩
  | openFile file =>
    rcases requireHeld_bind_eq_ok.1 run with ⟨-, hrun⟩ | ⟨-, -, rfl⟩
    · rcases onFiles_bind_eq_ok.1 hrun with ⟨_, files, hopen, hlast⟩ | ⟨_, files, hopen, -, rfl⟩
      · cases hlast
        exact .single (.outside (.opened hopen)) rfl
      · exact .single (.outside (.opened hopen)) rfl
    · exact .refl
  | closeFile file =>
    cases run
    exact .single (.outside (.closed file)) rfl
  | writeFile file offset bytes =>
    rcases requireHeld_bind_eq_ok.1 run with ⟨hheld, hrun⟩ | ⟨-, -, rfl⟩
    · rcases onFiles_bind_eq_ok.1 hrun with ⟨_, files, hwrite, hlast⟩ | ⟨_, files, hwrite, -, rfl⟩
      · cases hlast
        exact .single (.outside (.wrote hheld hwrite)) rfl
      · exact .single (.outside (.wrote hheld hwrite)) rfl
    · exact .refl
  | switchFile file switches =>
    rcases requireHeld_bind_eq_ok.1 run with ⟨-, hrun⟩ | ⟨-, -, rfl⟩
    · cases hrun
      exact .single (.outside (.switched file.file switches)) rfl
    · exact .refl
  | switchDisk switches =>
    cases run
    exact .single (.switch switches) rfl

theorem run_cons_eq_ok {op : Op} {ops : List Op} {results : List (Except Failure Value)} :
    run (op :: ops) s = .ok (results, t) ↔ ∃ r u rest, step op s = .ok (r, u) ∧
      run ops u = .ok (rest, t) ∧ results = r :: rest := by
  rw [run, except_bind_eq_ok]
  constructor
  · rintro ⟨⟨r, u⟩, hstep, hrest⟩
    obtain ⟨⟨rest, v⟩, hrun, hlast⟩ := except_bind_eq_ok.1 hrest
    cases hlast
    exact ⟨r, u, rest, hstep, hrun, rfl⟩
  · rintro ⟨r, u, rest, hstep, hrun, rfl⟩
    exact ⟨⟨r, u⟩, hstep, except_bind_eq_ok.2 ⟨⟨rest, t⟩, hrun, rfl⟩⟩

theorem run_append {first others : List Op} {before after : List (Except Failure Value)}
    {u : Machine} (hfirst : run first s = .ok (before, u)) (hothers : run others u = .ok (after, t)) :
    run (first ++ others) s = .ok (before ++ after, t) := by
  induction first generalizing s before with
  | nil =>
    cases hfirst
    exact hothers
  | cons op rest ih =>
    obtain ⟨r, v, results, hstep, hrest, rfl⟩ := run_cons_eq_ok.1 hfirst
    exact run_cons_eq_ok.2 ⟨r, v, _, hstep, ih hrest, rfl⟩

theorem run_cons_eq_error {op : Op} {ops : List Op} {b : Bug} :
    run (op :: ops) s = .error b ↔ step op s = .error b ∨
      ∃ r u, step op s = .ok (r, u) ∧ run ops u = .error b := by
  rw [run, except_bind_eq_error]
  refine or_congr .rfl ⟨?_, ?_⟩
  · rintro ⟨⟨r, u⟩, hstep, hrest⟩
    rcases except_bind_eq_error.1 hrest with hbug | ⟨_, -, hdone⟩
    · exact ⟨r, u, hstep, hbug⟩
    · cases hdone
  · rintro ⟨r, u, hstep, hbug⟩
    exact ⟨⟨r, u⟩, hstep, except_bind_eq_error.2 (.inl hbug)⟩

/-- The states that operations lead to, up to the first bug. -/
def visited : List Op → Machine → List Machine
  | [], _ => []
  | op :: rest, s =>
    match step op s with
    | .ok (_, t) => t :: visited rest t
    | .error _ => []

/-- What an operation has read. -/
def bytesRead (results : List (Except Failure Value)) (n : Nat) : Option Bytes :=
  results[n]?.bind fun r => match r with
    | .ok (.bytes bytes) => some bytes
    | _ => none

theorem of_bytesRead {results : List (Except Failure Value)} {n : Nat} {bytes : Bytes}
    (h : bytesRead results n = some bytes) : results[n]? = some (.ok (.bytes bytes)) := by
  obtain ⟨r, hr, h⟩ := Option.bind_eq_some_iff.1 h
  split at h
  · rw [hr, Option.some.inj h]
  · cases h

/-- An operation has succeeded that has nothing to answer. -/
def isDone : Except Failure Value → Bool
  | .ok .unit => true
  | _ => false

theorem isDone_iff {r : Except Failure Value} : isDone r = true ↔ r = .ok .unit := by
  constructor
  · intro h
    unfold isDone at h
    split at h
    · rfl
    · cases h
  · rintro rfl
    rfl

/-- The space that an operation has made. -/
def spaceMade : Except Failure Value → Option SpaceId
  | .ok (.space id) => some id
  | _ => none

theorem spaceMade_eq_some {r : Except Failure Value} {id : SpaceId} :
    spaceMade r = some id ↔ r = .ok (.space id) := by
  constructor
  · intro h
    unfold spaceMade at h
    split at h
    · rw [Option.some.inj h]
    · cases h
  · rintro rfl
    rfl

/-- What every operation of a run keeps is kept by the run. -/
theorem run_keep {P : Machine → Prop} {ops : List Op} {results : List (Except Failure Value)}
    (h : Coherent ⟨s, none⟩)
    (hstep : ∀ op ∈ ops, ∀ {r u v}, Coherent ⟨u, none⟩ → P u → step op u = .ok (r, v) → P v)
    (hs : P s) (hrun : run ops s = .ok (results, t)) : P t := by
  induction ops generalizing s results with
  | nil =>
    cases hrun
    exact hs
  | cons op rest ih =>
    obtain ⟨r, u, later, hfirst, hrest, -⟩ := run_cons_eq_ok.1 hrun
    exact ih (h.moves (step_moves h hfirst)) (fun other hother => hstep other (.tail _ hother))
      (hstep op (.head _) h hs hfirst) hrest

theorem run_moves {ops : List Op} {results : List (Except Failure Value)}
    (h : Coherent ⟨s, none⟩) (hrun : run ops s = .ok (results, t)) :
    Moves (fun _ => True) ⟨s, none⟩ ⟨t, none⟩ := by
  refine run_keep (P := fun u => Moves (fun _ => True) ⟨s, none⟩ ⟨u, none⟩) h
    (fun op _ {_ _ _} hu hmoves hstep => ?_) .refl hrun
  exact hmoves.trans ((step_moves hu hstep).mono fun _ _ => trivial)

/-- Only a copy of a space, when it fails, takes away what it registered. -/
theorem fresh_of_makes {op : Op} {pl : Place} {p page : Page} (hl : op.Makes s (.register pl page))
    (hl' : op.Makes s (.remove pl p)) : pl.space = s.nextSpace := by
  cases op with
  | onSpace id address op =>
    cases op with
    | duplicate =>
      rcases hl with hl | hl
      · exact hl.1
      · exact hl.elim
    | registerAnonymous | register | registerSegment | mmap => exact hl'.elim
    | fault => exact hl'.elim False.elim False.elim
    | remove =>
      obtain ⟨_, hl⟩ := hl
      exact hl.elim
    | pin => exact hl.elim False.elim False.elim
    | touch => rcases hl with hl | hl <;> cases hl
    | _ => exact hl.elim
  | createSpace => rcases hl with hl | hl <;> cases hl
  | unlock => exact hl.elim
  | _ => cases hl

/-- No operation takes away a page and registers another in its place. -/
theorem apart_of_makes {op : Op} {pl : Place} {p : Page} (h : Coherent ⟨s, none⟩)
    (hp : Pager.pageAt s.spaces pl = some p) (page q : Page)
    (hregister : op.Makes s (.register pl page)) : ¬ op.Makes s (.remove pl q) := by
  intro hremove
  obtain ⟨sp, hsp, -⟩ := exists_space_of_pageAt hp
  have hfresh := h.fresh pl.space (Nat.le_of_eq (fresh_of_makes hregister hremove).symm)
  cases hsp.symm.trans hfresh

/-- A page is taken away by removing it, with its space, with its mapping, or with a copy of its
space that fails. -/
theorem removes_of_makes {op : Op} {pl : Place} {p : Page} (hl : op.Makes s (.remove pl p)) :
    (∃ address, op = .onSpace pl.space address .remove ∧ pl = .of pl.space ⟨address⟩) ∨
      (∃ address, op = .onSpace pl.space address .teardown) ∨ p.mapping.isSome = true ∨
      pl.space = s.nextSpace := by
  cases op with
  | onSpace id address op =>
    cases op with
    | teardown =>
      obtain rfl : pl.space = id := hl
      exact .inr (.inl ⟨_, rfl⟩)
    | munmap =>
      obtain ⟨-, mapping, hmapping⟩ := hl
      exact .inr (.inr (.inl (by rw [hmapping]; rfl)))
    | remove =>
      obtain ⟨_, rfl, -⟩ := hl
      exact .inl ⟨address, rfl, rfl⟩
    | duplicate =>
      rcases hl with hl | hl
      · exact hl.elim
      · exact .inr (.inr (.inr hl))
    | pin | fault => exact hl.elim False.elim False.elim
    | touch => rcases hl with hl | hl <;> cases hl
    | _ => exact hl.elim
  | createSpace => rcases hl with hl | hl <;> cases hl
  | unlock => exact hl.elim
  | _ => cases hl

end Machine
end Pager
