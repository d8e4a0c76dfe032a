import Pager.Proofs.TwinSpaces
import Pager.Proofs.Reachability

/-!
No data leaks from one space to another. Two runs are compared that differ only in the bytes
that one space stores in its anonymous pages. Its memory is hidden, and so is that of its
copies and of their copies. Every step keeps the two machines twins, so they take the same
frames, slots and decisions all the way, and everybody else gets the same answers.
-/
namespace Pager

theorem Label.Adjusts.quiet {answers : Option PagerError → Prop} {l : Label}
    (h : l.Adjusts answers) : l.Quiet := by
  cases l with
  | adjust => exact quiet_of_place?_eq_none rfl
  | _ => exact h.elim

/-- The initializer that a page is registered with, if any, takes no notice of frames. -/
def Op.Oblivious : Op → Prop
  | .onSpace _ _ (.register _ _ (some init) _) => init.Oblivious
  | _ => True

/-- Two operations that are the same but for the bytes that the space stores in pages of no file:
addresses and lengths agree, and so does what goes to a page of a file. -/
inductive Op.Varies (secret : SpaceId) (s : Machine) : Op → Op → Prop
  | same (op : Op) : Varies secret s op op
  | stores {address : Nat} {bytes bytes' : Bytes} (length : bytes'.length = bytes.length)
      (filed : ∀ i, bytes'[i]? ≠ bytes[i]? → ¬ s.Filed (.containing secret (address + i))) :
      Varies secret s (.onSpace secret address (.copyTo bytes))
        (.onSpace secret address (.copyTo bytes'))

/-- Two lists of operations that differ only in the bytes that the space stores in pages of no file,
as a run of the first list comes upon them. -/
def Machine.Varying (secret : SpaceId) : List Op → List Op → Machine → Prop
  | [], [], _ => True
  | op :: ops, op' :: ops', s => op.Varies secret s op' ∧
      ∀ r t, step op s = .ok (r, t) → Varying secret ops ops' t
  | _, _, _ => False

/-- The spaces that were duplicated in a run, directly or transitively, from a space, and that space
itself. -/
inductive Derives (ops : List Op) (results : List (Except Failure Value)) (ancestor : SpaceId) :
    SpaceId → Prop
  | self : Derives ops results ancestor ancestor
  | copied {parent child : SpaceId} {n address : Nat} {refuses : Option PagerError}
      (derives : Derives ops results ancestor parent)
      (asked : ops[n]? = some (.onSpace parent address (.duplicate refuses)))
      (answered : results[n]? = some (.ok (.space child))) : Derives ops results ancestor child

/-- The operation hands out bytes of a space of the set. -/
def Op.Reads (hidden : SpaceId → Prop) (op : Op) : Prop :=
  ∃ id address length, op = .onSpace id address (.copyFrom length) ∧ hidden id

namespace Machine

variable {hidden : SpaceId → Prop} {s s' t t' : Machine} {id : SpaceId} {a : VirtualAddress}

/-- A request of a space, whose answer is turned into a value. -/
theorem liftPager_twins {α : Type} {m m' : Act α} {g : α → Value} {R : α → α → Prop}
    {Q : Value → Value → Prop} (hm : Mirrors (Twins hidden) R (m s) (m' s'))
    (hg : ∀ {a a'}, R a a' → Q (g a) (g a')) :
    Mirrors (Twins hidden) Q ((do return g (← liftPager m) : StepAct Value) s)
      ((do return g (← liftPager m') : StepAct Value) s') :=
  (hm.mapError Failure.pager).bind fun _ _ hR hu => .done (hg hR) hu

/-- Both machines refuse a handle that is not held. -/
theorem requireHeld_bind_twins {α : Type} {R : α → α → Prop} (h : Twins hidden s s') {file : Handle}
    {f f' : Unit → StepAct α} (hf : Mirrors (Twins hidden) R (f () s) (f' () s')) :
    Mirrors (Twins hidden) R ((requireHeld file >>= f) s) ((requireHeld file >>= f') s') := by
  unfold requireHeld
  rw [bind_assoc, bind_assoc, Action.get_bind, Action.get_bind, files_of_alike h.alike]
  by_cases hheld : (!s.files.held.contains file) = true
  · rw [if_pos hheld]
    exact .failed _ h
  · rw [if_neg hheld]
    exact hf

/-- Both machines refuse a space that is not there, or busy, or both go on. -/
theorem requireIdle_bind_twins {α : Type} {R : α → α → Prop} (h : Twins hidden s s')
    {f f' : Unit → StepAct α} (hf : (requireIdle id >>= f) s = f () s →
      Mirrors (Twins hidden) R (f () s) (f' () s')) :
    Mirrors (Twins hidden) R ((requireIdle id >>= f) s) ((requireIdle id >>= f') s') := by
  unfold requireIdle at hf ⊢
  rw [bind_assoc, Action.get_bind] at hf ⊢
  rw [bind_assoc, Action.get_bind, spaces_of_alike h.alike]
  cases hs : s.spaces.get? id with
  | none => exact .failed _ h
  | some sp =>
    rw [hs] at hf
    dsimp only at hf ⊢
    by_cases hbusy : sp.busy = true
    · rw [if_pos hbusy]
      exact .failed _ h
    · rw [if_neg hbusy] at hf ⊢
      exact hf rfl

theorem register_twins (h : Twins hidden s s') {writable : Bool} {type : PageType}
    {init : Option Initializer} {slice : LoadSlice}
    (hinit : ∀ i, init = some i → i.Oblivious) :
    Mirrors (Twins hidden) Eq (register id a writable type init slice s)
      (register id a writable type init slice s') := by
  refine (blind_register id a writable type init slice).twins h fun _ _ run => ?_
  rcases register_cases run with ⟨-, hadds⟩ | ⟨e, -, rfl⟩
  · refine hadds.quiet fun p hp => ?_
    rw [List.mem_singleton.1 hp]
    refine ⟨(Page.isNew_fresh ..).toEnters, fun u hu => ?_⟩
    cases hu
    cases init with
    | some init => exact hinit init rfl
    | none =>
      cases type with
      | anonymous => trivial
      | fileBacked => trivial
  · exact .refl

theorem registerSegment_twins (h : Twins hidden s s') {file : Handle}
    {offset readBytes zeroBytes : Nat} {writable : Bool} :
    Mirrors (Twins hidden) Eq (registerSegment id file offset a readBytes zeroBytes writable s)
      (registerSegment id file offset a readBytes zeroBytes writable s') := by
  refine (blind_registerSegment id file offset a readBytes zeroBytes writable).twins h
    fun _ _ run => ?_
  rcases registerSegment_cases run with ⟨-, -, -, pages, hpages, hadds⟩ | ⟨e, -, rfl⟩
  · refine hadds.quiet fun p hp => ?_
    obtain ⟨k, -, rfl⟩ := (mem_pageRun_iff hpages).1 hp
    refine ⟨(Page.isNew_fresh ..).toEnters, fun u hu => ?_⟩
    cases hu
    trivial
  · exact .refl

theorem mmap_twins (h : Twins hidden s s') {length : Nat} {writable : Bool} {file : Handle}
    {offset : Nat} : Mirrors (Twins hidden) Eq (mmap id a length writable file offset s)
      (mmap id a length writable file offset s') := by
  refine (blind_mmap id a length writable file offset).twins h fun _ _ run => ?_
  rcases mmap_cases run with ⟨e, -, rfl | htrace⟩ |
    ⟨-, sp, pages, table, -, -, -, -, hpages, -, -, -, htrace⟩
  · exact .refl
  · refine .of_trace htrace fun l hl => ?_
    simp only [List.mem_cons, List.not_mem_nil, or_false] at hl
    rcases hl with rfl | rfl
    · exact Label.quiet_of_place?_eq_none rfl
    · exact Label.quiet_of_place?_eq_none rfl
  · refine .of_trace htrace fun l hl => ?_
    simp only [List.mem_append, List.mem_cons, List.mem_map, List.not_mem_nil, or_false] at hl
    rcases hl with ((rfl | rfl) | ⟨p, hp, rfl⟩) | rfl | rfl
    · exact Label.quiet_of_place?_eq_none rfl
    · exact Label.quiet_of_place?_eq_none rfl
    · obtain ⟨k, -, rfl⟩ := (mem_pageRun_iff hpages).1 hp
      refine Label.quiet_register fun u hu => ?_
      cases hu
      trivial
    · exact Label.quiet_of_place?_eq_none rfl
    · exact Label.quiet_of_place?_eq_none rfl

theorem remove_twins (h : Twins hidden s s') :
    Mirrors (Twins hidden) Eq (remove id a s) (remove id a s') := by
  refine (blind_remove id a).twins h fun hu _ run => ?_
  obtain ⟨sp, -, ⟨-, -, rfl⟩ | ⟨p, _, -, -, hmoves, -⟩⟩ := remove_moves hu run
  · exact .refl
  · exact hmoves.mono fun l hl => hl.clears.quiet

/-- Work on a space that looks at no bytes and makes quiet moves only. -/
theorem perform_twins_of_blind (h : Twins hidden s s') {op : SpaceOp}
    (hblind : Blind (perform id a op)) (hquiet : ∀ (u : Machine) l, op.Makes u id a l → l.Quiet) :
    Mirrors (Twins hidden) Eq (perform id a op s) (perform id a op s') :=
  (hblind.mirrors h.alike).strengthen fun run run' halike =>
    h.of_quiet (perform_moves h.coherent run) (perform_moves h.coherent' run') halike
      (hquiet s) (hquiet s')

theorem blind_liftPager {α : Type} {m : Act α} {g : α → Value} (hm : Blind m) :
    Blind (do return g (← liftPager m) : StepAct Value) :=
  (hm.mapError Failure.pager).bind fun a => .pure (g a)

/-- An operation on a space gives the same answer in both machines, unless it reads what is
hidden. -/
theorem perform_twins (h : Twins hidden s s') {op : SpaceOp}
    (hobl : (Op.onSpace id a.value op).Oblivious)
    (hheirs : ∀ refuses child t, op = .duplicate refuses →
      perform id a op s = .ok (.ok (.space child), t) → hidden id → hidden child) :
    Mirrors (Twins hidden)
      (fun v v' => ¬ (Op.onSpace id a.value op).Reads hidden → v' = v)
      (perform id a op s) (perform id a op s') := by
  have heq : ∀ {x x' : Except Bug (Except Failure Value × Machine)},
      Mirrors (Twins hidden) Eq x x' → Mirrors (Twins hidden)
        (fun v v' => ¬ (Op.onSpace id a.value op).Reads hidden → v' = v) x x' :=
    fun hx => hx.of_eq fun _ _ => rfl
  cases op with
  | teardown => exact heq (liftPager_twins (teardown_twins h) fun _ => rfl)
  | registerAnonymous writable =>
    exact heq (liftPager_twins (register_twins h fun _ hi => by cases hi) fun _ => rfl)
  | register writable type init slice =>
    have hinit : ∀ i, init = some i → i.Oblivious := by
      rintro i rfl
      exact hobl
    have hboth : Mirrors (Twins hidden) Eq (Machine.register id a writable type init slice s)
        (Machine.register id a writable type init slice s') := register_twins h hinit
    have hregister := liftPager_twins (g := fun _ => .unit) (Q := Eq) hboth fun _ => rfl
    unfold perform
    dsimp only
    cases slice.file with
    | none => exact heq hregister
    | some file => exact heq (requireHeld_bind_twins h hregister)
  | registerSegment file offset readBytes zeroBytes writable =>
    exact heq (requireHeld_bind_twins h (liftPager_twins (registerSegment_twins h) fun _ => rfl))
  | mmap length writable file offset =>
    exact heq (requireHeld_bind_twins h (liftPager_twins (mmap_twins h) fun hv => hv ▸ rfl))
  | munmap => exact heq (liftPager_twins (munmap_twins h) fun _ => rfl)
  | remove => exact heq (liftPager_twins (remove_twins h) fun _ => rfl)
  | claim => exact heq (liftPager_twins (claim_twins h) fun _ => rfl)
  | pin => exact heq (liftPager_twins (pin_twins h) fun _ => rfl)
  | unpin =>
    exact heq (perform_twins_of_blind h (blind_liftPager (blind_unpin id a)) fun _ _ hl => hl.quiet)
  | lookup =>
    exact heq (perform_twins_of_blind h (blind_liftPager (blind_space id)) fun _ _ hl => hl.elim)
  | count =>
    exact heq (perform_twins_of_blind h (blind_liftPager (blind_space id)) fun _ _ hl => hl.elim)
  | setStackPointer =>
    exact heq (perform_twins_of_blind h (blind_liftPager (blind_modifySpace id _))
      fun _ _ hl => hl.quiet)
  | copyFrom length =>
    refine liftPager_twins (readUser_twins h) fun hbytes hreads => congrArg Value.bytes (hbytes ?_)
    exact fun hid => hreads ⟨id, a.value, length, rfl, hid⟩
  | copyTo bytes => exact heq (liftPager_twins (writeUser_twins h .refl) fun _ => rfl)
  | fault write user notPresent stackPointer =>
    refine heq (.liftM_bind fun _ => liftPager_twins (serveFault_twins h _) fun _ => rfl)
  | duplicate refuses =>
    refine heq (liftPager_twins (duplicate_twins h fun child t run => ?_) fun hv => hv ▸ rfl)
    exact hheirs refuses child t rfl (liftPager_eq_ok.2 ⟨_, run, rfl⟩)
  | touch write =>
    refine heq (perform_twins_of_blind h (blind_liftPager (blind_touch id a write)) ?_)
    rintro _ l (rfl | rfl)
    · exact quiet_mark
    · exact Label.quiet_of_place?_eq_none rfl
  | refuseEntries error =>
    exact heq (perform_twins_of_blind h (blind_liftPager (blind_modifySpace id _))
      fun _ _ hl => hl.quiet)
  | lock =>
    exact heq (perform_twins_of_blind h (blind_liftPager (blind_modifySpace id _))
      fun _ _ hl => hl.quiet)

/-- Work on the files or the switches, or on a space's books only. -/
theorem step_twins_of_blind (h : Twins hidden s s') {op : Op} (hblind : Blind (step op))
    (hquiet : ∀ (u : Machine) l, op.Makes u l → l.Quiet) :
    Mirrors (Twins hidden) Eq (step op s) (step op s') :=
  (hblind.mirrors h.alike).strengthen fun run run' halike =>
    h.of_quiet (step_moves h.coherent run) (step_moves h.coherent' run') halike
      (hquiet s) (hquiet s')

theorem blind_onFiles {α : Type} (m : Action FileStore StoreError α) : Blind (onFiles m) :=
  ⟨fun h => .within_same _ (files_of_alike h) (alike_files h)⟩

theorem blind_requireHeld (file : Handle) : Blind (requireHeld file) where
  mirrors {s s'} h := by
    unfold requireHeld
    rw [Action.get_bind, Action.get_bind, files_of_alike h]
    exact (Blind.ite (.throw _) (.pure ())).mirrors h

theorem quiet_of_eq_outside {l : Label} (hl : l = .outside) : l.Quiet :=
  hl ▸ Label.quiet_of_place?_eq_none rfl

/-- An operation gives the same answer in both machines, unless it reads what is hidden. -/
theorem step_twins (h : Twins hidden s s') {secret : SpaceId} (hsecret : hidden secret) {op op' : Op}
    (hvaries : op.Varies secret s op') (hobl : op.Oblivious)
    (hheirs : ∀ parent address refuses child t, op = .onSpace parent address (.duplicate refuses) →
      step op s = .ok (.ok (.space child), t) → hidden parent → hidden child) :
    Mirrors (Twins hidden) (fun v v' => ¬ op.Reads hidden → v' = v) (step op s) (step op' s') := by
  have heq : ∀ {x x' : Except Bug (Except Failure Value × Machine)},
      Mirrors (Twins hidden) Eq x x' →
        Mirrors (Twins hidden) (fun v v' => ¬ op.Reads hidden → v' = v) x x' :=
    fun hx => hx.of_eq fun _ _ => rfl
  cases hvaries with
  | @stores address bytes bytes' hlength hfiled =>
    refine requireIdle_bind_twins h fun _ => .liftM_bind fun {a} ha => ?_
    obtain ⟨-, rfl⟩ := Address.make_eq_ok.1 ha
    have hveiled : Veiled hidden s secret address bytes bytes' :=
      ⟨hlength, fun i hne => ⟨hsecret, hfiled i hne⟩⟩
    exact heq (liftPager_twins (writeUser_twins h hveiled) fun _ => rfl)
  | same =>
    cases op with
    | onSpace id address op =>
      refine requireIdle_bind_twins h fun hidle => .liftM_bind fun {a} ha => ?_
      obtain ⟨-, rfl⟩ := Address.make_eq_ok.1 ha
      refine perform_twins h hobl fun refuses child t hop run => ?_
      refine hheirs id address refuses child t (hop ▸ rfl) (hidle.trans ?_)
      exact (congrFun (congrArg (· >>= fun a => perform id a op) (congrArg liftM ha)) s).trans run
    | createSpace =>
      refine heq (step_twins_of_blind h (blind_liftPager blind_createSpace) ?_)
      rintro u l (rfl | rfl)
      · exact Label.quiet_of_place?_eq_none rfl
      · exact Label.quiet_of_place?_eq_none rfl
    | unlock id =>
      refine heq (step_twins_of_blind h ⟨fun {s s'} h => ?_⟩ fun _ _ hl => hl.quiet)
      unfold step
      dsimp only
      rw [Action.get_bind, Action.get_bind, spaces_of_alike h]
      by_cases hnone : (!s.spaces.contains id) = true
      · rw [if_pos hnone]
        exact .failed _ h
      · rw [if_neg hnone]
        exact (blind_liftPager (blind_modifySpace id _)).mirrors h
    | openFile file =>
      refine heq (step_twins_of_blind h ?_ fun _ _ hl => quiet_of_eq_outside hl)
      exact (blind_requireHeld file).bind fun _ => (blind_onFiles _).bind fun _ => .pure _
    | closeFile file =>
      refine heq (step_twins_of_blind h ?_ fun _ _ hl => quiet_of_eq_outside hl)
      refine .bind (.modify ?_) fun _ => .pure _
      exact fun _ => rfl
    | writeFile file offset bytes =>
      refine heq (step_twins_of_blind h ?_ fun _ _ hl => quiet_of_eq_outside hl)
      exact (blind_requireHeld file).bind fun _ => (blind_onFiles _).bind fun _ => .pure _
    | switchFile file switches =>
      refine heq (step_twins_of_blind h ?_ fun _ _ hl => quiet_of_eq_outside hl)
      refine (blind_requireHeld file).bind fun _ => .bind (.modify ?_) fun _ => .pure _
      exact fun _ => rfl
    | switchDisk switches =>
      refine heq (step_twins_of_blind h ?_ fun _ _ hl => ?_)
      · refine .bind (.modify ?_) fun _ => .pure _
        exact fun _ => rfl
      · exact hl ▸ Label.quiet_of_place?_eq_none rfl

namespace Varying

variable {secret : SpaceId} {ops ops' : List Op}

theorem refl (ops : List Op) (s : Machine) : Varying secret ops ops s := by
  induction ops generalizing s with
  | nil => trivial
  | cons op rest ih => exact ⟨.same op, fun _ t _ => ih t⟩

/-- Lists that start alike vary if they do so after that. -/
theorem append {first : List Op} {results : List (Except Failure Value)}
    (hrun : run first s = .ok (results, t)) (h : Varying secret ops ops' t) :
    Varying secret (first ++ ops) (first ++ ops') s := by
  induction first generalizing s results with
  | nil =>
    cases hrun
    exact h
  | cons op rest ih =>
    obtain ⟨r, u, others, hstep, hrest, -⟩ := run_cons_eq_ok.1 hrun
    refine ⟨.same op, fun r' v hstep' => ?_⟩
    cases hstep.symm.trans hstep'
    exact ih hrest

end Varying

/-- Two machines that agree in everything but bytes: what has been moved out from where, which
slots pages have, what the counts are, and all that the outline shows besides. -/
structure Corresponds (s s' : Machine) : Prop where
  outline : s'.outline = s.outline
  events : s'.events = s.events
  slots : slotsOf (Pager.pageAt s'.spaces) = slotsOf (Pager.pageAt s.spaces)
  stats : s'.stats = s.stats

theorem Twins.corresponds (h : Twins hidden s s') : s.Corresponds s' where
  outline := h.alike
  events := (congrArg events h.alike :)
  slots := by rw [spaces_of_alike h.alike]
  stats := (congrArg stats h.alike :)

/-- Wherever operations are the same but for what one space stores, both machines go through
states that agree in all but bytes, and come upon the same bug if any. -/
theorem visited_masked (h : Masked s s') {secret : SpaceId} {ops ops' : List Op}
    (hvaries : Varying secret ops ops' s) (hobl : ∀ op ∈ ops, op.Oblivious) :
    List.Forall₂ Corresponds (visited ops s) (visited ops' s') ∧
      ∀ b, run ops s = .error b → run ops' s' = .error b := by
  induction ops generalizing ops' s s' with
  | nil =>
    cases ops' with
    | nil => exact ⟨.nil, fun b hrun => by cases hrun⟩
    | cons => exact hvaries.elim
  | cons op rest ih =>
    cases ops' with
    | nil => exact hvaries.elim
    | cons op' rest' =>
      obtain ⟨hop, hrest⟩ := hvaries
      have hboth := step_twins h trivial hop (hobl op (List.mem_cons_self ..))
        fun _ _ _ _ _ _ _ _ => trivial
      rw [visited, visited]
      cases hstep : step op s with
      | error b =>
        rw [hstep] at hboth
        have hstep' := hboth.bug_eq
        rw [hstep']
        refine ⟨.nil, fun b' hrun => run_cons_eq_error.2 (.inl ?_)⟩
        rcases run_cons_eq_error.1 hrun with hbug | ⟨r, t, hdone, -⟩
        · exact hstep'.trans (hstep.symm.trans hbug)
        · cases hstep.symm.trans hdone
      | ok outcome =>
        obtain ⟨r, t⟩ := outcome
        rw [hstep] at hboth
        obtain ⟨r', t', hstep', ht, -⟩ := hboth.exists_ok
        rw [hstep']
        obtain ⟨hagree, hbug⟩ := ih ht (hrest r t hstep)
          fun op hmem => hobl op (List.mem_cons_of_mem _ hmem)
        refine ⟨.cons ht.corresponds hagree, fun b hrun => run_cons_eq_error.2 (.inr ?_)⟩
        rcases run_cons_eq_error.1 hrun with hbad | ⟨r, t, hdone, hothers⟩
        · cases hstep.symm.trans hbad
        · cases hstep.symm.trans hdone
          exact ⟨r', t', hstep', hbug b hothers⟩

/-- Twins go the same way for as long as the operations vary in nothing but what is hidden. -/
theorem run_twins (h : Twins hidden s s') {secret : SpaceId} (hsecret : hidden secret)
    {ops ops' : List Op} (hvaries : Varying secret ops ops' s) (hobl : ∀ op ∈ ops, op.Oblivious)
    {results : List (Except Failure Value)} (hrun : run ops s = .ok (results, t))
    (hheirs : ∀ (n : Nat) (parent : SpaceId) (address : Nat) (refuses : Option PagerError)
      (child : SpaceId), ops[n]? = some (Op.onSpace parent address (.duplicate refuses)) →
        results[n]? = some (Except.ok (Value.space child)) → hidden parent → hidden child) :
    ∃ results' t', run ops' s' = .ok (results', t') ∧
      ∀ (n : Nat) (op : Op), ops[n]? = some op → ¬ op.Reads hidden →
        results'[n]? = results[n]? := by
  induction ops generalizing ops' s s' results with
  | nil =>
    cases ops' with
    | nil =>
      cases hrun
      exact ⟨[], s', rfl, fun _ _ _ _ => rfl⟩
    | cons => exact hvaries.elim
  | cons op rest ih =>
    cases ops' with
    | nil => exact hvaries.elim
    | cons op' rest' =>
      obtain ⟨hop, hrest⟩ := hvaries
      obtain ⟨r, u, others, hstep, hothers, rfl⟩ := run_cons_eq_ok.1 hrun
      have hboth := step_twins h hsecret hop (hobl op (List.mem_cons_self ..))
        fun parent address refuses child v hdup hchild hparent => by
          cases hstep.symm.trans hchild
          exact hheirs 0 parent address refuses child (congrArg some hdup) rfl hparent
      rw [hstep] at hboth
      obtain ⟨r', u', hstep', hu, hr⟩ := hboth.exists_ok
      obtain ⟨others', t', hothers', hanswers⟩ := ih hu (hrest r u hstep)
        (fun op hmem => hobl op (List.mem_cons_of_mem _ hmem)) hothers
        fun n => hheirs (n + 1)
      refine ⟨r' :: others', t', run_cons_eq_ok.2 ⟨r', u', others', hstep', hothers', rfl⟩, ?_⟩
      intro n other hget hreads
      cases n with
      | zero =>
        cases hget
        exact congrArg some (hr hreads)
      | succ n => exact hanswers n other hget hreads

theorem boot_twins {frames sectors : Nat} {files : List Bytes} {start : Machine}
    (h : boot frames sectors files = .ok start) : Twins hidden start start where
  coherent := boot_coherent h
  coherent' := boot_coherent h
  alike := rfl
  oblivious pl p hp := by
    cases (boot_pages h pl).symm.trans hp
  matching _ := ⟨fun _ => rfl, fun _ _ _ => rfl⟩

/-- Two runs of the same operations, but for the bytes that one space stores in its pages of no
file, go through states that agree in all but bytes and get the same answers; only reads of that
space, of its copies and of their copies may differ. -/
theorem run_conceals {frames sectors : Nat} {files : List Bytes} {start : Machine}
    {secret : SpaceId} {ops ops' : List Op} (hboot : boot frames sectors files = .ok start)
    (hobl : ∀ op ∈ ops, op.Oblivious) (hvaries : Varying secret ops ops' start) :
    List.Forall₂ Corresponds (visited ops start) (visited ops' start) ∧
      (∀ b, run ops start = .error b → run ops' start = .error b) ∧
      ∀ results last, run ops start = .ok (results, last) →
        ∃ results' last', run ops' start = .ok (results', last') ∧
          ∀ (n : Nat) (op : Op), ops[n]? = some op → ¬ op.Reads (Derives ops results secret) →
            results'[n]? = results[n]? := by
  obtain ⟨hagree, hbug⟩ := visited_masked (boot_twins hboot) hvaries hobl
  refine ⟨hagree, hbug, fun results last hrun => ?_⟩
  exact run_twins (boot_twins hboot) .self hvaries hobl hrun
    fun n parent address refuses child asked answered derives => .copied derives asked answered

/-- Two spaces have a page each. -/
def preparing : List Op := [.createSpace, .createSpace,
  .onSpace 1 0x10000 (.registerAnonymous true), .onSpace 2 0x10000 (.registerAnonymous true)]

/-- The first space stores to its page, the second reads its own, and then the first reads. -/
def recycling (bytes : Bytes) : List Op := [.onSpace 1 0x10000 (.copyTo bytes),
  .onSpace 2 0x10000 (.copyFrom 3), .onSpace 1 0x10000 (.copyFrom 3)]

/-- The second space gets the only frame after the first stored to it, and sees zeros
whatever was stored. -/
theorem run_conceals_of_recycling : ∃ start results results' last last',
    boot 1 16 [] = .ok start ∧
    run (preparing ++ recycling [1, 2, 3]) start = .ok (results, last) ∧
    run (preparing ++ recycling [7, 8, 9]) start = .ok (results', last') ∧
    bytesRead results 5 = some [0, 0, 0] ∧ results'[5]? = results[5]? ∧
    bytesRead results 6 = some [1, 2, 3] ∧ bytesRead results' 6 = some [7, 8, 9] ∧
    last.evictions = 2 ∧
    List.Forall₂ Corresponds (visited (preparing ++ recycling [1, 2, 3]) start)
      (visited (preparing ++ recycling [7, 8, 9]) start) := by
  have hend : (boot 1 16 [] >>= fun start => run preparing start >>= fun ready =>
      run (preparing ++ recycling [1, 2, 3]) start >>= fun last =>
      run (preparing ++ recycling [7, 8, 9]) start >>= fun last' =>
        .ok ((Pager.pageAt ready.2.spaces (.containing 1 0x10000)).map Page.type,
          [bytesRead last.1 5, bytesRead last.1 6, bytesRead last'.1 6], last.2.evictions)) =
      .ok (some .anonymous, [some [0, 0, 0], some [1, 2, 3], some [7, 8, 9]], 2) := by
    decide +kernel
  obtain ⟨start, hboot, hend⟩ := except_bind_eq_ok.1 hend
  obtain ⟨⟨_, ready⟩, hready, hend⟩ := except_bind_eq_ok.1 hend
  obtain ⟨⟨results, last⟩, hrun, hend⟩ := except_bind_eq_ok.1 hend
  obtain ⟨⟨results', last'⟩, hrun', hend⟩ := except_bind_eq_ok.1 hend
  obtain ⟨htype, hrest⟩ := Prod.mk.inj (Except.ok.inj hend)
  obtain ⟨hreads, hevictions⟩ := Prod.mk.inj hrest
  simp only [List.cons.injEq, and_true] at hreads
  obtain ⟨hzeros, hown, hown'⟩ := hreads
  have hvaries : Varying 1 (preparing ++ recycling [1, 2, 3]) (preparing ++ recycling [7, 8, 9])
      start := by
    refine .append hready ⟨.stores rfl fun i hne => ?_, fun _ _ _ => .refl _ _⟩
    rintro ⟨p, hp, hfile⟩
    have hi : i < 3 := by
      by_contra hi
      exact hne ((List.getElem?_eq_none (Nat.le_of_not_lt hi)).trans
        (List.getElem?_eq_none (Nat.le_of_not_lt hi)).symm)
    have hfits : 0x10000 % pageSize + i < pageSize := by
      rw [pageSize]
      omega
    rw [(Place.containing_add hfits).1] at hp
    rw [hp] at htype
    cases (Option.some.inj htype).symm.trans hfile
  have hobl : ∀ op ∈ preparing ++ recycling [1, 2, 3], op.Oblivious := by
    simp [preparing, recycling, Op.Oblivious]
  have hapart : ∀ id, Derives (preparing ++ recycling [1, 2, 3]) results 1 id → id = 1 := by
    intro id hderives
    cases hderives with
    | self => rfl
    | copied _ asked =>
      have hmem := List.mem_of_getElem? asked
      simp [preparing, recycling] at hmem
  obtain ⟨hagree, -, hanswers⟩ := run_conceals hboot hobl hvaries
  obtain ⟨others, end', hothers, hsame⟩ := hanswers results last hrun
  cases hrun'.symm.trans hothers
  refine ⟨start, results, results', last, last', hboot, hrun, hrun', hzeros, hsame 5 _ rfl ?_,
    hown, hown', hevictions, hagree⟩
  rintro ⟨id, address, length, hop, hderives⟩
  cases hapart id hderives
  cases hop

end Machine
end Pager
