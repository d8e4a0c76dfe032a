import Pager.Proofs.Opening

/-!
A mapping shows its file and keeps what is stored to it. As long as the mapping is there, every
operation but a store leaves what it holds; when it ends all of that is in the file. A file
whose mapping nobody stores to is never asked to take anything.
-/
namespace Pager

open Machine

/-- How many bytes an operation stores in user memory: all, or those before the page that a copy
fails on. -/
def Op.storedCount (s : Machine) : Op → Nat
  | .onSpace id address (.copyTo bytes) =>
    match s.spaces.get? id, requireUserRange ⟨address⟩ bytes.length with
    | some sp, .ok _ =>
      if sp.busy then 0 else Machine.storedCount id ⟨address⟩ bytes (pieces address bytes.length) s
    | _, _ => 0
  | _ => 0

/-- What copying to user memory comes to: nothing at all, or its pieces one by one. -/
theorem Machine.copyTo_cases {s t : Machine} {id : SpaceId} {address : Nat} {bytes : Bytes}
    {r : Except Failure Value} (run : step (.onSpace id address (.copyTo bytes)) s = .ok (r, t)) :
    Op.storedCount s (.onSpace id address (.copyTo bytes)) = 0 ∧ t = s ∨
      Op.storedCount s (.onSpace id address (.copyTo bytes)) =
        Machine.storedCount id ⟨address⟩ bytes (pieces address bytes.length) s ∧
      ∃ q, writePieces id ⟨address⟩ bytes (pieces address bytes.length) s = .ok (q, t) := by
  have hrun : (requireIdle id >>= fun _ => do
      let a ← Address.make .virtual address
      perform id a (.copyTo bytes) : StepAct Value) s = .ok (r, t) := run
  unfold requireIdle at hrun
  rw [bind_assoc, Action.get_bind] at hrun
  unfold Op.storedCount
  dsimp only
  cases hs : s.spaces.get? id with
  | none =>
    rw [hs] at hrun
    cases hrun
    exact .inl ⟨rfl, rfl⟩
  | some sp =>
    rw [hs] at hrun
    dsimp only at hrun
    by_cases hbusy : sp.busy = true
    · rw [if_pos hbusy] at hrun
      cases hrun
      refine .inl ⟨?_, rfl⟩
      cases requireUserRange ⟨address⟩ bytes.length with
      | error => rfl
      | ok => exact if_pos hbusy
    · rw [if_neg hbusy] at hrun
      obtain ⟨a, ha, hrun⟩ := Action.liftM_bind_eq_ok.1 hrun
      obtain ⟨-, rfl⟩ := Address.make_eq_ok.1 ha
      obtain ⟨q, hq, -⟩ := liftPager_eq_ok.1 hrun
      unfold writeUser at hq
      rcases Action.ofResult_bind_eq_ok.1 hq with ⟨_, hrange, hq⟩ | ⟨e, hrange, -, rfl⟩
      · rw [hrange]
        exact .inr ⟨if_neg hbusy, q, hq⟩
      · rw [hrange]
        exact .inl ⟨rfl, rfl⟩

namespace Window

variable {w : Window} {stored : Nat → Option UInt8} {first : Nat} {s t : Machine} {op : Op}
  {id : SpaceId} {a : VirtualAddress}

/-- No operation brings a page that refers to the handle of the mapping. -/
theorem foreign_of_makes (howned : w.Owned first s) {l : Label} (hl : op.Makes s l) :
    w.Foreign l := by
  cases l with
  | register pl page =>
    intro htype hhandle
    have hborrows : ¬ page.Borrows s.files.held := fun h => by
      obtain ⟨handle, hheld, hown⟩ := h htype
      cases hhandle.symm.trans hown
      exact howned.unheld hheld
    cases op with
    | onSpace id address op =>
      cases op with
      | registerAnonymous | register | registerSegment => exact hborrows hl.2.2.1
      | mmap =>
        obtain ⟨-, -, ⟨file, hfile⟩, -⟩ := hl
        have hserial : w.file.serial = s.files.nextSerial :=
          congrArg Handle.serial (Option.some.inj (hhandle.symm.trans hfile))
        exact Nat.ne_of_lt howned.opened hserial
      | fault =>
        rcases hl with hl | hl
        · exact hborrows hl.2.2.1
        · exact hl
      | duplicate =>
        rcases hl with hl | hl
        · cases hl.2.2.symm.trans htype
        · exact hl
      | remove =>
        obtain ⟨_, hl⟩ := hl
        exact hl
      | pin => exact hl.elim (fun hl => hl) fun hl => hl
      | touch => rcases hl with hl | hl <;> cases hl
      | _ => exact hl
    | createSpace => rcases hl with hl | hl <;> cases hl
    | unlock => exact hl
    | _ => cases hl
  | _ => exact True.intro

theorem Owned.of_step (howned : w.Owned first s) (h : Coherent ⟨s, none⟩)
    {r : Except Failure Value} (run : step op s = .ok (r, t)) : w.Owned first t :=
  howned.moves h (step_moves h run) fun _ => foreign_of_makes howned

/-- Once a mapping has ended its file stays as it is. -/
theorem Intact.of_step_ended (hintact : w.Intact stored w.pages s) (h : Coherent ⟨s, none⟩)
    {r : Except Failure Value} (run : step op s = .ok (r, t)) (halone : w.Alone t) :
    w.Intact stored w.pages t :=
  hintact.moves h (step_moves h run) (fun _ hl => spares_of_foreign
    (foreign_of_makes hintact.owned hl)) halone

/-- The operation removes one of the pages of the mapping. -/
def Discards (w : Window) (op : Op) : Prop := ∃ k < w.pages, Machine.Discards (w.place k) op

/-- No page is taken away or stored to. -/
def Harmless : Label → Prop
  | .unseat .. | .remove .. | .store .. => False
  | _ => True

theorem spares_of_harmless {l : Label} (hl : w.Foreign l) (h : Harmless l) : w.Spares first l := by
  cases l with
  | unseat | remove | store => exact h.elim
  | _ => exact hl

/-- As long as the mapping is there nothing happens to its pages but what is stored to them. -/
theorem perform_spares (h : Coherent ⟨s, none⟩) (hn : s.Numbered) (howned : w.Owned 0 s)
    (hstands : w.Stands s) {op : SpaceOp} (hstore : ∀ bytes, op ≠ .copyTo bytes)
    {r : Except Failure Value} (hkept : w.Discards (.onSpace id a.value op) → ∃ e, r = .error e)
    (run : perform id a op s = .ok (r, t)) (hstill : w.Stands t) :
    Moves (w.Spares 0) ⟨s, none⟩ ⟨t, none⟩ := by
  have hmoves := perform_moves h run
  have hharmless : (∀ l, op.Makes s id a l → Harmless l) →
      Moves (w.Spares 0) ⟨s, none⟩ ⟨t, none⟩ := fun hl => hmoves.mono fun l hmakes =>
    spares_of_harmless (@foreign_of_makes w 0 s (.onSpace id a.value op) howned l hmakes)
      (hl l hmakes)
  cases op with
  | teardown =>
    obtain ⟨q, hq, -⟩ := liftPager_eq_ok.1 run
    refine hmoves.mono fun l hl => spares_of_clears ?_ hl
    rintro rfl
    obtain ⟨sp, hs, -⟩ := hstill
    rw [(teardown_moves h hq).2.2, Table.get?_erase, if_pos rfl] at hs
    cases hs
  | munmap =>
    obtain ⟨q, hq, -⟩ := liftPager_eq_ok.1 run
    refine (munmap_spares h hn hstands ?_ hq).1
    rintro rfl hstart
    obtain ⟨sp, hs, hrecord⟩ := hstands
    obtain ⟨sp', hs', ⟨hnone, -⟩ | ⟨record, after, hunmaps, ht⟩⟩ := munmap_unmaps h hn hq
    · cases hs.symm.trans hs'
      rw [hstart, hrecord] at hnone
      cases hnone
    · obtain ⟨sp'', hs'', hrecord'⟩ := hstill
      rw [ht, Table.get?_insert_self] at hs''
      cases hs''
      exact (hunmaps.get?_mappings.1 hrecord').1 hstart.symm
  | remove =>
    obtain ⟨q, hq, rfl⟩ := liftPager_eq_ok.1 run
    obtain ⟨sp, -, ⟨-, -, rfl⟩ | ⟨p, _, -, rfl, hremoves, -⟩⟩ := remove_moves h hq
    · exact .refl
    · refine hremoves.mono fun l hl => ?_
      cases l with
      | unseat pl q | remove pl q =>
        rintro - k - hlt hplace
        have hself : Place.of id a = w.place k := hl.1.symm.trans hplace
        obtain rfl : id = w.space := congrArg Place.space hself
        obtain ⟨e, he⟩ := hkept ⟨k, hlt, a.value, rfl, hself⟩
        cases he
      | _ => first | exact True.intro | exact hl.elim
  | copyFrom length =>
    obtain ⟨q, hq, -⟩ := liftPager_eq_ok.1 run
    exact (readUser_moves h hq).mono fun l hl => spares_of_claims hl
  | copyTo bytes => exact absurd rfl (hstore bytes)
  | duplicate refuses =>
    refine hmoves.mono fun l hl => ?_
    have hforeign := @foreign_of_makes w 0 s (.onSpace id a.value (.duplicate refuses)) howned l hl
    rcases hl with hl | hl
    · exact spares_of_harmless hforeign (by cases l <;> first | exact True.intro | exact hl.elim)
    · refine spares_of_clears ?_ hl
      intro hself
      obtain ⟨sp, hs, -⟩ := hstands
      have hfresh := h.fresh s.nextSpace (Nat.le_refl _)
      rw [hself] at hfresh
      cases hs.symm.trans hfresh
  | pin | fault =>
    refine hharmless fun l hl => ?_
    cases l <;> first | exact True.intro | exact hl.elim False.elim False.elim
  | touch => exact hharmless fun l hl => by rcases hl with rfl | rfl <;> exact True.intro
  | _ => exact hharmless fun l hl => by cases l <;> first | exact True.intro | exact hl.elim

/-- What was stored in the space of the mapping, after an operation. -/
def after (w : Window) (stored : Nat → Option UInt8) (s : Machine) (op : Op) :
    Nat → Option UInt8 :=
  match op with
  | .onSpace id address (.copyTo bytes) =>
    w.receiving stored id address (bytes.take (op.storedCount s))
  | _ => stored

/-- Every operation keeps the mapping as it is, but for what it stores there. -/
theorem Intact.of_step (hintact : w.Intact stored 0 s) (h : Coherent ⟨s, none⟩) (hn : s.Numbered)
    (hstands : w.Stands s) {r : Except Failure Value}
    (hkept : w.Discards op → ∃ e, r = .error e) (run : step op s = .ok (r, t))
    (hstill : w.Stands t) (halone : w.Alone t) :
    w.Intact (w.after stored s op) 0 t := by
  have hharmless : (∀ l, op.Makes s l → Harmless l) → w.Intact stored 0 t := fun hl =>
    hintact.moves h (step_moves h run) (fun l hmakes =>
      spares_of_harmless (foreign_of_makes hintact.owned hmakes) (hl l hmakes)) halone
  cases op with
  | onSpace id address op =>
    by_cases hstore : ∃ bytes, op = .copyTo bytes
    · obtain ⟨bytes, rfl⟩ := hstore
      unfold after
      dsimp only
      rcases copyTo_cases run with ⟨hcount, rfl⟩ | ⟨hcount, q, hq⟩
      · rw [hcount, List.take_zero, receiving_nil]
        exact hintact
      · rw [hcount]
        exact hintact.writePieces h (Nat.le_refl _) hq halone
    · have hsame : w.after stored s (.onSpace id address op) = stored := by
        cases op <;> first | rfl | exact absurd ⟨_, rfl⟩ hstore
      rw [hsame]
      rcases onSpace_cases run with ⟨-, -, hrun⟩ | ⟨-, rfl⟩
      · have hmoves := perform_spares h hn hintact.owned hstands
          (fun bytes he => hstore ⟨bytes, he⟩) hkept hrun hstill
        exact hintact.moves h hmoves (fun _ hl => hl) halone
      · exact hintact
  | createSpace =>
    refine hharmless fun l hl => ?_
    rcases hl with rfl | rfl <;> exact True.intro
  | unlock => exact hharmless fun l hl => by cases l <;> first | exact True.intro | exact hl.elim
  | _ => exact hharmless fun l hl => hl ▸ True.intro

/-- The operation stores to a page of a file through the handle of the mapping. -/
def Writes (w : Window) (s : Machine) : Op → Prop
  | .onSpace id address (.copyTo bytes) =>
    ∃ i < Op.storedCount s (.onSpace id address (.copyTo bytes)),
      w.Covers s (.containing id (address + i))
  | .onSpace id address (.touch true) => w.Covers s (.of id ⟨address⟩) ∧
    ∃ sp, s.spaces.get? id = some sp ∧
      sp.directory.isPresent (Address.pageBase ⟨address⟩) = true
  | _ => False

/-- If nothing is stored through the mapping, nothing is asked of its file either. -/
theorem Untouched.of_step (huntouched : w.Untouched s) (h : Coherent ⟨s, none⟩)
    (howned : w.Owned first s) (hspared : ¬ w.Writes s op) {r : Except Failure Value}
    (run : step op s = .ok (r, t)) : w.Untouched t := by
  have hclean : (∀ pl, ¬ op.Makes s (.soil pl)) → w.Untouched t := fun hsoil =>
    huntouched.moves h howned (step_moves h run) (fun _ => foreign_of_makes howned)
      fun pl hl => absurd hl (hsoil pl)
  cases op with
  | onSpace id address op =>
    cases op with
    | copyTo bytes =>
      rcases copyTo_cases run with ⟨-, rfl⟩ | ⟨hcount, q, hq⟩
      · exact huntouched
      · refine huntouched.writePieces h howned (Nat.le_refl _) hq fun i hi hcovers => hspared ?_
        exact ⟨i, hcount ▸ hi, hcovers⟩
    | copyFrom length =>
      rcases onSpace_cases run with ⟨-, -, hrun⟩ | ⟨-, rfl⟩
      · obtain ⟨q, hq, -⟩ := liftPager_eq_ok.1 hrun
        refine huntouched.moves h howned (readUser_moves h hq) (fun l hl => ?_) fun pl hl => hl.elim
        have hspares : w.Spares first l := spares_of_claims hl
        exact hspares.foreign
      · exact huntouched
    | touch write =>
      rcases onSpace_cases run with ⟨-, -, hrun⟩ | ⟨-, rfl⟩
      · obtain ⟨q, hq, -⟩ := liftPager_eq_ok.1 hrun
        rcases touch_cases hq with rfl | ⟨hpresent, hmoves⟩
        · exact huntouched
        · refine huntouched.moves h howned hmoves ?_ ?_
          · rintro l (rfl | ⟨-, rfl⟩) <;> exact True.intro
          · rintro pl (hl | ⟨rfl, hl⟩) hcovers
            · cases hl
            · cases hl
              exact hspared ⟨hcovers, hpresent⟩
      · exact huntouched
    | remove => exact hclean fun pl hl => hl.elim fun _ hl => hl
    | pin | fault | duplicate => exact hclean fun pl hl => hl.elim False.elim False.elim
    | _ => exact hclean fun pl hl => hl.elim
  | createSpace => exact hclean fun pl hl => by rcases hl with hl | hl <;> cases hl
  | unlock => exact hclean fun pl hl => hl.elim
  | _ => exact hclean fun pl hl => by cases hl

/-- The mapping is there all the time, and none of its pages is removed. -/
def Kept (w : Window) : List Op → Machine → Prop
  | [], s => w.Stands s
  | op :: rest, s => w.Stands s ∧ ∀ r t, step op s = .ok (r, t) →
      (w.Discards op → ∃ e, r = .error e) ∧ Kept w rest t

/-- Nothing is stored through the mapping. -/
def Unwritten (w : Window) : List Op → Machine → Prop
  | [], _ => True
  | op :: rest, s => ¬ w.Writes s op ∧ ∀ r t, step op s = .ok (r, t) → Unwritten w rest t

/-- What was stored in the space of the mapping, address by address, after some operations. -/
def afterAll (w : Window) : List Op → Machine → (Nat → Option UInt8) → Nat → Option UInt8
  | [], _, stored => stored
  | op :: rest, s, stored =>
    match step op s with
    | .ok (_, t) => afterAll w rest t (w.after stored s op)
    | .error _ => stored

theorem Kept.stands {ops : List Op} (h : w.Kept ops s) : w.Stands s := by
  cases ops with
  | nil => exact h
  | cons => exact h.1

section Run

variable {ops : List Op} {results : List (Except Failure Value)}

/-- As long as the mapping is there it holds what was stored to it. -/
theorem Intact.of_run (hintact : w.Intact stored 0 s) (h : Coherent ⟨s, none⟩) (hn : s.Numbered)
    (hkept : w.Kept ops s) (hrun : run ops s = .ok (results, t)) (halone : w.Alone t) :
    w.Intact (w.afterAll ops s stored) 0 t ∧ w.Stands t := by
  induction ops generalizing s results stored with
  | nil =>
    cases hrun
    exact ⟨hintact, hkept⟩
  | cons op rest ih =>
    obtain ⟨r, u, later, hstep, hrest, -⟩ := run_cons_eq_ok.1 hrun
    obtain ⟨hstands, hthen⟩ := hkept
    have hu := h.moves (step_moves h hstep)
    have hnu : u.Numbered := (step_reckons h hstep hn).1
    have halone' : w.Alone u := hu.since_before_moves (run_moves hu hrest) halone
    obtain ⟨hspared, hnext⟩ := hthen r u hstep
    rw [afterAll, hstep]
    exact ih (hintact.of_step h hn hstands hspared hstep hnext.stands halone') hu hnu hnext hrest

/-- Once the mapping has ended its file stays as it is. -/
theorem Intact.of_run_ended (hintact : w.Intact stored w.pages s) (h : Coherent ⟨s, none⟩)
    (hrun : run ops s = .ok (results, t)) (halone : w.Alone t) : w.Intact stored w.pages t := by
  induction ops generalizing s results with
  | nil =>
    cases hrun
    exact hintact
  | cons op rest ih =>
    obtain ⟨r, u, later, hstep, hrest, -⟩ := run_cons_eq_ok.1 hrun
    have hu := h.moves (step_moves h hstep)
    have halone' : w.Alone u := hu.since_before_moves (run_moves hu hrest) halone
    exact ih (hintact.of_step_ended h hstep halone') hu hrest

theorem Untouched.of_run (huntouched : w.Untouched s) (h : Coherent ⟨s, none⟩)
    (howned : w.Owned first s) (hspared : w.Unwritten ops s)
    (hrun : run ops s = .ok (results, t)) : w.Untouched t := by
  induction ops generalizing s results with
  | nil =>
    cases hrun
    exact huntouched
  | cons op rest ih =>
    obtain ⟨r, u, later, hstep, hrest, -⟩ := run_cons_eq_ok.1 hrun
    exact ih (huntouched.of_step h howned hspared.1 hstep) (h.moves (step_moves h hstep))
      (howned.of_step h hstep) (hspared.2 r u hstep) hrest

end Run

theorem kept_of_visited {ops : List Op} (hspared : ∀ op ∈ ops, ¬ w.Discards op)
    (hstands : ∀ u ∈ s :: visited ops s, w.Stands u) : w.Kept ops s := by
  induction ops generalizing s with
  | nil => exact hstands s (List.mem_singleton_self s)
  | cons op rest ih =>
    refine ⟨hstands s (List.mem_cons_self ..), fun r t hstep => ⟨fun hdiscards => ?_, ?_⟩⟩
    · exact absurd hdiscards (hspared op (List.mem_cons_self ..))
    · rw [visited, hstep] at hstands
      exact ih (fun op hmem => hspared op (List.mem_cons_of_mem _ hmem)) fun u hmem =>
        hstands u (List.mem_cons_of_mem _ hmem)

/-- The mapping ends well: it is unmapped without an error, or its space ends and all writes are
taken in full. -/
def Ends (w : Window) (op : Op) (s t : Machine) : Prop :=
  op = .onSpace w.space w.start .munmap ∨
    (∃ address, op = .onSpace w.space address .teardown) ∧ s.Serves t

/-- The file has its length, what the mapping held where it was mapped, and what it had before
elsewhere. -/
structure Saved (w : Window) (stored : Nat → Option UInt8) (data : Bytes) : Prop where
  length : data.length = w.before.length
  inside : ∀ i < w.count, data[w.offset + i]? = some (w.byte stored i)
  outside : ∀ i, i < w.offset ∨ w.offset + w.count ≤ i → data[i]? = w.before[i]?

theorem Holds.saves {data : Bytes} (hholds : w.Holds stored w.pages s data) :
    w.Saved stored data where
  length := hholds.length
  inside i hi := by
    have hindex : i / pageSize * pageSize + i % pageSize = i := Nat.div_add_mod' i pageSize
    have hlt : i / pageSize < w.pages := by
      have hlength : i < w.length := Nat.lt_of_lt_of_le hi (Nat.min_le_left ..)
      refine div_lt_pages ?_
      unfold pages pageSize
      omega
    have hbyte := hholds.saved hlt (Nat.mod_lt i (by decide)) (by rwa [hindex])
      fun hfirst => absurd hlt (Nat.not_lt.2 hfirst)
    rwa [hindex] at hbyte
  outside := hholds.outside

/-- A mapping that ends well is in its file. -/
theorem Intact.ends (hintact : w.Intact stored 0 s) (h : Coherent ⟨s, none⟩) (hn : s.Numbered)
    (hstands : w.Stands s) (hends : w.Ends op s t) {value : Value}
    (run : step op s = .ok (.ok value, t)) (halone : w.Alone t) :
    w.Intact stored w.pages t := by
  rcases hends with rfl | ⟨⟨address, rfl⟩, hserves⟩
  · rcases onSpace_cases run with ⟨-, -, hrun⟩ | ⟨⟨_, hr⟩, -⟩
    · obtain ⟨q, hq, hr⟩ := liftPager_eq_ok.1 hrun
      cases q with
      | error e => cases hr
      | ok => exact hintact.munmap h hn hstands rfl hq (.inl rfl) halone
    · cases hr
  · rcases onSpace_cases run with ⟨-, -, hrun⟩ | ⟨⟨_, hr⟩, -⟩
    · obtain ⟨q, hq, -⟩ := liftPager_eq_ok.1 hrun
      exact hintact.teardown h hn hstands hq hserves halone
    · cases hr

end Window

namespace Machine

variable {s t : Machine}

/-- A mapping that was made shows the file and what was stored to it, as long as it is there and
nobody else writes to the file. When it has ended well the file holds the same, and a file whose
mapping nobody stores to is never asked to take anything. -/
theorem Reachable.mmap_faithful (hs : Reachable s) {id : SpaceId} {address length offset : Nat}
    {writable : Bool} {file : Handle} {value : Value}
    (hmap : step (.onSpace id address (.mmap length writable file offset)) s =
      .ok (.ok value, t)) :
    ∃ w : Window, w.Requested id address length file offset s t ∧ w.Stands t ∧
      ∀ ops results u, run ops t = .ok (results, u) →
        (w.Unwritten ops t → ∃ calls, u.files.calls = calls ++ w.past ∧
          ∀ call ∈ calls, call.handle ≠ w.file) ∧
        (w.Kept ops t → w.Alone u →
          (∀ start count bytes v,
            step (.onSpace id start (.copyFrom count)) u = .ok (.ok (.bytes bytes), v) →
            w.Alone v → bytes.length = count ∧
              w.Shows (w.afterAll ops t fun _ => none) id start bytes) ∧
          ∀ op value v, step op u = .ok (.ok value, v) → w.Ends op u v →
            ∀ later others x, run later v = .ok (others, x) → w.Alone x →
              ∃ data, x.files.data? w.file.file = some data ∧
                w.Saved (w.afterAll ops t fun _ => none) data) := by
  obtain ⟨frames, sectors, files, before, start, answers, hboot, hrun⟩ := hs
  have hstart := boot_coherent hboot
  have h := hstart.moves (run_moves hstart hrun)
  have hn : s.Numbered := by
    refine run_numbered hstart (fun id sp hsp => ?_) hrun
    rw [boot_spaces hboot] at hsp
    cases hsp
  have hdated := run_dated hstart (boot_custody hboot) hrun
  have ht := h.moves (step_moves h hmap)
  have hnt : t.Numbered := (step_reckons h hmap hn).1
  obtain ⟨w, hrequested, hintact, huntouched, hstands⟩ : ∃ w : Window,
      w.Requested id address length file offset s t ∧ w.Intact (fun _ => none) 0 t ∧
        w.Untouched t ∧ w.Stands t := by
    rcases requireIdle_cases hmap with ⟨sp, -, -, hidle⟩ | ⟨⟨_, hr⟩, -⟩
    · obtain ⟨a, ha, hidle⟩ := Action.liftM_bind_eq_ok.1 hidle
      obtain ⟨-, rfl⟩ := Address.make_eq_ok.1 ha
      rcases held_cases hidle with ⟨q, hq, hr⟩ | ⟨hr, -⟩
      · cases q with
        | error e => cases hr
        | ok => exact Window.mmap_opens hdated hq
      · cases hr
    · cases hr
  refine ⟨w, hrequested, hstands, fun ops results u hops =>
    ⟨fun hunwritten => ?_, fun hkept halone => ?_⟩⟩
  · obtain ⟨calls, hcalls⟩ := ht.calls_grow (run_moves ht hops)
    rw [hrequested.past] at hcalls
    exact ⟨calls, hcalls, (huntouched.of_run ht hintact.owned hunwritten hops).silent calls hcalls⟩
  have hu := ht.moves (run_moves ht hops)
  have hnu : u.Numbered := run_numbered ht hnt hops
  obtain ⟨hafter, hstill⟩ := hintact.of_run ht hnt hkept hops halone
  constructor
  · intro start count bytes v hread halone'
    rcases requireIdle_cases hread with ⟨sp, -, -, hidle⟩ | ⟨⟨_, hr⟩, -⟩
    · obtain ⟨a, ha, hidle⟩ := Action.liftM_bind_eq_ok.1 hidle
      obtain ⟨-, rfl⟩ := Address.make_eq_ok.1 ha
      obtain ⟨q, hq, hr⟩ := liftPager_eq_ok.1 hidle
      cases q with
      | error e => cases hr
      | ok read =>
        cases hr
        exact hafter.readUser hu hq halone'
    · cases hr
  · intro op value v hop hends later others x hlater halone'
    have hv := hu.moves (step_moves hu hop)
    have hended := hafter.ends hu hnu hstill hends hop
      (hv.since_before_moves (run_moves hv hlater) halone')
    obtain ⟨data, hholds⟩ := (hended.of_run_ended hv hlater halone').holds
    exact ⟨data, hholds.file, hholds.saves⟩

/-- Two spaces share a frame. -/
def halving : List Op := [.createSpace, .createSpace,
  .onSpace 2 0x20000 (.registerAnonymous true)]

/-- A byte is stored to the mapping, and then its page has to go. -/
def amending : List Op := [.onSpace 1 0x10001 (.copyTo [7]), .onSpace 2 0x20000 .claim]

/-- The file of three bytes takes the page when it is moved out, the mapping shows the byte
when it is moved in again, and the file holds it after the mapping was unmapped. -/
theorem mmap_faithful_of_amending : ∃ (s t u v x : Machine) (w : Window) (value value' : Value)
    (results : List (Except Failure Value)) (bytes data : Bytes), Reachable s ∧
    step (.onSpace 1 0x10000 (.mmap 4096 true ⟨0, 0⟩ 0)) s = .ok (.ok value, t) ∧
    run amending t = .ok (results, u) ∧ w.Kept amending t ∧ w.Alone u ∧
    step (.onSpace 1 0x10000 (.copyFrom 4)) u = .ok (.ok (.bytes bytes), v) ∧
    bytes = [1, 7, 3, 0] ∧ w.Shows (w.afterAll amending t fun _ => none) 1 0x10000 bytes ∧
    step (.onSpace 1 0x10000 .munmap) u = .ok (.ok value', x) ∧
    x.files.data? 0 = some data ∧ data = [1, 7, 3] ∧
    w.Saved (w.afterAll amending t fun _ => none) data := by
  have hend : (boot 1 8 [[1, 2, 3]] >>= fun start => run halving start >>= fun before =>
      step (.onSpace 1 0x10000 (.mmap 4096 true ⟨0, 0⟩ 0)) before.2 >>= fun mapped =>
      run amending mapped.2 >>= fun last =>
      step (.onSpace 1 0x10000 (.copyFrom 4)) last.2 >>= fun read =>
      step (.onSpace 1 0x10000 .munmap) last.2 >>= fun gone =>
        .ok (mapped.1.toBool && gone.1.toBool &&
            [last.2, read.2, gone.2].all fun m => m.files.calls.all (·.handle = ⟨0, 1⟩),
          (mapped.2 :: visited amending mapped.2).map fun m =>
            ((m.spaces.get? 1).bind fun sp => sp.mappings.get? 0x10000).map fun record =>
              [record.id, record.pages, record.file.file, record.file.serial],
          [bytesRead [read.1] 0, gone.2.files.data? 0])) =
      .ok (true, [some [1, 1, 0, 1], some [1, 1, 0, 1], some [1, 1, 0, 1]],
        [some [1, 7, 3, 0], some [1, 7, 3]]) := by
    decide +kernel
  obtain ⟨start, hboot, hend⟩ := except_bind_eq_ok.1 hend
  obtain ⟨⟨answers, s⟩, hrun, hend⟩ := except_bind_eq_ok.1 hend
  obtain ⟨⟨mapped, t⟩, hmap, hend⟩ := except_bind_eq_ok.1 hend
  obtain ⟨⟨results, u⟩, hops, hend⟩ := except_bind_eq_ok.1 hend
  obtain ⟨⟨read, v⟩, hread, hend⟩ := except_bind_eq_ok.1 hend
  obtain ⟨⟨gone, x⟩, hgone, hend⟩ := except_bind_eq_ok.1 hend
  obtain ⟨hdone, hrest⟩ := Prod.mk.inj (Except.ok.inj hend)
  obtain ⟨hrecords, hbytes⟩ := Prod.mk.inj hrest
  simp only [Bool.and_eq_true, List.all_cons, List.all_nil, and_true, List.all_eq_true,
    decide_eq_true_eq] at hdone
  obtain ⟨⟨hmapped, hunmapped⟩, hcallsu, hcallsv, hcallsx⟩ := hdone
  simp only [List.cons.injEq, and_true] at hbytes
  cases Option.some.inj (of_bytesRead hbytes.1)
  cases mapped with
  | error => cases hmapped
  | ok value => ?_
  cases gone with
  | error => cases hunmapped
  | ok value' => ?_
  have hs : Reachable s := ⟨1, 8, [[1, 2, 3]], halving, start, answers, hboot, hrun⟩
  obtain ⟨w, hrequested, hstands, hfaithful⟩ := hs.mmap_faithful hmap
  have hrecord : ∀ m ∈ t :: visited amending t, ∃ sp, m.spaces.get? 1 = some sp ∧
      sp.mappings.get? 0x10000 = some ⟨1, 1, ⟨0, 1⟩⟩ := by
    intro m hm
    have hmem := hrecords ▸ List.mem_map_of_mem hm
    simp only [List.mem_cons, List.not_mem_nil, or_false, or_self] at hmem
    obtain ⟨record, hrecord, hentries⟩ := Option.map_eq_some_iff.1 hmem
    obtain ⟨sp, hsp, hget⟩ := Option.bind_eq_some_iff.1 hrecord
    simp only [List.cons.injEq, and_true] at hentries
    obtain ⟨hid, hpages, hfile, hserial⟩ := hentries
    obtain ⟨id, pages, file, serial⟩ := record
    subst hid hpages hfile hserial
    exact ⟨sp, hsp, hget⟩
  have hfile : w.file = ⟨0, 1⟩ ∧ w.mapping = 1 := by
    obtain ⟨sp, hsp, hget⟩ := hstands
    obtain ⟨sp', hsp', hget'⟩ := hrecord t (List.mem_cons_self ..)
    rw [hrequested.space, hsp'] at hsp
    cases hsp
    rw [hrequested.start, hget'] at hget
    exact ⟨(congrArg Mapping.file (Option.some.inj hget)).symm,
      (congrArg Mapping.id (Option.some.inj hget)).symm⟩
  have hpages : w.pages = 1 := by rw [Window.pages, hrequested.length]; rfl
  have halone : ∀ m, (∀ call ∈ m.files.calls, call.handle = ⟨0, 1⟩) → w.Alone m := by
    intro m hcalls calls hsplit call hmem _ _
    rw [hfile.1]
    exact hcalls call (hsplit ▸ List.mem_append_left _ hmem)
  have hkept : w.Kept amending t := by
    refine Window.kept_of_visited ?_ fun m hm => ?_
    · rintro op hop ⟨k, -, address, rfl, -⟩
      simp [amending] at hop
    · obtain ⟨sp, hsp, hget⟩ := hrecord m hm
      rw [Window.Stands, hrequested.space, hrequested.start, hfile.1, hfile.2, hpages]
      exact ⟨sp, hsp, hget⟩
  obtain ⟨hreads, hends⟩ := (hfaithful amending results u hops).2 hkept (halone u hcallsu)
  obtain ⟨data, hdata, hsaved⟩ := hends _ value' x hgone
    (.inl (by rw [hrequested.space, hrequested.start])) [] [] x rfl (halone x hcallsx)
  rw [hfile.1] at hdata
  exact ⟨s, t, u, v, x, w, value, value', results, _, data, hs, hmap, hops, hkept,
    halone u hcallsu, hread, rfl, (hreads _ _ _ v hread (halone v hcallsv)).2, hgone, hdata,
    Option.some.inj (hdata.symm.trans hbytes.2), hsaved⟩

end Machine
end Pager
