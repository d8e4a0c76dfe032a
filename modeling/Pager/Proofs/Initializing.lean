import Pager.Proofs.Ageing
import Pager.Proofs.Snapshot

/-!
An initializer succeeds at most once for a page. The machine keeps account of the
initializers that it runs. For a page that stays registered the account shows its own
initializer only, which fails time and again while the page waits, and then succeeds
and is not run again. A page that was copied while it waited has an account of its own.
-/
namespace Pager

open Function

/-- A run of the initializer that the page waits for. -/
def Unpopulated.ran (u : Unpopulated) (outcome : Except PagerError Unit) : Initialization :=
  ⟨u.initializer, u.slice, outcome⟩

/-- The runs for the page at a place. -/
def Place.runs (pl : Place) (inits : List (Owner × Initialization)) : List Initialization :=
  (inits.filter fun entry => entry.1 = pl.owner).map Prod.snd

/-- What becomes of a page by runs of initializers, the latest of them first. -/
inductive Page.Fares (p : Page) : List Initialization → Page → Prop
  /-- The page waits, since every run of its initializer failed. -/
  | waits {q : Page} {u : Unpopulated} (errors : List PagerError)
      (before : p.kind = .unpopulated u) (after : q.kind = .unpopulated u)
      (absent : q.frame = none) (slotless : q.slot = none) :
      Fares p (errors.map fun e => u.ran (.error e)) q
  /-- The page was populated by the last run of its initializer. -/
  | turns {q : Page} {u : Unpopulated} (errors : List PagerError)
      (before : p.kind = .unpopulated u) (after : q.isInitialized = true)
      (type : q.type = u.target) :
      Fares p (u.ran (.ok ()) :: errors.map fun e => u.ran (.error e)) q
  /-- No initializer is run for a page that is populated. -/
  | stays {q : Page} (before : p.isInitialized = true) (after : q.isInitialized = true)
      (type : q.type = p.type) : Fares p [] q

namespace Place

variable {pl other : Place} {inits more : List (Owner × Initialization)}

theorem runs_append : pl.runs (more ++ inits) = pl.runs more ++ pl.runs inits := by
  rw [runs, List.filter_append, List.map_append]
  rfl

theorem runs_own (runs : List Initialization) : pl.runs (runs.map (Prod.mk pl.owner)) = runs := by
  induction runs with
  | nil => rfl
  | cons run rest ih =>
    rw [Place.runs, List.map_cons, List.filter_cons_of_pos (by simp), List.map_cons]
    exact congrArg (run :: ·) ih

theorem runs_other (hne : pl ≠ other) (runs : List Initialization) :
    pl.runs (runs.map (Prod.mk other.owner)) = [] := by
  rw [Place.runs, List.map_eq_nil_iff, List.filter_eq_nil_iff]
  rintro entry hentry howner
  obtain ⟨run, -, rfl⟩ := List.mem_map.1 hentry
  exact hne (eq_of_owner (of_decide_eq_true howner)).symm

end Place

namespace Page

variable {p q o : Page}

theorem isInitialized_of_waits {u : Unpopulated} (h : p.kind = .unpopulated u) :
    p.isInitialized = false := by
  rw [isInitialized, h]

theorem slot_of_waits {u : Unpopulated} (h : p.kind = .unpopulated u) : p.slot = none := by
  rw [slot, h]

theorem type_of_waits {u : Unpopulated} (h : p.kind = .unpopulated u) : p.type = u.target := by
  rw [type, h]

theorem waits_of_resting {u : Unpopulated} (hrests : q.resting = p.resting)
    (hk : p.kind = .unpopulated u) : q.kind = .unpopulated u := by
  have hrest : q.resting.kind = .unpopulated u := by rw [hrests, resting, hk]
  cases hq : q.kind with
  | unpopulated w =>
    rw [resting, hq] at hrest
    exact hrest
  | anonymous | fileBacked =>
    rw [resting, hq] at hrest
    cases hrest

namespace Fares

/-- A page that is as it was, but for where it lies. -/
theorem of_resting (hrests : q.resting = p.resting)
    (habs : q.isInitialized = false → q.frame = none) : p.Fares [] q := by
  have hinit : q.isInitialized = p.isInitialized := by
    rw [← isInitialized_resting, hrests, isInitialized_resting]
  have htype : q.type = p.type := by rw [← type_resting, hrests, type_resting]
  cases hk : p.kind with
  | unpopulated u =>
    have hkind := waits_of_resting hrests hk
    exact .waits [] hk hkind (habs (isInitialized_of_waits hkind)) (slot_of_waits hkind)
  | anonymous | fileBacked =>
    have hp : p.isInitialized = true := by rw [isInitialized, hk]
    exact .stays hp (hinit.trans hp) htype

theorem trans {runs more : List Initialization} (h : p.Fares runs o) (h' : o.Fares more q) :
    p.Fares (more ++ runs) q := by
  cases h with
  | @waits _ u errors hp ho =>
    cases h' with
    | @waits _ w others ho' hq habs hslot =>
      cases ho.symm.trans ho'
      rw [← List.map_append]
      exact .waits (others ++ errors) hp hq habs hslot
    | @turns _ w others ho' hq htype =>
      cases ho.symm.trans ho'
      rw [List.cons_append, ← List.map_append]
      exact .turns (others ++ errors) hp hq htype
    | stays ho' =>
      rw [isInitialized_of_waits ho] at ho'
      cases ho'
  | @turns _ u errors hp ho htype =>
    cases h' with
    | waits _ ho' | turns _ ho' =>
      rw [isInitialized_of_waits ho'] at ho
      cases ho
    | stays _ hq htype' => exact .turns errors hp hq (htype'.trans htype)
  | stays hp ho htype =>
    cases h' with
    | waits _ ho' | turns _ ho' =>
      rw [isInitialized_of_waits ho'] at ho
      cases ho
    | stays _ hq htype' => exact .stays hp hq (htype'.trans htype)

/-- What becomes of a page by the runs that two stretches of an account add. -/
theorem accounted {pl : Place} {before middle after : List (Owner × Initialization)}
    (h : ∃ calls, middle = calls ++ before ∧ p.Fares (pl.runs calls) o)
    (h' : ∃ calls, after = calls ++ middle ∧ o.Fares (pl.runs calls) q) :
    ∃ calls, after = calls ++ before ∧ p.Fares (pl.runs calls) q := by
  obtain ⟨calls, rfl, hfares⟩ := h
  obtain ⟨more, rfl, hnext⟩ := h'
  refine ⟨more ++ calls, by rw [List.append_assoc], ?_⟩
  rw [Place.runs_append]
  exact hfares.trans hnext

end Fares

end Page

/-- The place whose page's initializer a move may run. -/
def Label.runs? : Label → Option Place
  | attempt pl | populate pl | lose pl => some pl
  | _ => none

/-- A page of a file, or one that is to be, has the file. -/
def Page.NamesFile (p : Page) : Prop := p.type = .fileBacked → ∃ handle, p.handle = some handle

def Label.NamesFile : Label → Prop
  | register _ page => page.NamesFile
  | _ => True

/-- What the account is about was created, and pages of files have theirs. -/
structure Machine.Accounted (s : Machine) : Prop where
  named : ∀ pl p, Pager.pageAt s.spaces pl = some p → p.NamesFile
  created : ∀ entry ∈ s.inits, entry.1.space < s.nextSpace

section

variable {m n : Moment} {l : Label} {pl other : Place} {p q : Page}

theorem Page.Ages.namesFile (h : p.Ages q) (hp : p.NamesFile) : q.NamesFile := by
  intro hq
  have htype : p.type = .fileBacked := h.type.symm.trans hq
  rcases h.slice htype with hkind | ⟨u, hk, hkind⟩
  · obtain ⟨handle, hhandle⟩ := hp htype
    refine ⟨handle, ?_⟩
    rw [Page.handle, hkind]
    exact hhandle
  · rcases Transfer.populated_kind hkind with ⟨htarget, -⟩ | ⟨-, file, -, hfile⟩
    · rw [Page.type, hk] at htype
      cases htarget.symm.trans htype
    · exact ⟨file, by rw [Page.handle, hfile]⟩

/-- A page that waits and names a file, if it is to be of one, turns into what it is to be. -/
theorem Page.NamesFile.populated (h : p.NamesFile) {u : Unpopulated}
    (hk : p.kind = .unpopulated u) {e : PagerError} : u.populated ≠ .error e := by
  intro he
  unfold Unpopulated.populated at he
  cases htarget : u.target with
  | anonymous =>
    rw [htarget] at he
    cases he
  | fileBacked =>
    obtain ⟨handle, hhandle⟩ := h ((Page.type_of_waits hk).trans htarget)
    have hfile : u.slice.file = some handle := by
      rw [Page.handle, hk] at hhandle
      exact hhandle
    rw [htarget, hfile] at he
    cases he

theorem Move.inits_still (hmove : Move l m n) (hl : l.runs? = none) :
    n.machine.inits = m.machine.inits := by
  cases hmove <;> first | rfl | cases hl

theorem Move.inits_grow (hmove : Move l m n) (hl : l.runs? = some other) :
    (∃ sp, m.machine.spaces.get? other.space = some sp) ∧ ∃ runs : List Initialization,
      n.machine.inits = runs.map (Prod.mk other.owner) ++ m.machine.inits := by
  cases hmove with
  | attempt hs =>
    cases hl
    exact ⟨⟨_, hs⟩, [_], rfl⟩
  | populate _ hs | lose _ hs =>
    cases hl
    exact ⟨⟨_, hs⟩, _, rfl⟩
  | _ => cases hl

theorem Move.nextSpace_le (hmove : Move l m n) : m.machine.nextSpace ≤ n.machine.nextSpace := by
  cases hmove <;> first | exact Nat.le_refl _ | exact Nat.le_succ _

theorem Coherent.accounted_move (h : Coherent m) (hmove : Move l m n) (hl : l.NamesFile)
    (hm : m.machine.Accounted) : n.machine.Accounted where
  named := by
    intro pl q hq
    rcases h.page_before hmove hq with rfl | ⟨p, hp, hages⟩
    · exact hl
    · exact hages.namesFile (hm.named pl p hp)
  created := by
    have hold : ∀ entry ∈ m.machine.inits, entry.1.space < n.machine.nextSpace :=
      fun entry hentry => Nat.lt_of_lt_of_le (hm.created entry hentry) hmove.nextSpace_le
    cases hruns : l.runs? with
    | none => rwa [hmove.inits_still hruns]
    | some other =>
      obtain ⟨⟨sp, hs⟩, runs, hinits⟩ := hmove.inits_grow hruns
      rw [hinits]
      intro entry hentry
      rcases List.mem_append.1 hentry with hentry | hentry
      · obtain ⟨run, -, rfl⟩ := List.mem_map.1 hentry
        refine Nat.lt_of_lt_of_le (Nat.lt_of_not_le fun hle => ?_) hmove.nextSpace_le
        cases hs.symm.trans (h.fresh other.space hle)
      · exact hold entry hentry

/-- A page that waits lies nowhere. -/
theorem Coherent.absent_of_waits (h : Coherent m) (hp : pageAt m.machine.spaces pl = some p)
    (hinit : p.isInitialized = false) : p.frame = none := by
  cases hframe : p.frame with
  | none => rfl
  | some f =>
    rw [(h.linked.ready hp hframe).1] at hinit
    cases hinit

/-- A page that was filled: its initializer did not fail, or it was populated before. -/
theorem Transfer.Populated.fares {t u : Transfer} (h : Transfer.Populated t u)
    (hs : t.swap.Sound) (hf : t.frame.length = pageSize)
    (run : Transfer.populate t = .ok (.ok (), u)) (ht : t.inits = []) {q : Page}
    (hkind : q.kind = u.page.kind) : t.page.Fares u.inits q := by
  obtain ⟨hsame, hinit, -⟩ := h.spec hs hf
  have hq : q.isInitialized = true := by rw [Page.isInitialized, hkind, ← Page.isInitialized, hinit]
  have htype : q.type = t.page.type := by rw [← hsame.type, Page.type, hkind, ← Page.type]
  rcases Transfer.populate_inits hs run with ⟨w, outcome, hwaits, hinits, hends⟩ | ⟨hp, hinits⟩
  · obtain rfl : outcome = .ok () := by
      rcases hends with hr | ⟨hr, -⟩
      · exact hr.symm
      · exact hr
    rw [hinits, ht]
    exact .turns [] hwaits hq (htype.trans (Page.type_of_waits hwaits))
  · rw [hinits, ht]
    exact .stays hp hq htype

/-- A page is filled by a transfer, whether it gets the frame then or loses it. -/
theorem Coherent.filled (h : Coherent m) (hmove : Move l m n) (hl : l = .populate pl ∨ l = .lose pl)
    (hp : pageAt m.machine.spaces pl = some p) (hq : pageAt n.machine.spaces pl = some q) :
    ∃ bytes t, bytes.length = pageSize ∧
      Transfer.populate ⟨p, bytes, m.machine.swap, m.machine.files, []⟩ = .ok (.ok (), t) ∧
      q.kind = t.page.kind ∧
      n.machine.inits = t.inits.map (Prod.mk pl.owner) ++ m.machine.inits := by
  rcases hl with rfl | rfl
  · cases hmove with
    | populate hf hs hpage _ hfill =>
      cases hp.symm.trans (Coherent.pageAt_eq hs hpage)
      cases hq.symm.trans ((congrFun (Coherent.pageAt_put hs _ rfl) pl).trans (update_self ..))
      exact ⟨_, _, h.length_frame hf, hfill, rfl, rfl⟩
  · cases hmove with
    | lose hf hs hpage _ hfill =>
      cases hp.symm.trans (Coherent.pageAt_eq hs hpage)
      cases hq.symm.trans ((congrFun (Coherent.pageAt_put hs _ rfl) pl).trans (update_self ..))
      exact ⟨_, _, h.length_frame hf, hfill, rfl, rfl⟩

/-- What one move makes of a page that stays, and what is run for it. -/
theorem Coherent.fares (h : Coherent m) (hm : m.machine.Accounted) (hmove : Move l m n)
    (hp : pageAt m.machine.spaces pl = some p) (hq : pageAt n.machine.spaces pl = some q) :
    ∃ calls, n.machine.inits = calls ++ m.machine.inits ∧ p.Fares (pl.runs calls) q := by
  by_cases hown : l = .attempt pl ∨ l = .populate pl ∨ l = .lose pl
  · rcases hown with rfl | hfills
    · cases hmove with
      | @attempt s _ _ sp _ u outcome hs hpage habs hkind hfails =>
        cases hp.symm.trans (Coherent.pageAt_eq hs hpage)
        cases hq.symm.trans (Coherent.pageAt_eq hs hpage)
        refine ⟨[u.ran outcome].map (Prod.mk pl.owner), rfl, ?_⟩
        rw [Place.runs_own]
        cases outcome with
        | error e => exact .waits [e] hkind hkind habs (Page.slot_of_waits hkind)
        | ok _ =>
          obtain ⟨e, he⟩ := hfails rfl
          exact absurd he ((hm.named pl p hp).populated hkind)
    · obtain ⟨bytes, t, hlen, hfill, hkind, hinits⟩ := h.filled hmove hfills hp hq
      refine ⟨_, hinits, ?_⟩
      rw [Place.runs_own]
      rcases Transfer.populate_eq_ok h.swap hlen hfill with ⟨-, ht⟩ | ⟨e, he, -⟩
      · exact ht.fares h.swap hlen hfill rfl hkind
      · cases he
  · -- the page may lie elsewhere than before, and nothing is run for it
    have hrests : q.resting = p.resting :=
      h.resting_kept hmove (fun hfills => hown (.inr hfills)) hp hq
    have hwhere : q.isInitialized = false → q.frame = none := (h.move hmove).absent_of_waits hq
    cases hruns : l.runs? with
    | none => exact ⟨[], hmove.inits_still hruns, .of_resting hrests hwhere⟩
    | some other =>
      obtain ⟨-, runs, hinits⟩ := hmove.inits_grow hruns
      have hne : pl ≠ other := by
        rintro rfl
        cases l <;> cases hruns <;> simp at hown
      refine ⟨_, hinits, ?_⟩
      rw [Place.runs_other hne]
      exact .of_resting hrests hwhere

/-- What becomes of a page by moves that may take it away or bring it, but not both. -/
theorem Coherent.fares_moves {kinds : Label → Prop} (h : Coherent m) (hm : m.machine.Accounted)
    (hmoves : Moves kinds m n) (hnames : ∀ l, kinds l → l.NamesFile)
    (hapart : ∀ page p, kinds (.register pl page) → ¬ kinds (.remove pl p))
    (hp : pageAt m.machine.spaces pl = some p) (hq : pageAt n.machine.spaces pl = some q) :
    ∃ calls, n.machine.inits = calls ++ m.machine.inits ∧ p.Fares (pl.runs calls) q := by
  have hend := h.lasts (R := fun n q => n.machine.Accounted ∧ ∃ calls,
    n.machine.inits = calls ++ m.machine.inits ∧ p.Fares (pl.runs calls) q) hmoves hapart ?_ hp
    ⟨hm, [], rfl, .of_resting rfl (h.absent_of_waits hp)⟩
  · rcases hend with ⟨q', hq', -, hfares⟩ | ⟨hnone, -⟩
    · cases hq.symm.trans hq'
      exact hfares
    · cases hq.symm.trans hnone
  · rintro l u v o o' hl hu hmove ho ho' ⟨haccounted, hfares⟩
    exact ⟨hu.accounted_move hmove (hnames l hl) haccounted,
      Page.Fares.accounted hfares (hu.fares haccounted hmove ho ho')⟩

end

namespace Machine

variable {s t : Machine} {op : Op} {pl : Place} {p q : Page}

/-- What operations register as a page of a file has one. -/
theorem namesFile_of_makes {l : Label} (hl : op.Makes s l) : l.NamesFile := by
  cases l with
  | register pl page =>
    intro htype
    have hborrows : page.Borrows s.files.held → ∃ handle, page.handle = some handle := by
      intro hborrows
      obtain ⟨handle, -, hhandle⟩ := hborrows htype
      exact ⟨handle, hhandle⟩
    cases op with
    | onSpace id address op =>
      cases op with
      | registerAnonymous | register | registerSegment => exact hborrows hl.2.2.1
      | mmap =>
        obtain ⟨-, -, ⟨file, hfile⟩, -⟩ := hl
        exact ⟨_, hfile⟩
      | fault =>
        rcases hl with hl | hl
        · exact hborrows hl.2.2.1
        · exact hl.elim
      | duplicate =>
        rcases hl with hl | hl
        · cases hl.2.2.symm.trans htype
        · exact hl.elim
      | remove =>
        obtain ⟨_, hl⟩ := hl
        exact hl.elim
      | pin => exact hl.elim False.elim False.elim
      | touch => rcases hl with hl | hl <;> cases hl
      | _ => exact hl.elim
    | createSpace => rcases hl with hl | hl <;> cases hl
    | unlock => exact hl.elim
    | _ => cases hl
  | _ => exact True.intro

theorem step_accounted (h : Coherent ⟨s, none⟩) (hs : s.Accounted) {r : Except Failure Value}
    (run : step op s = .ok (r, t)) : t.Accounted :=
  h.preserves (P := fun n => n.machine.Accounted) (step_moves h run)
    (fun hl hm haccounted hmove => hm.accounted_move hmove (namesFile_of_makes hl) haccounted) hs

theorem step_fares (h : Coherent ⟨s, none⟩) (hs : s.Accounted) {r : Except Failure Value}
    (run : step op s = .ok (r, t)) (hp : Pager.pageAt s.spaces pl = some p)
    (hq : Pager.pageAt t.spaces pl = some q) :
    ∃ calls, t.inits = calls ++ s.inits ∧ p.Fares (pl.runs calls) q :=
  h.fares_moves hs (step_moves h run) (fun _ => namesFile_of_makes) (apart_of_makes h hp) hp hq

/-- For any two states of a run in which a page stays registered, the later account goes on from
the earlier one with what became of the page. -/
def InitializesOnce (s : Machine) (pl : Place) : Prop :=
  ∀ ops, (∀ v ∈ s :: visited ops s, ∃ p, Pager.pageAt v.spaces pl = some p) →
    (s :: visited ops s).Pairwise fun v w => ∀ p q, Pager.pageAt v.spaces pl = some p →
      Pager.pageAt w.spaces pl = some q →
        ∃ calls, w.inits = calls ++ v.inits ∧ p.Fares (pl.runs calls) q

/-- The page at a place waits for its initializer, and has neither frame nor slot. -/
def Waits (s : Machine) (pl : Place) (u : Unpopulated) : Prop :=
  ∃ q, Pager.pageAt s.spaces pl = some q ∧ q.kind = .unpopulated u ∧ q.frame = none ∧ q.slot = none

theorem visited_fares {ops : List Op} (h : Coherent ⟨s, none⟩) (hs : s.Accounted)
    (hstays : ∀ v ∈ visited ops s, ∃ p, Pager.pageAt v.spaces pl = some p)
    (hp : Pager.pageAt s.spaces pl = some p) (ht : t ∈ visited ops s)
    (hq : Pager.pageAt t.spaces pl = some q) :
    ∃ calls, t.inits = calls ++ s.inits ∧ p.Fares (pl.runs calls) q := by
  induction ops generalizing s p with
  | nil => cases ht
  | cons op rest ih =>
    rw [visited] at ht hstays
    cases hstep : step op s with
    | error b =>
      rw [hstep] at ht
      cases ht
    | ok outcome =>
      obtain ⟨r, u⟩ := outcome
      rw [hstep] at ht hstays
      obtain ⟨o, ho⟩ := hstays u (List.mem_cons_self ..)
      rcases List.mem_cons.1 ht with rfl | ht
      · exact step_fares h hs hstep hp hq
      · exact Page.Fares.accounted (step_fares h hs hstep hp ho) (ih (h.moves (step_moves h hstep))
          (step_accounted h hs hstep) (fun v hv => hstays v (List.mem_cons_of_mem _ hv)) ho ht)

theorem initializesOnce (h : Coherent ⟨s, none⟩) (hs : s.Accounted) (pl : Place) :
    s.InitializesOnce pl := by
  intro ops
  induction ops generalizing s with
  | nil =>
    intro _
    exact List.pairwise_singleton ..
  | cons op rest ih =>
    intro hstays
    refine List.pairwise_cons.2 ⟨fun w hw p q hp hq => ?_, ?_⟩
    · exact visited_fares h hs (fun v hv => hstays v (List.mem_cons_of_mem _ hv)) hp hw hq
    · rw [visited] at hstays ⊢
      cases hstep : step op s with
      | error b => exact .nil
      | ok outcome =>
        obtain ⟨r, u⟩ := outcome
        rw [hstep] at hstays
        exact ih (h.moves (step_moves h hstep)) (step_accounted h hs hstep)
          fun v hv => hstays v (List.mem_cons_of_mem _ hv)

theorem boot_accounted {frames sectors : Nat} {files : List Bytes}
    (h : boot frames sectors files = .ok s) : s.Accounted where
  named := by
    intro pl p hp
    cases (boot_pages h pl).symm.trans hp
  created := by
    obtain ⟨pool, disk, -, -, rfl⟩ := boot_eq_ok h
    exact fun entry hentry => by cases hentry

theorem run_accounted {ops : List Op} {results : List (Except Failure Value)}
    (h : Coherent ⟨s, none⟩) (hrun : run ops s = .ok (results, t)) (hs : s.Accounted) :
    t.Accounted := by
  exact run_keep h (fun _ _ {_ _ _} hu hsu hstep => step_accounted hu hsu hstep) hs hrun

theorem Reachable.accounted (h : Reachable s) : s.Accounted := by
  obtain ⟨frames, sectors, files, ops, start, results, hboot, hrun⟩ := h
  exact run_accounted (boot_coherent hboot) hrun (boot_accounted hboot)

/-- A page that was registered waits for the initializer that it was registered with. -/
theorem register_waits {id : SpaceId} {a : VirtualAddress} {writable : Bool} {type : PageType}
    {init : Option Initializer} {slice : LoadSlice}
    (run : register id a writable type init slice s = .ok (.ok (), t)) :
    t.Waits (.of id a) { target := type, init, slice } ∧ t.inits = s.inits := by
  rcases register_cases run with ⟨-, hadds⟩ | ⟨e, hr, -⟩
  · obtain ⟨sp, hsp, -, rfl⟩ := hadds.single
    refine ⟨⟨.fresh a writable type init slice, ?_, rfl, rfl, rfl⟩, rfl⟩
    refine (pageAt_of_get? (Table.get?_insert_self ..) _).trans ?_
    exact Table.get?_insert_self ..
  · cases hr

/-- A page that waits when its space is copied waits in the copy as well, and nothing was run
for the copy. -/
theorem duplicate_waits {parent : SpaceId} {refuses : Option PagerError} {key : Nat}
    {u : Unpopulated} (h : Coherent ⟨s, none⟩) (hs : s.Accounted)
    (run : duplicate parent refuses s = .ok (.ok s.nextSpace, t))
    (hwaits : s.Waits ⟨parent, key⟩ u) (htarget : u.target = .anonymous) :
    t.Waits ⟨s.nextSpace, key⟩ u ∧ Place.runs ⟨s.nextSpace, key⟩ t.inits = [] := by
  obtain ⟨w, hmoves, ⟨-, rfl, -⟩ | ⟨⟨e, he⟩, -⟩⟩ := duplicate_moves h run
  · constructor
    · obtain ⟨p, hp, hkind, -⟩ := hwaits
      have htype : p.type = .anonymous := (Page.type_of_waits hkind).trans htarget
      have hroster := (duplicate_roster h run).2 rfl key
      rw [roster_of_page hp, anonymousOf, Option.filter_some, if_pos (by simp [htype])] at hroster
      obtain ⟨q, hq, hrests⟩ := roster_eq_some_iff.1 hroster
      have hk := Page.waits_of_resting hrests hkind
      exact ⟨q, hq, hk, (h.moves hmoves).absent_of_waits hq (Page.isInitialized_of_waits hk),
        Page.slot_of_waits hk⟩
    · have hinits : t.inits = s.inits := h.keeps hmoves (·.machine.inits) fun hl _ hmove => by
        refine hmove.inits_still ?_
        cases ‹Label› <;> first | rfl | exact hl.elim
      rw [hinits, Place.runs, List.map_eq_nil_iff, List.filter_eq_nil_iff]
      intro entry hentry howner
      have hspace := hs.created entry hentry
      rw [of_decide_eq_true howner] at hspace
      exact Nat.lt_irrefl _ hspace
  · cases he

/-- An initializer is run for a page as long as it fails, and once it has not failed the page is
what it is to be and no initializer is run for it again. A copy of a page that waits has an
account of its own. -/
theorem Reachable.initialized_once (h : Reachable s) :
    (∀ pl, s.InitializesOnce pl) ∧
    (∀ {id : SpaceId} {address : Nat} {writable : Bool} {type : PageType}
      {init : Option Initializer} {slice : LoadSlice} {t : Machine},
      step (.onSpace id address (.register writable type init slice)) s = .ok (.ok .unit, t) →
        t.Waits (.of id ⟨address⟩) { target := type, init, slice } ∧ t.inits = s.inits) ∧
    ∀ {pl : Place} {u : Unpopulated} {address : Nat} {refuses : Option PagerError}
      {child : SpaceId} {t : Machine}, s.Waits pl u → u.target = .anonymous →
      step (.onSpace pl.space address (.duplicate refuses)) s = .ok (.ok (.space child), t) →
        t.Waits ⟨child, pl.key⟩ u ∧ Place.runs ⟨child, pl.key⟩ t.inits = [] ∧
          t.InitializesOnce ⟨child, pl.key⟩ := by
  refine ⟨initializesOnce h.coherent h.accounted, fun run => ?_, fun hwaits htarget run => ?_⟩
  · rcases performRegister_cases (of_idle run) with ⟨q, -, hq, hr⟩ | ⟨hr, -⟩
    · cases q with
      | ok _ => exact register_waits hq
      | error e => cases hr
    · cases hr
  · have ht := h.of_step run
    obtain ⟨q, hq, hr⟩ := liftPager_eq_ok.1 (of_idle run)
    cases q with
    | ok id =>
      cases hr
      obtain ⟨-, -, ⟨hchild, -⟩ | ⟨⟨e, he⟩, -⟩⟩ := duplicate_moves h.coherent hq
      · cases hchild
        obtain ⟨hcopied, hruns⟩ := duplicate_waits h.coherent h.accounted hq hwaits htarget
        exact ⟨hcopied, hruns, initializesOnce ht.coherent ht.accounted _⟩
      · cases he
    | error e => cases hr

/-- An initializer that does not like what was in the frame before. -/
def picky : Initializer := .computed fun _ stale =>
  if stale.head? = some 7 then .error .outOfMemory else .ok fun _ => 9

/-- A space has a page that starts with what the initializer does not like. -/
def spoiling : List Op := [.createSpace, .onSpace 1 0x10000 (.registerAnonymous true),
  .onSpace 1 0x10000 (.copyTo [7])]

/-- The page is claimed twice, moved out and read, and so is its copy. -/
def recalling : List Op := [.onSpace 1 0x11000 .claim, .onSpace 1 0x10000 (.copyTo [0]),
  .onSpace 1 0x11000 .claim, .onSpace 1 0x10000 .claim, .onSpace 1 0x11000 (.copyFrom 1),
  .onSpace 2 0x11000 .claim]

/-- With a single frame the initializer fails once, succeeds the next time, and is not run when
the page comes back; for the copy of the page it is run once. -/
theorem initialized_once_of_recalling : ∃ s t u last results, Reachable s ∧
    step (.onSpace 1 0x11000 (.register true .anonymous (some picky) {})) s = .ok (.ok .unit, t) ∧
    step (.onSpace 1 0 (.duplicate none)) t = .ok (.ok (.space 2), u) ∧
    run recalling u = .ok (results, last) ∧ bytesRead results 4 = some [9] ∧
    (Place.runs ⟨1, 0x11000⟩ last.inits).map (·.outcome.isOk) = [true, false] ∧
    (Place.runs ⟨2, 0x11000⟩ last.inits).map (·.outcome.isOk) = [true] ∧
    t.InitializesOnce ⟨1, 0x11000⟩ ∧
    u.Waits ⟨2, 0x11000⟩ { target := .anonymous, init := some picky, slice := {} } ∧
    Place.runs ⟨2, 0x11000⟩ u.inits = [] ∧ u.InitializesOnce ⟨2, 0x11000⟩ := by
  have hend : (boot 1 64 [] >>= fun start => run spoiling start >>= fun ready =>
      step (.onSpace 1 0x11000 (.register true .anonymous (some picky) {})) ready.2 >>= fun one =>
      step (.onSpace 1 0 (.duplicate none)) one.2 >>= fun two =>
      run recalling two.2 >>= fun last =>
        .ok (isDone one.1, spaceMade two.1, bytesRead last.1 4,
          [(Place.runs ⟨1, 0x11000⟩ last.2.inits).map (·.outcome.isOk),
            (Place.runs ⟨2, 0x11000⟩ last.2.inits).map (·.outcome.isOk)])) =
      .ok (true, some 2, some [9], [[true, false], [true]]) := by decide +kernel
  obtain ⟨start, hboot, hend⟩ := except_bind_eq_ok.1 hend
  obtain ⟨⟨earlier, s⟩, hready, hend⟩ := except_bind_eq_ok.1 hend
  obtain ⟨⟨r, t⟩, hregister, hend⟩ := except_bind_eq_ok.1 hend
  obtain ⟨⟨r', u⟩, hduplicate, hend⟩ := except_bind_eq_ok.1 hend
  obtain ⟨⟨results, last⟩, hrun, hend⟩ := except_bind_eq_ok.1 hend
  simp only [Except.ok.injEq, Prod.mk.injEq, List.cons.injEq, and_true] at hend
  obtain ⟨hdone, hmade, hread, hparent, hchild⟩ := hend
  have hs : Reachable s := ⟨1, 64, [], _, start, earlier, hboot, hready⟩
  cases isDone_iff.1 hdone
  cases spaceMade_eq_some.1 hmade
  obtain ⟨-, hregistered, -⟩ := hs.initialized_once
  have ht := hs.of_step hregister
  obtain ⟨hparents, -, hcopied⟩ := ht.initialized_once
  obtain ⟨hwaits, hruns, honce⟩ :=
    hcopied (hregistered hregister).1 rfl hduplicate
  exact ⟨s, t, u, last, results, hs, hregister, hduplicate, hrun, hread, hparent, hchild,
    hparents _, hwaits, hruns, honce⟩

end Machine
end Pager
