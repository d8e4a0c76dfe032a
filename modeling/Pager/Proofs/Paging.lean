import Pager.Machine.Eviction
import Pager.Proofs.Steps

/-!
The search for a frame, and making a page resident, as moves. The search takes a
frame from the pool or from one page, and on its way it only clears accessed bits
and fails to move pages out; so a page without a frame is not touched by it.
-/
namespace Pager

namespace Label

/-- What the search for a frame does. -/
def Seeks : Label → Prop
  | note | turn | take | mark | evict _ | spare _ => True
  | _ => False

/-- What is done to make pages at some places resident. -/
def Claims (among : Place → Prop) : Label → Prop
  | note | turn | take | mark | evict _ | spare _ | request | scribble | attempt _ | giveBack => True
  | populate pl | lose pl => among pl
  | _ => False

/-- The frame in hand is given up, and what was read into it is lost. -/
def Abandons : Label → Prop
  | request | scribble | attempt _ | giveBack => True
  | _ => False

/-- The frame in hand is given up after it was filled with the page at `pl`. -/
def Loses (pl : Place) : Label → Prop
  | lose other => other = pl
  | giveBack => True
  | _ => False

theorem Seeks.claims {l : Label} (h : l.Seeks) (among : Place → Prop) : l.Claims among := by
  cases l <;> first | exact h | cases h

theorem Abandons.claims {l : Label} (h : l.Abandons) (among : Place → Prop) :
    l.Claims among := by
  cases l <;> first | exact h | cases h

theorem Loses.claims {l : Label} {pl : Place} (h : l.Loses pl) : l.Claims (· = pl) := by
  cases l <;> first | exact h | cases h

theorem Claims.mono {l : Label} {few many : Place → Prop} (h : l.Claims few)
    (hsub : ∀ pl, few pl → many pl) : l.Claims many := by
  cases l <;> first | exact hsub _ h | exact h

end Label

namespace Machine

variable {s t : Machine} {pl : Place} {sp : Space} {p : Page} {f : FrameId} {fr : Frame}

/-- A transfer out of a frame leaves the frame as it is. -/
theorem transfer_evict (h : Coherent ⟨s, none⟩) (hs : s.spaces.get? pl.space = some sp)
    (hp : sp.pages.pages.get? pl.key = some p) {address : PhysicalAddress} {dirty : Bool}
    {r : Except PagerError Unit}
    (run : transfer pl.space pl.address address (Transfer.evict dirty) s = .ok (r, t)) :
    ∃ u, Transfer.evict dirty ⟨p, s.pool.bytesAt address, s.swap, s.files, []⟩ = .ok (r, u) ∧
      t = { s with
        swap := u.swap
        files := u.files
        spaces := s.spaces.insert pl.space { sp with
          pages := ⟨sp.pages.pages.insert pl.key u.page⟩ } } := by
  obtain ⟨u, pool, hout, hpool, rfl⟩ :=
    transfer_eq_ok h hs hp (fun hout => (Transfer.evict_eq_ok hout).address) run
  rw [(Transfer.evict_eq_ok hout).frame] at hpool
  cases FramePool.write_self hpool
  have hinits : u.inits = [] := (Transfer.evict_eq_ok hout).inits
  refine ⟨u, hout, ?_⟩
  rw [hinits]
  rfl

/-- The page at `pl` could not be moved out of its frame, for the reason told. -/
def Stays (s t : Machine) (pl : Place) (fr : Frame) (e : PagerError) : Prop :=
  ∃ sp p u, s.spaces.get? pl.space = some sp ∧ sp.pages.pages.get? pl.key = some p ∧
    Transfer.evict (sp.directory.has pl.address .dirty)
      ⟨p, s.pool.bytesAt fr.address, s.swap, s.files, []⟩ = .ok (.error e, u) ∧
    t = { s with swap := u.swap, files := u.files }

theorem Stays.reason {e : PagerError} (h : Stays s t pl fr e) :
    e = .swapExhausted ∨ ∃ cause, e = .store cause := by
  obtain ⟨sp, p, u, -, -, hevict, -⟩ := h
  rcases Transfer.evict_cases hevict with ⟨he, -⟩ | ⟨-, hstore⟩
  · exact .inl (Except.error.inj he)
  · exact .inr (hstore e rfl)

theorem tryVictim_move (h : Coherent ⟨s, none⟩) (hf : s.frames.get? f = some fr)
    (ho : fr.owner = some pl.owner) {r : Except PagerError Bool}
    (run : tryVictim f ⟨pl.space, pl.address⟩ s = .ok (r, t)) :
    (r = .ok true ∧ Move (.evict pl) ⟨s, none⟩ ⟨t, some f⟩) ∨
      (r = .ok false ∧ (∃ sp, s.spaces.get? pl.space = some sp ∧
        sp.directory.has pl.address .accessed = true) ∧ Move .mark ⟨s, none⟩ ⟨t, none⟩) ∨
        ∃ e, r = .error e ∧ Stays s t pl fr e ∧ Move (.spare pl) ⟨s, none⟩ ⟨t, none⟩ := by
  obtain ⟨p, hpage, hres⟩ := h.linked.owner_page hf ho
  obtain ⟨sp, hs, hp⟩ := exists_space_of_pageAt hpage
  simp only [Place.space_owner, Place.page_owner, Place.value_address] at hpage hs hp
  have hk : pl.key % pageSize = 0 := (h.linked.keyed hpage).2
  unfold tryVictim at run
  dsimp only at run
  rw [space_bind hs] at run
  by_cases haccessed : sp.directory.has pl.address .accessed = true
  · rw [if_pos haccessed, modifyDirectory, modifySpace_bind, Table.modify_eq_insert hs] at run
    cases run
    have hmark : Move .mark ⟨s, none⟩ _ :=
      .mark hs pl.address .accessed false (by decide) (by decide) (by decide)
    exact .inr (.inl ⟨rfl, ⟨sp, hs, haccessed⟩, hmark⟩)
  rw [if_neg haccessed, space_bind hs] at run
  by_cases hunregistered : (!sp.pages.contains pl.address) = true
  · rw [if_pos hunregistered] at run
    cases run
  rw [if_neg hunregistered, addressOfFrame_bind hf] at run
  rcases Action.bind_eq_ok.1 run with ⟨_, u, htransfer, run⟩ | ⟨e, htransfer, rfl⟩
  · obtain ⟨v, hout, rfl⟩ := transfer_evict h hs hp htransfer
    rw [modifyDirectory, modifySpace_bind, Table.modify_insert,
      page_bind (Table.get?_insert_self ..)
        ((PageTable.get?_address hk _).trans (Table.get?_insert_self ..))] at run
    rcases Action.bind_eq_ok.1 run with ⟨unbound, w, hframes, run⟩ | ⟨e, hframes, -⟩
    · obtain ⟨_, frames, hbody, hr, rfl⟩ := onFrames_eq_ok.1 hframes
      cases hr
      obtain ⟨pair, hunbind, hpair⟩ := except_bind_eq_ok.1 hbody
      cases hpair
      obtain ⟨-, fr', owner, hf', -, -, hframes', hunbound⟩ := FrameTable.unbind_eq_ok.1 hunbind
      have hf' : s.frames.get? f = some fr' := hf'
      rw [hf] at hf'
      cases hf'
      have ha : ({ v.page with frame := none } : Page).address.value = pl.key := by
        show v.page.address.value = pl.key
        rw [(Transfer.evict_eq_ok hout).address, (h.linked.keyed hpage).1]
        rfl
      have hput : PageTable.put ⟨sp.pages.pages.insert pl.key v.page⟩
          { v.page with frame := none } =
            ⟨sp.pages.pages.insert pl.key { v.page with frame := none }⟩ :=
        PageTable.put_insert ha v.page
      rw [putPage, modifySpace_bind, Table.modify_insert] at run
      simp only [hframes', hunbound, hput] at run
      cases run
      exact .inl ⟨rfl, .evict hf ho hs hp hout⟩
    · obtain ⟨_, frames, -, hr, -⟩ := onFrames_eq_ok.1 hframes
      cases hr
  · obtain ⟨v, hout, rfl⟩ := transfer_evict h hs hp htransfer
    rw [(Transfer.evict_eq_ok hout).page, spaces_insert_same hs hp]
    exact .inr (.inr ⟨e, rfl, ⟨sp, p, v, hs, hp, hout, rfl⟩, .spare hf ho hs hp hout⟩)

/-- A frame that is considered backs a page and is not pinned. -/
theorem candidate?_cases {r : Except PagerError (Option Owner)}
    (run : candidate? f s = .ok (r, t)) :
    t = s ∧ (r = .ok none ∨
      ∃ fr owner, r = .ok (some owner) ∧ s.frames.get? f = some fr ∧ fr.pinned = false ∧
        fr.owner = some owner) := by
  unfold candidate? at run
  rw [Action.get_bind] at run
  obtain ⟨fr, hf, run⟩ := Action.liftM_bind_eq_ok.1 run
  rw [FrameTable.get_eq_ok] at hf
  by_cases hpinned : fr.pinned = true
  · rw [if_pos hpinned] at run
    cases run
    exact ⟨rfl, .inl rfl⟩
  · rw [if_neg hpinned] at run
    cases ho : fr.owner with
    | none =>
      rw [ho] at run
      cases run
      exact ⟨rfl, .inl rfl⟩
    | some owner =>
      rw [ho] at run
      cases hs : s.spaces.get? owner.space with
      | none =>
        simp only [hs] at run
        cases run
        exact ⟨rfl, .inl rfl⟩
      | some sp =>
        simp only [hs] at run
        cases hbusy : sp.busy with
        | true =>
          rw [hbusy] at run
          cases run
          exact ⟨rfl, .inl rfl⟩
        | false =>
          rw [hbusy] at run
          cases run
          exact ⟨rfl, .inr ⟨fr, owner, rfl, hf, Bool.eq_false_iff.2 hpinned, ho⟩⟩

/-- A search that came to nothing is reported. -/
theorem noVictim_eq (s : Machine) (full : Bool) : noVictim full s =
    .ok (.error (if full then .swapExhausted else .outOfMemory),
      { s with events := .noVictim s.frames.live full :: s.events }) := by
  cases full <;> rfl

/-- What one step of the search does after the hand has moved on: it ends, it takes the frame of
an unpinned page, or it goes on, with a page spared that was accessed or could not be moved out. -/
inductive Sought (steps : Nat) (s : Machine) : Except PagerError FrameId → Machine → Prop
  | ended {e : PagerError} (events : List Event)
      (reason : e = .swapExhausted ∨ e = .outOfMemory) : Sought steps s (.error e) { s with events }
  | passed {r : Except PagerError FrameId} {t : Machine} {full : Bool}
      (rest : scan steps full s = .ok (r, t)) : Sought steps s r t
  | evicted {f : FrameId} {fr : Frame} {pl : Place} {u : Machine} (evictions : Nat)
      (events : List Event) (tracked : s.frames.get? f = some fr) (loose : fr.pinned = false)
      (owner : fr.owner = some pl.owner) (move : Move (.evict pl) ⟨s, none⟩ ⟨u, some f⟩) :
      Sought steps s (.ok f) { u with evictions, events }
  | turned {r : Except PagerError FrameId} {t u : Machine} {full : Bool}
      (move : Move .mark ⟨s, none⟩ ⟨u, none⟩) (rest : scan steps full u = .ok (r, t)) :
      Sought steps s r t
  | spared {r : Except PagerError FrameId} {t u : Machine} {full : Bool} {pl : Place}
      (move : Move (.spare pl) ⟨s, none⟩ ⟨u, none⟩) (rest : scan steps full u = .ok (r, t)) :
      Sought steps s r t
  | failed {cause : StoreError} {t : Machine} {pl : Place}
      (move : Move (.spare pl) ⟨s, none⟩ ⟨t, none⟩) : Sought steps s (.error (.store cause)) t

theorem scan_cases (h : Coherent ⟨s, none⟩) {steps : Nat} {full : Bool}
    {r : Except PagerError FrameId} (run : scan (steps + 1) full s = .ok (r, t)) :
    Sought steps { s with frames := s.frames.advance.2 } r t := by
  unfold scan at run
  rcases Action.bind_eq_ok.1 run with ⟨found, u, hadvance, run⟩ | ⟨e, hadvance, -⟩
  · obtain ⟨_, frames, hframes, hr, rfl⟩ := onFrames_eq_ok.1 hadvance
    cases hr
    have hpair : s.frames.advance = (found, frames) := Except.ok.inj hframes
    have h := h.turn
    rw [hpair] at h ⊢
    cases found with
    | none =>
      simp only [noVictim_eq] at run
      cases run
      exact .ended _ (by cases full <;> simp)
    | some f =>
      rcases Action.bind_eq_ok.1 run with ⟨owner?, v, hcandidate, run⟩ | ⟨e, hcandidate, -⟩
      · obtain ⟨rfl, hnone | ⟨fr, owner, hsome, hf, hloose, ho⟩⟩ := candidate?_cases hcandidate
        · cases hnone
          exact .passed run
        · cases hsome
          obtain ⟨q, w, hvictim, run⟩ := Action.attempt_bind_eq_ok.1 run
          have ho : fr.owner = some (Place.owner ⟨owner.space, owner.page.value⟩) := ho
          rcases tryVictim_move h hf ho hvictim with
            ⟨rfl, hmove⟩ | ⟨rfl, -, hmove⟩ | ⟨e, rfl, hstays, hmove⟩
          · cases run
            exact .evicted (u := w) _ _ hf hloose ho hmove
          · exact .turned hmove run
          · rcases hstays.reason with rfl | ⟨cause, rfl⟩
            · exact .spared hmove run
            · cases run
              exact .failed hmove
      · obtain ⟨-, hnone | ⟨fr, owner, hsome, -⟩⟩ := candidate?_cases hcandidate
        · cases hnone
        · cases hsome
  · obtain ⟨_, frames, -, hr, -⟩ := onFrames_eq_ok.1 hadvance
    cases hr

theorem scan_moves (h : Coherent ⟨s, none⟩) {steps : Nat} {full : Bool}
    {r : Except PagerError FrameId} (run : scan steps full s = .ok (r, t)) :
    Moves Label.Seeks ⟨s, none⟩ ⟨t, r.toOption⟩ := by
  induction steps generalizing s full with
  | zero =>
    cases run
    exact .single (.note ..) trivial
  | succ steps ih =>
    have hturn : Moves Label.Seeks ⟨s, none⟩ ⟨{ s with frames := s.frames.advance.2 }, none⟩ :=
      .single .turn trivial
    have hturned := h.moves hturn
    cases scan_cases h run with
    | ended events => exact hturn.tail (.note ..) trivial
    | passed hrest => exact hturn.trans (ih hturned hrest)
    | evicted evictions events _ _ _ hmove =>
      exact (hturn.tail hmove trivial).tail (.note ..) trivial
    | turned hmove hrest =>
      exact (hturn.tail hmove trivial).trans (ih (hturned.move hmove) hrest)
    | spared hmove hrest =>
      exact (hturn.tail hmove trivial).trans (ih (hturned.move hmove) hrest)
    | failed hmove => exact hturn.tail hmove trivial

/-- The search fails if no frame can be given up, or because of a device. -/
theorem scan_error (h : Coherent ⟨s, none⟩) {steps : Nat} {full : Bool} {e : PagerError}
    (run : scan steps full s = .ok (.error e, t)) :
    (e = .swapExhausted ∨ e = .outOfMemory) ∨ ∃ cause, e = .store cause := by
  induction steps generalizing s full with
  | zero =>
    rw [scan, noVictim_eq] at run
    cases run
    cases full <;> simp
  | succ steps ih =>
    cases scan_cases h run with
    | ended _ hreason => exact .inl hreason
    | passed hrest => exact ih h.turn hrest
    | turned hmove hrest | spared hmove hrest => exact ih (h.turn.move hmove) hrest
    | failed _ => exact .inr ⟨_, rfl⟩

/-- A frame is taken from the pool, or the pool is empty and a frame is searched for. -/
theorem obtainFrame_cases {r : Except PagerError FrameId} (run : obtainFrame s = .ok (r, t)) :
    (∃ f, r = .ok f ∧ Move .take ⟨s, none⟩ ⟨t, some f⟩) ∨
      ∃ steps, scan steps false s = .ok (r, t) := by
  unfold obtainFrame at run
  rw [Action.get_bind] at run
  cases htake : s.pool.take? with
  | none =>
    simp only [htake] at run
    unfold evict at run
    rw [Action.get_bind] at run
    exact .inr ⟨_, run⟩
  | some taken =>
    simp only [htake] at run
    cases run
    exact .inl ⟨_, rfl, .take htake⟩

/-- A frame comes to hand unless the search fails. -/
theorem obtainFrame_moves (h : Coherent ⟨s, none⟩) {r : Except PagerError FrameId}
    (run : obtainFrame s = .ok (r, t)) : Moves Label.Seeks ⟨s, none⟩ ⟨t, r.toOption⟩ := by
  rcases obtainFrame_cases run with ⟨f, rfl, hmove⟩ | ⟨steps, hscan⟩
  · exact .single hmove trivial
  · exact scan_moves h hscan

theorem obtainFrame_error (h : Coherent ⟨s, none⟩) {e : PagerError}
    (run : obtainFrame s = .ok (.error e, t)) :
    (e = .swapExhausted ∨ e = .outOfMemory) ∨ ∃ cause, e = .store cause := by
  rcases obtainFrame_cases run with ⟨f, hr, -⟩ | ⟨steps, hscan⟩
  · cases hr
  · exact scan_error h hscan

/-- The search does not touch a page without a frame. -/
theorem pageAt_of_seeks {m n : Moment} (h : Coherent m) (hm : Moves Label.Seeks m n)
    (hp : Pager.pageAt m.machine.spaces pl = some p) (habs : p.frame = none) :
    Pager.pageAt n.machine.spaces pl = some p := by
  refine h.preserves (P := fun n => Pager.pageAt n.machine.spaces pl = some p) hm
    (fun {l m n} hl h hp hmove => ?_) hp
  cases hmove with
  | note | turn | take | spare => exact hp
  | mark hs =>
    refine Eq.trans (congrFun ?_ pl) hp
    exact pageAt_insert_of_eq hs rfl
  | evict hf ho hs hq =>
    refine Eq.trans (congrFun (Coherent.pageAt_put hs _ rfl) pl) ?_
    rw [Function.update_of_ne, hp]
    rintro rfl
    have hres := h.resident_of_owner hf ho hs hq
    have hpage := Coherent.pageAt_eq hs hq
    rw [hp] at hpage
    cases hpage
    rw [habs] at hres
    cases hres
  | _ => cases hl

/-- A page that could not be filled leaves its mark on the frame in hand and on the files, and
its initializer on the account if it ran. -/
theorem failed_transfer_moves (h : Coherent ⟨s, some f⟩) (hf : s.frames.get? f = some fr)
    (hs : s.spaces.get? pl.space = some sp) (hp : sp.pages.pages.get? pl.key = some p)
    (habs : p.frame = none) {e : PagerError} {u : Transfer} {pool : FramePool}
    (hfill : Transfer.populate ⟨p, s.pool.bytesAt fr.address, s.swap, s.files, []⟩ =
      .ok (.error e, u)) (hpool : s.pool.write fr.address 0 u.frame = .ok pool) :
    Moves Label.Abandons ⟨s, some f⟩ ⟨{ s with
      swap := u.swap
      files := u.files
      inits := u.inits.map (Prod.mk pl.owner) ++ s.inits
      pool
      spaces := s.spaces.insert pl.space { sp with
        pages := ⟨sp.pages.pages.insert pl.key u.page⟩ } }, some f⟩ := by
  rcases Transfer.populate_eq_ok h.swap (h.length_frame hf) hfill with ⟨hr, -⟩ | ⟨_, -, hdraft⟩
  · cases hr
  rw [hdraft.page, hdraft.swap, spaces_insert_same hs hp]
  have hrequest : Move .request ⟨s, some f⟩ ⟨{ s with files := u.files }, some f⟩ :=
    .request (.reads hdraft.files)
  have hscribble : Move .scribble ⟨{ s with files := u.files }, some f⟩
      ⟨{ s with files := u.files, pool }, some f⟩ := .scribble hf hpool
  have hdrawn : Moves Label.Abandons ⟨s, some f⟩ ⟨{ s with files := u.files, pool }, some f⟩ :=
    (Moves.single hrequest trivial).tail hscribble trivial
  rcases Transfer.populate_inits h.swap hfill with
    ⟨page, outcome, hkind, hinits, hends⟩ | ⟨-, hinits⟩
  · rw [hinits]
    refine hdrawn.tail (.attempt hs hp habs hkind ?_) trivial
    rintro rfl
    rcases hends with he | ⟨-, e, he, -⟩
    · cases he
    · exact ⟨e, he⟩
  · rw [hinits]
    exact hdrawn

/-- Filling the frame in hand with the page at a place, and entering it there. -/
theorem settle_moves (h : Coherent ⟨s, some f⟩) (hf : s.frames.get? f = some fr)
    (hs : s.spaces.get? pl.space = some sp) (hp : sp.pages.pages.get? pl.key = some p)
    (habs : p.frame = none) {r : Except PagerError Unit}
    (run : settle pl.space pl.address f
      (transfer pl.space pl.address fr.address Transfer.populate) s = .ok (r, t)) :
    (∃ e, r = .error e ∧ ((∃ u,
          Transfer.populate ⟨p, s.pool.bytesAt fr.address, s.swap, s.files, []⟩ =
            .ok (.error e, u)) ∧ Moves Label.Abandons ⟨s, some f⟩ ⟨t, none⟩ ∨
        sp.refusesEntries = some e ∧ Moves (Label.Loses pl) ⟨s, some f⟩ ⟨t, none⟩ ∧
          ∃ m, Move (.lose pl) ⟨s, some f⟩ m)) ∨
      r = .ok () ∧ ∃ u pool directory,
        Transfer.populate ⟨p, s.pool.bytesAt fr.address, s.swap, s.files, []⟩ = .ok (.ok (), u) ∧
        s.pool.write fr.address 0 u.frame = .ok pool ∧
        sp.directory.map pl.address fr.address p.writable = .ok directory ∧
        u.page.address.value = pl.key ∧
        t = { s with
          swap := u.swap
          files := u.files
          inits := u.inits.map (Prod.mk pl.owner) ++ s.inits
          pool
          spaces := s.spaces.insert pl.space { sp with
            pages := ⟨sp.pages.pages.insert pl.key u.page⟩
            directory } } := by
  have hpage := Coherent.pageAt_eq hs hp
  have hlen := h.length_frame hf
  obtain ⟨hkeyed, hk⟩ := h.linked.keyed hpage
  rcases settle_cases hf run with ⟨htry, rfl⟩ | ⟨e, v, htry, rfl, hgive⟩
  · rcases Action.bind_eq_ok.1 htry with ⟨_, w, hrun, hinstall⟩ | ⟨e, -, hr⟩
    · obtain ⟨u, pool, hfill, hpool, rfl⟩ :=
        transfer_eq_ok h hs hp (Transfer.populate_address h.swap hlen) hrun
      rcases Transfer.populate_eq_ok h.swap hlen hfill with ⟨-, hpop⟩ | ⟨e, he, -⟩
      · have hsame := (hpop.spec h.swap hlen).1
        rcases install_cases hk (Table.get?_insert_self ..) (Table.get?_insert_self ..)
          hinstall with ⟨e, -, hr, -⟩ | ⟨directory, hmap, -, rfl⟩
        · cases hr
        · rw [hsame.writable] at hmap
          refine .inr ⟨rfl, u, pool, directory, hfill, hpool, hmap, ?_, ?_⟩
          · rw [hsame.address, hkeyed]
            rfl
          · simp only [Table.insert_insert]
      · cases he
    · cases hr
  · refine .inl ⟨e, rfl, ?_⟩
    rcases Action.bind_eq_ok.1 htry with ⟨_, w, hrun, hinstall⟩ | ⟨e', hrun, he⟩
    · obtain ⟨u, pool, hfill, hpool, rfl⟩ :=
        transfer_eq_ok h hs hp (Transfer.populate_address h.swap hlen) hrun
      rcases install_cases hk (Table.get?_insert_self ..) (Table.get?_insert_self ..) hinstall with
        ⟨e, hrefuses, hr, rfl⟩ | ⟨directory, -, hr, -⟩
      · cases hr
        have hlose := Move.lose hf hs hp habs hfill hpool hrefuses
        have hlost : Moves (Label.Loses pl) _ _ := .single hlose rfl
        exact .inr ⟨hrefuses, hlost.tail hgive trivial, _, hlose⟩
      · cases hr
    · cases he
      obtain ⟨u, pool, hfill, hpool, rfl⟩ :=
        transfer_eq_ok h hs hp (Transfer.populate_address h.swap hlen) hrun
      have hfailed := failed_transfer_moves h hf hs hp habs hfill hpool
      exact .inl ⟨⟨u, hfill⟩, hfailed.tail hgive trivial⟩

/-- What comes of a claim of the page at `pl`: it is there already, or it is seated in a frame
that was searched for. Nothing is left in hand if the search or the filling fails. -/
inductive Claimed (s : Machine) (pl : Place) : Except PagerError FrameId → Machine → Prop
  | unregistered (absent : Pager.pageAt s.spaces pl = none) : Claimed s pl (.error .notMapped) s
  | resident {p : Page} {f : FrameId} (page : Pager.pageAt s.spaces pl = some p)
      (frame : p.frame = some f) : Claimed s pl (.ok f) s
  | frameless {p : Page} {e : PagerError} {t : Machine} (page : Pager.pageAt s.spaces pl = some p)
      (absent : p.frame = none) (search : obtainFrame s = .ok (.error e, t)) :
      Claimed s pl (.error e) t
  | abandoned {p : Page} {f : FrameId} {fr : Frame} {e : PagerError} {u t : Machine} {v : Transfer}
      (page : Pager.pageAt s.spaces pl = some p) (absent : p.frame = none)
      (search : obtainFrame s = .ok (.ok f, u)) (tracked : u.frames.get? f = some fr)
      (failed : Transfer.populate ⟨p, u.pool.bytesAt fr.address, u.swap, u.files, []⟩ =
        .ok (.error e, v))
      (reason : p.Fails e) (moves : Moves Label.Abandons ⟨u, some f⟩ ⟨t, none⟩) :
      Claimed s pl (.error e) t
  | refused {p : Page} {f : FrameId} {e : PagerError} {u t : Machine} {sp : Space}
      (page : Pager.pageAt s.spaces pl = some p) (absent : p.frame = none)
      (search : obtainFrame s = .ok (.ok f, u)) (space : u.spaces.get? pl.space = some sp)
      (refuses : sp.refusesEntries = some e)
      (moves : Moves (Label.Loses pl) ⟨u, some f⟩ ⟨t, none⟩)
      (lost : ∃ m, Move (.lose pl) ⟨u, some f⟩ m) : Claimed s pl (.error e) t
  | seated {p : Page} {f : FrameId} {u t : Machine} (page : Pager.pageAt s.spaces pl = some p)
      (absent : p.frame = none) (search : obtainFrame s = .ok (.ok f, u))
      (move : Move (.populate pl) ⟨u, some f⟩ ⟨t, none⟩) : Claimed s pl (.ok f) t

theorem claim_cases (h : Coherent ⟨s, none⟩) {id : SpaceId} {a : VirtualAddress}
    {r : Except PagerError FrameId} (run : claim id a s = .ok (r, t)) :
    Claimed s (.of id a) r t := by
  have hk := Place.aligned_of id a
  obtain ⟨hid, ha⟩ : id = (Place.of id a).space ∧ a.pageBase = (Place.of id a).address := ⟨rfl, rfl⟩
  unfold claim at run
  rw [ha] at run
  generalize Place.of id a = pl at *
  subst hid
  obtain ⟨sp, hs, ⟨p, hp, run⟩ | ⟨hnone, rfl, rfl⟩⟩ := page_bind_eq_ok.1 run
  · rw [PageTable.get?_address hk] at hp
    have hpage : Pager.pageAt s.spaces pl = some p := Coherent.pageAt_eq hs hp
    cases hframe : p.frame with
    | some f =>
      rw [hframe] at run
      cases run
      exact .resident hpage hframe
    | none =>
      rw [hframe] at run
      rcases Action.bind_eq_ok.1 run with ⟨f, x, hobtain, run⟩ | ⟨e, hobtain, rfl⟩
      · have hseek := obtainFrame_moves h hobtain
        have hx := h.moves hseek
        obtain ⟨sx, hsx, hpx⟩ := exists_space_of_pageAt (pageAt_of_seeks h hseek hpage hframe)
        obtain ⟨fr, hf, run⟩ := addressOfFrame_bind_eq_ok.1 run
        rcases Action.bind_eq_ok.1 run with ⟨_, y, hsettle, run⟩ | ⟨e, hsettle, rfl⟩
        · rcases settle_moves hx hf hsx hpx hframe hsettle with
            ⟨e, hr, -⟩ | ⟨-, u, pool, directory, hfill, hpool, hmap, ha, rfl⟩
          · cases hr
          · rw [modifyDirectory, modifySpace_bind, Table.modify_insert] at run
            rcases Action.bind_eq_ok.1 run with ⟨_, z, hbind, run⟩ | ⟨e, hbind, -⟩
            · cases run
              obtain ⟨-, -, fr', hf', -, rfl⟩ := bindFrame_cases hk
                (Table.get?_insert_self ..) (Table.get?_insert_self ..) hbind
              rw [show x.frames.get? f = some fr from hf] at hf'
              cases hf'
              have hmove := Move.populate hf hsx hpx hframe hfill hpool hmap
              simp only [Table.insert_insert]
              exact .seated hpage hframe hobtain hmove
            · cases (bindFrame_cases hk
                (Table.get?_insert_self ..) (Table.get?_insert_self ..) hbind).1
        · rcases settle_moves hx hf hsx hpx hframe hsettle with
            ⟨e', he, ⟨⟨v, hfill⟩, hmoves⟩ | ⟨hrefuses, hmoves, hlost⟩⟩ | ⟨hr, -⟩
          · cases he
            exact .abandoned hpage hframe hobtain hf hfill (Transfer.populate_error hx.swap hfill)
              hmoves
          · cases he
            exact .refused hpage hframe hobtain hsx hrefuses hmoves hlost
          · cases hr
      · exact .frameless hpage hframe hobtain
  · rw [PageTable.get?_address hk] at hnone
    exact .unregistered ((pageAt_of_get? hs pl.key).trans hnone)

theorem Claimed.moves {r : Except PagerError FrameId} (hclaim : Claimed s pl r t)
    (h : Coherent ⟨s, none⟩) : Moves (Label.Claims (· = pl)) ⟨s, none⟩ ⟨t, none⟩ := by
  have hclaims : ∀ l : Label, l.Seeks → l.Claims (· = pl) := fun l hl => hl.claims _
  cases hclaim with
  | unregistered | resident => exact .refl
  | frameless _ _ hsearch => exact (obtainFrame_moves h hsearch).mono hclaims
  | abandoned _ _ hsearch _ _ _ hmoves =>
    have hseek := (obtainFrame_moves h hsearch).mono hclaims
    exact hseek.trans (hmoves.mono fun l hl => hl.claims _)
  | refused _ _ hsearch _ _ hmoves =>
    have hseek := (obtainFrame_moves h hsearch).mono hclaims
    exact hseek.trans (hmoves.mono fun l hl => hl.claims)
  | seated _ _ hsearch hmove =>
    exact ((obtainFrame_moves h hsearch).mono hclaims).tail hmove rfl

/-- A page that was claimed is resident. -/
theorem Claimed.page (hclaim : Claimed s pl (.ok f) t) :
    ∃ p, Pager.pageAt t.spaces pl = some p ∧ p.frame = some f := by
  cases hclaim with
  | resident hpage hframe => exact ⟨_, hpage, hframe⟩
  | seated _ _ _ hmove =>
    cases hmove with
    | @populate _ _ _ _ _ _ filled _ _ _ hs =>
      refine ⟨{ filled.page with frame := some f }, ?_, rfl⟩
      exact (congrFun (Coherent.pageAt_put hs _ rfl) pl).trans (Function.update_self ..)

/-- A claim leaves the page resident, or nothing but other pages changed. -/
theorem claim_moves (h : Coherent ⟨s, none⟩) {id : SpaceId} {a : VirtualAddress}
    {r : Except PagerError FrameId} (run : claim id a s = .ok (r, t)) :
    Moves (Label.Claims (· = .of id a)) ⟨s, none⟩ ⟨t, none⟩ ∧
      ∀ f, r = .ok f →
        ∃ p, Pager.pageAt t.spaces (.of id a) = some p ∧ p.frame = some f := by
  have hclaim := claim_cases h run
  refine ⟨hclaim.moves h, ?_⟩
  rintro f rfl
  exact hclaim.page

end Machine
end Pager
