import Pager.Machine.Operation

/-!
How a finished operation is taken apart. An operation that ends without a bug
either failed in its first part or went on from where the first part left off
(`Action.bind_eq_ok`). For the steps of a machine the first part is read off
completely, so that what a program did is a list of facts about look-ups.
-/
namespace Pager

theorem except_bind_eq_ok {ε α β : Type} {x : Except ε α} {f : α → Except ε β} {b : β} :
    (x >>= f) = .ok b ↔ ∃ a, x = .ok a ∧ f a = .ok b := by
  cases x with
  | error e => simp [bind, Except.bind]
  | ok a => simp [bind, Except.bind]

theorem except_pure_eq_ok {ε α : Type} {a b : α} : (pure a : Except ε α) = .ok b ↔ b = a := by
  simp [pure, Except.pure, eq_comm]

theorem except_throw_bind {ε α β : Type} {e : ε} {f : α → Except ε β} :
    ((throw e : Except ε α) >>= f) = .error e := rfl

theorem except_throw_ne_ok {ε α : Type} {e : ε} {b : α} : (throw e : Except ε α) ≠ .ok b := by
  intro h
  cases h

theorem except_bind_eq_error {ε α β : Type} {x : Except ε α} {f : α → Except ε β} {e : ε} :
    (x >>= f) = .error e ↔ x = .error e ∨ ∃ a, x = .ok a ∧ f a = .error e := by
  cases x with
  | error e' => simp [bind, Except.bind]
  | ok a => simp [bind, Except.bind]

theorem mapM_eq_error {ε α β : Type} {f : α → Except ε β} {l : List α} {e : ε}
    (h : l.mapM f = .error e) : ∃ a ∈ l, f a = .error e := by
  induction l with
  | nil => cases h
  | cons a rest ih =>
    rw [List.mapM_cons] at h
    rcases except_bind_eq_error.1 h with hfirst | ⟨b, -, h⟩
    · exact ⟨a, List.mem_cons_self .., hfirst⟩
    · rcases except_bind_eq_error.1 h with hrest | ⟨bs, -, h⟩
      · obtain ⟨other, hmem, hother⟩ := ih hrest
        exact ⟨other, List.mem_cons_of_mem _ hmem, hother⟩
      · cases h

/-- A list that is computed element by element holds what the elements yield. -/
theorem mem_mapM_iff {ε α β : Type} {f : α → Except ε β} {l : List α} {m : List β}
    (h : l.mapM f = .ok m) {b : β} : b ∈ m ↔ ∃ a ∈ l, f a = .ok b := by
  induction l generalizing m with
  | nil =>
    cases h
    simp
  | cons a rest ih =>
    rw [List.mapM_cons] at h
    obtain ⟨first, hfirst, h⟩ := except_bind_eq_ok.1 h
    obtain ⟨others, hothers, h⟩ := except_bind_eq_ok.1 h
    cases h
    simp [ih hothers, hfirst, eq_comm]

theorem mapM_congr {ε α β : Type} {f g : α → Except ε β} {l : List α} (h : ∀ a ∈ l, f a = g a) :
    l.mapM f = l.mapM g := by
  induction l with
  | nil => rfl
  | cons a rest ih =>
    rw [List.mapM_cons, List.mapM_cons, h a (List.mem_cons_self ..),
      ih fun b hb => h b (List.mem_cons_of_mem _ hb)]

theorem exists_of_mapM {ε α β : Type} {f : α → Except ε β} {l : List α} {m : List β}
    (h : l.mapM f = .ok m) {a : α} (ha : a ∈ l) : ∃ b, f a = .ok b := by
  induction l generalizing m with
  | nil => cases ha
  | cons first rest ih =>
    rw [List.mapM_cons] at h
    obtain ⟨b, hfirst, h⟩ := except_bind_eq_ok.1 h
    obtain ⟨others, hothers, -⟩ := except_bind_eq_ok.1 h
    rcases List.mem_cons.1 ha with rfl | hrest
    · exact ⟨b, hfirst⟩
    · exact ih hothers hrest

theorem eq_map_of_mapM {ε α β : Type} {f : α → Except ε β} {g : α → β} {l : List α} {m : List β}
    (h : l.mapM f = .ok m) (hf : ∀ {a b}, f a = .ok b → b = g a) : m = l.map g := by
  induction l generalizing m with
  | nil =>
    cases h
    rfl
  | cons a rest ih =>
    rw [List.mapM_cons] at h
    obtain ⟨first, hfirst, h⟩ := except_bind_eq_ok.1 h
    obtain ⟨others, hothers, h⟩ := except_bind_eq_ok.1 h
    cases h
    rw [List.map_cons, ← ih hothers, ← hf hfirst]

namespace Action

variable {σ τ ε ε' α β : Type} {s t : σ}

theorem bind_eq_ok {m : Action σ ε α} {f : α → Action σ ε β} {r : Except ε β} :
    (m >>= f) s = .ok (r, t) ↔
      (∃ a u, m s = .ok (.ok a, u) ∧ f a u = .ok (r, t)) ∨
        ∃ e, m s = .ok (.error e, t) ∧ r = .error e := by
  rw [bind_apply]
  rcases m s with b | ⟨e | a, u⟩
  · simp
  · constructor
    · intro h
      cases h
      exact .inr ⟨e, rfl, rfl⟩
    · rintro (⟨a, v, h, -⟩ | ⟨e', h, rfl⟩)
      · cases h
      · cases h
        rfl
  · constructor
    · intro h
      exact .inl ⟨a, u, rfl, h⟩
    · rintro (⟨a', v, h, h'⟩ | ⟨e', h, -⟩)
      · cases h
        exact h'
      · cases h

/-- A first part that did its work leaves the rest to be run. -/
theorem bind_of_ok {m : Action σ ε α} {f : α → Action σ ε β} {a : α} {u : σ}
    (h : m s = .ok (.ok a, u)) : (m >>= f) s = f a u := by
  rw [bind_apply, h]

theorem pure_apply (a : α) : (pure a : Action σ ε α) s = .ok (.ok a, s) := rfl

theorem throw_apply (e : ε) : (throw e : Action σ ε α) s = .ok (.error e, s) := rfl

theorem get_bind (f : σ → Action σ ε β) : (get >>= f) s = f s s := rfl

theorem set_bind (u : σ) (f : PUnit → Action σ ε β) : (set u >>= f) s = f ⟨⟩ u := rfl

theorem modify_bind (g : σ → σ) (f : PUnit → Action σ ε β) :
    (modify g >>= f) s = f ⟨⟩ (g s) := rfl

theorem bug_bind (b : Bug) (f : α → Action σ ε β) : (bug b >>= f) s = .error b := rfl

theorem ofResult_apply (x : Except ε α) : (ofResult x : Action σ ε α) s = .ok (x, s) := rfl

theorem liftM_bind_eq_ok {x : Except Bug α} {f : α → Action σ ε β} {r : Except ε β} :
    (liftM x >>= f) s = .ok (r, t) ↔ ∃ a, x = .ok a ∧ f a s = .ok (r, t) := by
  rw [bind_apply]
  cases x with
  | error b =>
    show (Except.error b : Except Bug (Except ε β × σ)) = _ ↔ _
    simp
  | ok a =>
    show f a s = _ ↔ _
    simp

/-- Steps that leave the state alone can be computed beforehand. -/
theorem mapM_liftM {κ : Type} (g : κ → Except Bug α) (l : List κ) :
    l.mapM (fun k => (liftM (g k) : Action σ ε α)) = liftM (l.mapM g) := by
  induction l with
  | nil => rfl
  | cons k rest ih =>
    funext s
    rw [List.mapM_cons, List.mapM_cons, ih]
    cases g k with
    | error b => rfl
    | ok a =>
      cases rest.mapM g with
      | error b => rfl
      | ok as => rfl

theorem ofResult_bind_eq_ok {x : Except ε α} {f : α → Action σ ε β} {r : Except ε β} :
    (ofResult x >>= f) s = .ok (r, t) ↔
      (∃ a, x = .ok a ∧ f a s = .ok (r, t)) ∨ ∃ e, x = .error e ∧ r = .error e ∧ t = s := by
  rw [bind_eq_ok]
  cases x with
  | error e =>
    constructor
    · rintro (⟨a, u, h, -⟩ | ⟨e', h, rfl⟩)
      · cases h
      · cases h
        exact .inr ⟨e, rfl, rfl, rfl⟩
    · rintro (⟨a, h, -⟩ | ⟨e', h, rfl, rfl⟩)
      · cases h
      · cases h
        exact .inr ⟨e, rfl, rfl⟩
  | ok a =>
    constructor
    · rintro (⟨a', u, h, h'⟩ | ⟨e', h, -⟩)
      · cases h
        exact .inl ⟨a, rfl, h'⟩
      · cases h
    · rintro (⟨a', h, h'⟩ | ⟨e', h, -⟩)
      · cases h
        exact .inl ⟨a, s, rfl, h'⟩
      · cases h

theorem attempt_bind_eq_ok {m : Action σ ε α} {f : Except ε α → Action σ ε' β}
    {r : Except ε' β} :
    (m.attempt >>= f) s = .ok (r, t) ↔ ∃ q u, m s = .ok (q, u) ∧ f q u = .ok (r, t) := by
  rw [bind_apply]
  unfold attempt
  rcases m s with b | ⟨q, u⟩
  · simp [bind, Except.bind]
  · constructor
    · intro h
      exact ⟨q, u, rfl, h⟩
    · rintro ⟨q', u', h, h'⟩
      cases h
      exact h'

theorem attempt_bind_of_ok {m : Action σ ε α} {f : Except ε α → Action σ ε' β} {q : Except ε α}
    {u : σ} (h : m s = .ok (q, u)) : (m.attempt >>= f) s = f q u := by
  rw [bind_apply]
  unfold attempt
  rw [h]
  rfl

theorem mapError_eq_ok {m : Action σ ε α} {f : ε → ε'} {r : Except ε' α} :
    (m.mapError f) s = .ok (r, t) ↔ ∃ q, m s = .ok (q, t) ∧ r = q.mapError f := by
  unfold mapError
  rcases m s with b | ⟨q, u⟩
  · simp [bind, Except.bind]
  · simp only [bind, Except.bind, pure, Except.pure, Except.ok.injEq, Prod.mk.injEq]
    constructor
    · rintro ⟨rfl, rfl⟩
      exact ⟨q, ⟨rfl, rfl⟩, rfl⟩
    · rintro ⟨q', ⟨rfl, rfl⟩, rfl⟩
      exact ⟨rfl, rfl⟩

theorem within_eq_ok {part : σ → τ} {put : τ → σ → σ} {m : Action τ ε α} {r : Except ε α} :
    (m.within part put) s = .ok (r, t) ↔ ∃ u, m (part s) = .ok (r, u) ∧ t = put u s := by
  unfold within
  rcases m (part s) with b | ⟨q, u⟩
  · simp [bind, Except.bind]
  · simp only [bind, Except.bind, pure, Except.pure, Except.ok.injEq, Prod.mk.injEq]
    constructor
    · rintro ⟨rfl, rfl⟩
      exact ⟨u, ⟨rfl, rfl⟩, rfl⟩
    · rintro ⟨u', ⟨rfl, rfl⟩, rfl⟩
      exact ⟨rfl, rfl⟩

/-- A bug in two parts is one of the first part, or of the second where the first left off. -/
theorem bind_eq_bug {m : Action σ ε α} {f : α → Action σ ε β} {b : Bug} :
    (m >>= f) s = .error b ↔
      m s = .error b ∨ ∃ a u, m s = .ok (.ok a, u) ∧ f a u = .error b := by
  rw [bind_apply]
  rcases m s with b' | ⟨e | a, u⟩
  · simp
  · simp
  · constructor
    · intro h
      exact .inr ⟨a, u, rfl, h⟩
    · rintro (h | ⟨a', v, h, h'⟩)
      · cases h
      · cases h
        exact h'

theorem liftM_bind_eq_bug {x : Except Bug α} {f : α → Action σ ε β} {b : Bug} :
    (liftM x >>= f) s = .error b ↔ x = .error b ∨ ∃ a, x = .ok a ∧ f a s = .error b := by
  rw [bind_apply]
  cases x with
  | error b' =>
    show (Except.error b' : Except Bug (Except ε β × σ)) = _ ↔ _
    simp
  | ok a =>
    show f a s = _ ↔ _
    simp

theorem ofResult_bind_eq_bug {x : Except ε α} {f : α → Action σ ε β} {b : Bug} :
    (ofResult x >>= f) s = .error b ↔ ∃ a, x = .ok a ∧ f a s = .error b := by
  rw [bind_apply, ofResult_apply]
  cases x with
  | error e => simp
  | ok a => simp

theorem attempt_bind_eq_bug {m : Action σ ε α} {f : Except ε α → Action σ ε' β} {b : Bug} :
    (m.attempt >>= f) s = .error b ↔
      m s = .error b ∨ ∃ q u, m s = .ok (q, u) ∧ f q u = .error b := by
  rw [bind_apply]
  unfold attempt
  rcases m s with b' | ⟨q, u⟩
  · simp [bind, Except.bind]
  · constructor
    · intro h
      exact .inr ⟨q, u, rfl, h⟩
    · rintro (h | ⟨q', u', h, h'⟩)
      · cases h
      · cases h
        exact h'

theorem mapError_eq_bug {m : Action σ ε α} {f : ε → ε'} {b : Bug} :
    (m.mapError f) s = .error b ↔ m s = .error b := by
  unfold mapError
  rcases m s with b' | ⟨q, u⟩ <;> simp [bind, Except.bind, pure, Except.pure]

theorem within_eq_bug {part : σ → τ} {put : τ → σ → σ} {m : Action τ ε α} {b : Bug} :
    (m.within part put) s = .error b ↔ m (part s) = .error b := by
  unfold within
  rcases m (part s) with b' | ⟨q, u⟩ <;> simp [bind, Except.bind, pure, Except.pure]

end Action

namespace Machine

variable {α : Type} {s t : Machine} {r : Except PagerError α}

theorem space_bind {id : SpaceId} {sp : Space} (hs : s.spaces.get? id = some sp)
    (f : Space → Act α) : (space id >>= f) s = f sp s := by
  refine Action.bind_of_ok ?_
  simp only [space, Action.get_bind, hs]
  rfl

theorem space_bind_none {id : SpaceId} (hs : s.spaces.get? id = none) (f : Space → Act α) :
    (space id >>= f) s = .error (.spaceGone id) := by
  refine Action.bind_eq_bug.2 (.inl ?_)
  rw [space, Action.get_bind, hs]
  rfl

theorem page_bind {id : SpaceId} {a : VirtualAddress} {sp : Space} {p : Page}
    (hs : s.spaces.get? id = some sp) (hp : sp.pages.get? a = some p) (f : Page → Act α) :
    (page id a >>= f) s = f p s := by
  refine Action.bind_of_ok ?_
  simp only [page, space_bind hs, hp]
  rfl

/-- A page that is not registered is refused. -/
theorem page_bind_none {id : SpaceId} {a : VirtualAddress} {sp : Space}
    (hs : s.spaces.get? id = some sp) (hp : sp.pages.get? a = none) (f : Page → Act α) :
    (page id a >>= f) s = .ok (.error .notMapped, s) := by
  have hpage : page id a s = .ok (.error .notMapped, s) := by
    simp only [page, space_bind hs, hp]
    rfl
  rw [Action.bind_apply, hpage]

theorem addressOfFrame_bind {f : FrameId} {fr : Frame} (hf : s.frames.get? f = some fr)
    (g : PhysicalAddress → Act α) : (addressOfFrame f >>= g) s = g fr.address s := by
  refine Action.bind_of_ok ?_
  simp only [addressOfFrame, Action.get_bind, FrameTable.get, hf]
  rfl

theorem readFrame_bind {address : PhysicalAddress} {bytes : Bytes}
    (h : s.pool.read address = .ok bytes) (g : Bytes → Act α) :
    (readFrame address >>= g) s = g bytes s := by
  refine Action.bind_of_ok ?_
  simp only [readFrame, Action.get_bind, h]
  rfl

theorem space_bind_eq_ok {id : SpaceId} {f : Space → Act α} :
    (space id >>= f) s = .ok (r, t) ↔
      ∃ sp, s.spaces.get? id = some sp ∧ f sp s = .ok (r, t) := by
  cases h : s.spaces.get? id with
  | none => simp [space_bind_none h]
  | some sp =>
    have hs : space id s = .ok (.ok sp, s) := by
      simp only [space, Action.get_bind, h]
      rfl
    simp [Action.bind_of_ok hs]

theorem page_bind_eq_ok {id : SpaceId} {a : VirtualAddress} {f : Page → Act α} :
    (page id a >>= f) s = .ok (r, t) ↔
      ∃ sp, s.spaces.get? id = some sp ∧
        ((∃ p, sp.pages.get? a = some p ∧ f p s = .ok (r, t)) ∨
          (sp.pages.get? a = none ∧ r = .error .notMapped ∧ t = s)) := by
  unfold page
  rw [Action.bind_eq_ok]
  simp only [space_bind_eq_ok]
  constructor
  · rintro (⟨p, u, ⟨sp, hsp, h⟩, hf⟩ | ⟨e, ⟨sp, hsp, h⟩, rfl⟩)
    · refine ⟨sp, hsp, ?_⟩
      cases hp : sp.pages.get? a with
      | none => simp [hp, Action.throw_apply] at h
      | some q =>
        simp only [hp, Action.pure_apply, Except.ok.injEq, Prod.mk.injEq] at h
        obtain ⟨rfl, rfl⟩ := h
        exact .inl ⟨q, rfl, hf⟩
    · refine ⟨sp, hsp, ?_⟩
      cases hp : sp.pages.get? a with
      | none =>
        simp only [hp, Action.throw_apply, Except.ok.injEq, Prod.mk.injEq, Except.error.injEq] at h
        obtain ⟨rfl, rfl⟩ := h
        exact .inr ⟨rfl, rfl, rfl⟩
      | some q => simp [hp, Action.pure_apply] at h
  · rintro ⟨sp, hsp, ⟨p, hp, hf⟩ | ⟨hp, rfl, rfl⟩⟩
    · exact .inl ⟨p, s, ⟨sp, hsp, by simp [hp, Action.pure_apply]⟩, hf⟩
    · exact .inr ⟨_, ⟨sp, hsp, by simp [hp, Action.throw_apply]⟩, rfl⟩

theorem modifySpace_apply (id : SpaceId) (f : Space → Space) :
    modifySpace id f s = .ok (.ok (), { s with spaces := s.spaces.modify id f }) := rfl

theorem modifySpace_bind (id : SpaceId) (f : Space → Space) (g : Unit → Act α) :
    (modifySpace id f >>= g) s = g () { s with spaces := s.spaces.modify id f } := rfl

theorem report_bind (event : Event) (g : Unit → Act α) :
    (report event >>= g) s = g () { s with events := event :: s.events } := rfl

theorem addressOfFrame_bind_eq_ok {frame : FrameId} {f : PhysicalAddress → Act α} :
    (addressOfFrame frame >>= f) s = .ok (r, t) ↔
      ∃ fr, s.frames.get? frame = some fr ∧ f fr.address s = .ok (r, t) := by
  cases h : s.frames.get? frame with
  | none =>
    have hs : addressOfFrame frame s = .error (.untracked frame) := by
      simp only [addressOfFrame, Action.get_bind, FrameTable.get, h]
      rfl
    simp [Action.bind_apply, hs]
  | some fr =>
    have hs : addressOfFrame frame s = .ok (.ok fr.address, s) := by
      simp only [addressOfFrame, Action.get_bind, FrameTable.get, h]
      rfl
    simp [Action.bind_of_ok hs]

theorem readFrame_bind_eq_ok {address : PhysicalAddress} {f : Bytes → Act α} :
    (readFrame address >>= f) s = .ok (r, t) ↔
      ∃ bytes, s.pool.read address = .ok bytes ∧ f bytes s = .ok (r, t) := by
  cases h : s.pool.read address with
  | error b =>
    have hs : readFrame address s = .error b := by
      simp only [readFrame, Action.get_bind, h]
      rfl
    simp [Action.bind_apply, hs]
  | ok bytes =>
    have hs : readFrame address s = .ok (.ok bytes, s) := by
      simp only [readFrame, Action.get_bind, h]
      rfl
    simp [Action.bind_of_ok hs]

theorem writeFrame_eq_bug {address : PhysicalAddress} {start : Nat} {bytes : Bytes} {b : Bug} :
    writeFrame address start bytes s = .error b ↔ s.pool.write address start bytes = .error b := by
  simp only [writeFrame, Action.get_bind, Action.liftM_bind_eq_bug]
  refine or_iff_left ?_
  rintro ⟨pool, -, h⟩
  cases h

theorem onFrames_eq_bug {f : FrameTable → Except Bug (α × FrameTable)} {b : Bug} :
    onFrames f s = .error b ↔ f s.frames = .error b := by
  simp only [onFrames, Action.get_bind, Action.liftM_bind_eq_bug]
  refine or_iff_left ?_
  rintro ⟨_, -, h⟩
  cases h

theorem writeFrame_eq_ok {address : PhysicalAddress} {start : Nat} {bytes : Bytes}
    {r : Except PagerError Unit} :
    writeFrame address start bytes s = .ok (r, t) ↔
      ∃ pool, s.pool.write address start bytes = .ok pool ∧ r = .ok () ∧
        t = { s with pool } := by
  simp only [writeFrame, Action.get_bind, Action.liftM_bind_eq_ok]
  refine exists_congr fun pool => and_congr_right fun _ => ?_
  show (Except.ok (Except.ok (), { s with pool }) : Except Bug _) = _ ↔ _
  simp [eq_comm]

theorem onFrames_eq_ok {f : FrameTable → Except Bug (α × FrameTable)} :
    onFrames f s = .ok (r, t) ↔
      ∃ a frames, f s.frames = .ok (a, frames) ∧ r = .ok a ∧ t = { s with frames } := by
  simp only [onFrames, Action.get_bind, Action.liftM_bind_eq_ok, Action.set_bind,
    Action.pure_apply, Except.ok.injEq, Prod.mk.injEq, Prod.exists]
  refine exists_congr fun a => exists_congr fun frames => and_congr_right fun _ => ?_
  constructor
  · rintro ⟨rfl, rfl⟩
    exact ⟨rfl, rfl⟩
  · rintro ⟨rfl, rfl⟩
    exact ⟨rfl, rfl⟩

end Machine
end Pager
