import Pager.Machine.Operation
import Pager.Proofs.Execution

/-!
Machines that are alike but for bytes. The outline of a machine is what is left of it when
all bytes in its frames and on its disk are cleared: every page, frame, entry, slot, file
and counter. Most of the pager never looks at the bytes. On machines of one outline
it answers the same, and the outlines stay the same.
-/
namespace Pager

def Bytes.blank (bytes : Bytes) : Bytes := .zeros bytes.length

def FramePool.outline (pool : FramePool) : FramePool :=
  { pool with contents := pool.contents.map Bytes.blank }

def Disk.outline (disk : Disk) : Disk := { disk with sectors := disk.sectors.map Bytes.blank }

def SwapTable.outline (swap : SwapTable) : SwapTable := { swap with disk := swap.disk.outline }

def Transfer.outline (t : Transfer) : Transfer :=
  { t with frame := t.frame.blank, swap := t.swap.outline }

/-- The machine with all bytes of its frames and sectors cleared. -/
def Machine.outline (s : Machine) : Machine :=
  { s with pool := s.pool.outline, swap := s.swap.outline }

/-- Two states that `view` shows as the same. -/
abbrev Shares {σ τ : Type} (view : σ → τ) (s s' : σ) : Prop := view s' = view s

/-- Two outcomes that look alike: the same bug, the same error or answers that are related, and
states that are alike. -/
inductive Mirrors {σ ε α : Type} (alike : σ → σ → Prop) (R : α → α → Prop) :
    Except Bug (Except ε α × σ) → Except Bug (Except ε α × σ) → Prop
  | bug (b : Bug) : Mirrors alike R (.error b) (.error b)
  | failed (e : ε) {t t' : σ} (states : alike t t') :
      Mirrors alike R (.ok (.error e, t)) (.ok (.error e, t'))
  | done {a a' : α} {t t' : σ} (answers : R a a') (states : alike t t') :
      Mirrors alike R (.ok (.ok a, t)) (.ok (.ok a', t'))

namespace Mirrors

variable {σ τ ε ε' α β : Type} {alike : σ → σ → Prop} {R : α → α → Prop} {Q : β → β → Prop}
  {m m' : Action σ ε α} {s s' : σ}

theorem bind {f f' : α → Action σ ε β} (h : Mirrors alike R (m s) (m' s'))
    (hf : ∀ {a a' t t'}, m s = .ok (.ok a, t) → m' s' = .ok (.ok a', t') → R a a' →
      alike t t' → Mirrors alike Q (f a t) (f' a' t')) :
    Mirrors alike Q ((m >>= f) s) ((m' >>= f') s') := by
  rw [Action.bind_apply, Action.bind_apply]
  generalize hm : m s = x at h ⊢
  generalize hm' : m' s' = x' at h ⊢
  cases h with
  | bug b => exact .bug b
  | failed e halike => exact .failed e halike
  | done hanswers halike => exact hf hm hm' hanswers halike

/-- An attempt goes on with what came of it, whatever that is. -/
theorem attempt_bind {f f' : Except ε α → Action σ ε' β} (h : Mirrors alike Eq (m s) (m' s'))
    (hf : ∀ {q t t'}, m s = .ok (q, t) → m' s' = .ok (q, t') → alike t t' →
      Mirrors alike Q (f q t) (f' q t')) :
    Mirrors alike Q ((m.attempt >>= f) s) ((m'.attempt >>= f') s') := by
  rw [Action.bind_apply, Action.bind_apply, Action.attempt, Action.attempt]
  generalize hm : m s = x at h ⊢
  generalize hm' : m' s' = x' at h ⊢
  cases h with
  | bug b => exact .bug b
  | failed e halike => exact hf hm hm' halike
  | done hanswers halike =>
    cases hanswers
    exact hf hm hm' halike

theorem mapError (g : ε → ε') (h : Mirrors alike R (m s) (m' s')) :
    Mirrors alike R (m.mapError g s) (m'.mapError g s') := by
  rw [Action.mapError, Action.mapError]
  generalize m s = x at h ⊢
  generalize m' s' = x' at h ⊢
  cases h with
  | bug b => exact .bug b
  | failed e halike => exact .failed (g e) halike
  | done hanswers halike => exact .done hanswers halike

/-- Work on a part of which both states show the same. -/
theorem within {part : σ → τ} {put : τ → σ → σ} {inner : τ → τ → Prop} {n n' : Action τ ε α}
    (h : Mirrors inner R (n (part s)) (n' (part s')))
    (hput : ∀ {u u'}, inner u u' → alike (put u s) (put u' s')) :
    Mirrors alike R (n.within part put s) (n'.within part put s') := by
  rw [Action.within, Action.within]
  generalize n (part s) = x at h ⊢
  generalize n' (part s') = x' at h ⊢
  cases h with
  | bug b => exact .bug b
  | failed e halike => exact .failed e (hput halike)
  | done hanswers halike => exact .done hanswers (hput halike)

/-- Work on a part that is the same in both states. -/
theorem within_same {part : σ → τ} {put : τ → σ → σ} (n : Action τ ε α) (hpart : part s' = part s)
    (hput : ∀ u, alike (put u s) (put u s')) :
    Mirrors alike Eq (n.within part put s) (n.within part put s') := by
  rw [Action.within, Action.within, hpart]
  cases n (part s) with
  | error b => exact .bug b
  | ok last =>
    obtain ⟨r, u⟩ := last
    cases r with
    | error e => exact .failed e (hput u)
    | ok a => exact .done rfl (hput u)

/-- What comes of work that looks at nothing but what is shown. -/
theorem of_result {x : Except ε α} (h : alike s s') :
    Mirrors alike Eq (Action.ofResult x s) (Action.ofResult x s') := by
  cases x with
  | error e => exact .failed e h
  | ok a => exact .done rfl h

theorem liftM_bind {x : Except Bug β} {f f' : β → Action σ ε α}
    (hf : ∀ {b}, x = .ok b → Mirrors alike R (f b s) (f' b s')) :
    Mirrors alike R ((liftM x >>= f) s) ((liftM x >>= f') s') := by
  cases x with
  | error b => exact .bug b
  | ok b => exact hf rfl

/-- States that are alike may be so in more than was seen at first. -/
theorem strengthen {more : σ → σ → Prop} {x x' : Except Bug (Except ε α × σ)}
    (h : Mirrors alike Eq x x')
    (hmore : ∀ {r t t'}, x = .ok (r, t) → x' = .ok (r, t') → alike t t' → more t t') :
    Mirrors more Eq x x' := by
  cases h with
  | bug b => exact .bug b
  | failed e halike => exact .failed e (hmore rfl rfl halike)
  | done hanswers halike =>
    cases hanswers
    exact .done rfl (hmore rfl rfl halike)

/-- Equal answers are related if every answer is related to itself. -/
theorem of_eq {x x' : Except Bug (Except ε α × σ)} (h : Mirrors alike Eq x x') (hR : ∀ a, R a a) :
    Mirrors alike R x x' := by
  cases h with
  | bug b => exact .bug b
  | failed e halike => exact .failed e halike
  | done hanswers halike => exact .done (hanswers ▸ hR _) halike

theorem mono {more : σ → σ → Prop} {x x' : Except Bug (Except ε α × σ)}
    (h : Mirrors alike R x x') (hmore : ∀ {t t'}, alike t t' → more t t') : Mirrors more R x x' := by
  cases h with
  | bug b => exact .bug b
  | failed e halike => exact .failed e (hmore halike)
  | done hanswers halike => exact .done hanswers (hmore halike)

/-- Outcomes with the same answers. -/
theorem outcome {x x' : Except Bug (Except ε α × σ)} (h : Mirrors alike Eq x x') :
    (∃ b, x = .error b ∧ x' = .error b) ∨
      ∃ r t t', x = .ok (r, t) ∧ x' = .ok (r, t') ∧ alike t t' := by
  cases h with
  | bug b => exact .inl ⟨b, rfl, rfl⟩
  | failed e halike => exact .inr ⟨_, _, _, rfl, rfl, halike⟩
  | done hanswers halike =>
    cases hanswers
    exact .inr ⟨_, _, _, rfl, rfl, halike⟩

theorem bug_eq {b : Bug} {x' : Except Bug (Except ε α × σ)}
    (h : Mirrors alike R (.error b) x') : x' = .error b := by
  cases h
  rfl

/-- What the second outcome is, when the first is known and the answers agree on a condition. -/
theorem exists_ok {P : Prop} {r : Except ε α} {t : σ} {x' : Except Bug (Except ε α × σ)}
    (h : Mirrors alike (fun a a' => P → a' = a) (.ok (r, t)) x') :
    ∃ r' t', x' = .ok (r', t') ∧ alike t t' ∧ (P → r' = r) := by
  cases h with
  | failed e states => exact ⟨_, _, rfl, states, fun _ => rfl⟩
  | done answers states => exact ⟨_, _, rfl, states, fun hp => congrArg Except.ok (answers hp)⟩

end Mirrors

namespace Bytes

theorem blank_eq_iff {bytes other : Bytes} : blank other = blank bytes ↔ other.length = bytes.length := by
  constructor
  · intro h
    have hlength := congrArg List.length h
    rwa [blank, blank, length_zeros, length_zeros] at hlength
  · intro h
    rw [blank, blank, h]

@[simp] theorem blank_overlay (target : Bytes) (start : Nat) (source : Bytes) :
    blank (overlay target start source) = blank target := by
  rw [blank_eq_iff, length_overlay]

end Bytes

namespace FramePool

variable {pool other : FramePool}

section Alike

variable (h : other.outline = pool.outline)
include h

theorem size_of_alike : other.size = pool.size := by
  have hcontents : (other.contents.map Bytes.blank).length = (pool.contents.map Bytes.blank).length :=
    congrArg (List.length ∘ contents) h
  rwa [List.length_map, List.length_map] at hcontents

theorem indexOf_of_alike (address : PhysicalAddress) : other.indexOf address = pool.indexOf address := by
  rw [indexOf, indexOf, size_of_alike h]

theorem length_of_alike (n : Nat) :
    (other.contents[n]?.getD []).length = (pool.contents[n]?.getD []).length := by
  have hblank : (other.contents.map Bytes.blank)[n]? = (pool.contents.map Bytes.blank)[n]? :=
    congrArg (fun o : FramePool => o.contents[n]?) h
  rw [List.getElem?_map, List.getElem?_map] at hblank
  cases hb : pool.contents[n]? with
  | none =>
    rw [hb] at hblank
    rw [Option.map_eq_none_iff.1 hblank]
  | some bytes =>
    rw [hb] at hblank
    obtain ⟨bytes', hb', hsame⟩ := Option.map_eq_some_iff.1 hblank
    rw [hb', Option.getD_some, Option.getD_some]
    exact Bytes.blank_eq_iff.1 hsame

end Alike

/-- Reading, storing and giving back, in two pools of one outline. -/
theorem read_of_alike (h : other.outline = pool.outline) (address : PhysicalAddress) :
    (∃ b, pool.read address = .error b ∧ other.read address = .error b) ∨
      ∃ bytes bytes', pool.read address = .ok bytes ∧ other.read address = .ok bytes' ∧
        bytes'.length = bytes.length := by
  rw [read, read, indexOf_of_alike h]
  cases pool.indexOf address with
  | error b => exact .inl ⟨b, rfl, rfl⟩
  | ok n => exact .inr ⟨_, _, rfl, rfl, length_of_alike h n⟩

theorem write_of_alike (h : other.outline = pool.outline) (address : PhysicalAddress) (start : Nat)
    (bytes bytes' : Bytes) :
    (∃ b, pool.write address start bytes = .error b ∧ other.write address start bytes' = .error b) ∨
      ∃ next next', pool.write address start bytes = .ok next ∧
        other.write address start bytes' = .ok next' ∧ next'.outline = next.outline := by
  have hmodify : ∀ (p : FramePool) (n : Nat) (source : Bytes),
      ({ p with contents := p.contents.modify n (·.overlay start source) } : FramePool).outline =
        p.outline := by
    intro p n source
    rw [outline, outline]
    congr 1
    refine List.ext_getElem? fun i => ?_
    rw [List.getElem?_map, List.getElem?_map, List.getElem?_modify]
    cases p.contents[i]? with
    | none => rfl
    | some bytes =>
      by_cases hi : n = i
      · simp [hi]
      · simp [hi]
  rw [write, write, indexOf_of_alike h]
  cases pool.indexOf address with
  | error b => exact .inl ⟨b, rfl, rfl⟩
  | ok n => exact .inr ⟨_, _, rfl, rfl, by rw [hmodify, hmodify, h]⟩

/-- Both pools hand out the same frame, or neither has one. -/
theorem take?_of_alike (h : other.outline = pool.outline) :
    (pool.take? = none ∧ other.take? = none) ∨
      ∃ address next next', pool.take? = some (address, next) ∧
        other.take? = some (address, next') ∧ next'.outline = next.outline := by
  have hallocated : other.allocated = pool.allocated := (congrArg allocated h :)
  have hfree : other.free = pool.free := (congrArg free h :)
  rw [take?, take?, hallocated, hfree]
  cases pool.free with
  | nil => exact .inl ⟨rfl, rfl⟩
  | cons frame rest =>
    exact .inr ⟨_, _, _, rfl, rfl, congrArg (fun o : FramePool => { o with
      allocated := pool.allocated.set frame true
      free := rest }) h⟩

theorem giveBack_of_alike (h : other.outline = pool.outline) (address : PhysicalAddress) :
    (∃ b, pool.giveBack address = .error b ∧ other.giveBack address = .error b) ∨
      ∃ next next', pool.giveBack address = .ok next ∧ other.giveBack address = .ok next' ∧
        next'.outline = next.outline := by
  have hallocated : other.allocated = pool.allocated := (congrArg allocated h :)
  have hfree : other.free = pool.free := (congrArg free h :)
  rw [giveBack, giveBack, indexOf_of_alike h, hallocated, hfree]
  cases pool.indexOf address with
  | error b => exact .inl ⟨b, rfl, rfl⟩
  | ok n =>
    by_cases hmark : (pool.allocated[n]? == some true) = true
    · refine .inr ⟨{ pool with allocated := pool.allocated.set n false, free := n :: pool.free },
        { other with allocated := pool.allocated.set n false, free := n :: pool.free }, ?_, ?_, ?_⟩
      · exact if_pos hmark
      · exact if_pos hmark
      · exact congrArg (fun o : FramePool => { o with
          allocated := pool.allocated.set n false
          free := n :: pool.free }) h
    · exact .inl ⟨_, if_neg hmark, if_neg hmark⟩

end FramePool

/-- Releasing a slot, in two tables of one outline. -/
theorem SwapTable.release_of_alike {swap other : SwapTable} (h : other.outline = swap.outline)
    (slot : SwapSlot) :
    (∃ b, swap.release slot = .error b ∧ other.release slot = .error b) ∨
      ∃ next next', swap.release slot = .ok next ∧ other.release slot = .ok next' ∧
        next'.outline = next.outline := by
  have hbitmap : other.bitmap = swap.bitmap := (congrArg bitmap h :)
  rw [release, release, hbitmap]
  cases swap.bitmap.clear slot with
  | none => exact .inl ⟨_, rfl, rfl⟩
  | some bitmap =>
    exact .inr ⟨_, _, rfl, rfl, congrArg (fun o : SwapTable => { o with bitmap }) h⟩

theorem Page.releaseSlot_of_alike {swap other : SwapTable} (h : other.outline = swap.outline)
    (page : Page) :
    (∃ b, page.releaseSlot swap = .error b ∧ page.releaseSlot other = .error b) ∨
      ∃ after next next', page.releaseSlot swap = .ok (after, next) ∧
        page.releaseSlot other = .ok (after, next') ∧ next'.outline = next.outline := by
  unfold releaseSlot
  cases page.kind with
  | anonymous slot =>
    cases slot with
    | none => exact .inr ⟨_, _, _, rfl, rfl, h⟩
    | some slot =>
      dsimp only
      rcases SwapTable.release_of_alike h slot with
        ⟨b, hb, hb'⟩ | ⟨next, next', hnext, hnext', halike⟩
      · rw [hb, hb']
        exact .inl ⟨b, rfl, rfl⟩
      · rw [hnext, hnext']
        exact .inr ⟨_, _, _, rfl, rfl, halike⟩
  | unpopulated | fileBacked => exact .inr ⟨_, _, _, rfl, rfl, h⟩

namespace Machine

variable {α β : Type} {s s' : Machine}

section Alike

variable (h : s'.outline = s.outline) {alike : Machine → Machine → Prop} {R : α → α → Prop}
include h

theorem frames_of_alike : s'.frames = s.frames := (congrArg Machine.frames h :)

theorem files_of_alike : s'.files = s.files := (congrArg Machine.files h :)

theorem spaces_of_alike : s'.spaces = s.spaces := (congrArg Machine.spaces h :)

theorem inits_of_alike : s'.inits = s.inits := (congrArg Machine.inits h :)

theorem nextSpace_of_alike : s'.nextSpace = s.nextSpace := (congrArg Machine.nextSpace h :)

theorem pool_of_alike : s'.pool.outline = s.pool.outline := (congrArg Machine.pool h :)

theorem swap_of_alike : s'.swap.outline = s.swap.outline := (congrArg Machine.swap h :)

/-- Both machines have the same space, or neither has it. -/
theorem space_bind_mirrors {id : SpaceId} {f f' : Space → Act α}
    (hf : ∀ {sp}, s.spaces.get? id = some sp → Mirrors alike R (f sp s) (f' sp s')) :
    Mirrors alike R ((space id >>= f) s) ((space id >>= f') s') := by
  cases hs : s.spaces.get? id with
  | none =>
    have hs' : s'.spaces.get? id = none := spaces_of_alike h ▸ hs
    rw [space_bind_none hs, space_bind_none hs']
    exact .bug _
  | some sp =>
    have hs' : s'.spaces.get? id = some sp := spaces_of_alike h ▸ hs
    rw [space_bind hs, space_bind hs']
    exact hf hs

/-- Both machines have the same page, or neither has it. -/
theorem page_bind_mirrors {id : SpaceId} {a : VirtualAddress} {f f' : Page → Act α}
    (halike : alike s s') (hf : ∀ {sp p}, s.spaces.get? id = some sp →
      sp.pages.get? a = some p → Mirrors alike R (f p s) (f' p s')) :
    Mirrors alike R ((page id a >>= f) s) ((page id a >>= f') s') := by
  cases hs : s.spaces.get? id with
  | none =>
    have hs' : s'.spaces.get? id = none := spaces_of_alike h ▸ hs
    have hgone : page id a s = .error (.spaceGone id) := space_bind_none hs _
    have hgone' : page id a s' = .error (.spaceGone id) := space_bind_none hs' _
    rw [Action.bind_eq_bug.2 (.inl hgone), Action.bind_eq_bug.2 (.inl hgone')]
    exact .bug _
  | some sp =>
    have hs' : s'.spaces.get? id = some sp := spaces_of_alike h ▸ hs
    cases hp : sp.pages.get? a with
    | none =>
      rw [page_bind_none hs hp, page_bind_none hs' hp]
      exact .failed _ halike
    | some p =>
      rw [page_bind hs hp, page_bind hs' hp]
      exact hf hs hp

/-- Both machines track the frame, or neither does. -/
theorem addressOfFrame_bind_mirrors {frame : FrameId} {g g' : PhysicalAddress → Act α}
    (hg : ∀ {fr}, s.frames.get? frame = some fr →
      Mirrors alike R (g fr.address s) (g' fr.address s')) :
    Mirrors alike R ((addressOfFrame frame >>= g) s) ((addressOfFrame frame >>= g') s') := by
  have hframes := frames_of_alike h
  cases hf : s.frames.get? frame with
  | none =>
    have hbug : ∀ u : Machine, u.frames = s.frames →
        addressOfFrame frame u = .error (.untracked frame) := by
      intro u hu
      rw [addressOfFrame, Action.get_bind, hu, FrameTable.get, hf]
      rfl
    rw [Action.bind_eq_bug.2 (.inl (hbug s rfl)), Action.bind_eq_bug.2 (.inl (hbug s' hframes))]
    exact .bug _
  | some fr =>
    have hf' : s'.frames.get? frame = some fr := hframes ▸ hf
    rw [addressOfFrame_bind hf, addressOfFrame_bind hf']
    exact hg hf

end Alike

/-- Work that does not look at the bytes in frames and sectors. -/
structure Blind {ε : Type} (m : Action Machine ε α) : Prop where
  mirrors : ∀ {s s' : Machine}, s'.outline = s.outline → Mirrors (Shares outline) Eq (m s) (m s')

namespace Blind

variable {ε ε' : Type} {m : Action Machine ε α}

theorem pure (a : α) : Blind (Pure.pure a : Action Machine ε α) := ⟨fun h => .done rfl h⟩

theorem throw (e : ε) : Blind (MonadExcept.throw e : Action Machine ε α) := ⟨fun h => .failed e h⟩

theorem ofResult (x : Except ε α) : Blind (Action.ofResult x) := ⟨fun h => .of_result h⟩

theorem bind {f : α → Action Machine ε β} (hm : Blind m) (hf : ∀ a, Blind (f a)) :
    Blind (m >>= f) :=
  ⟨fun h => (hm.mirrors h).bind fun _ _ heq halike => heq ▸ (hf _).mirrors halike⟩

theorem mapError (g : ε → ε') (hm : Blind m) : Blind (m.mapError g) :=
  ⟨fun h => (hm.mirrors h).mapError g⟩

theorem liftM_bind {x : Except Bug β} {f : β → Action Machine ε α} (hf : ∀ b, Blind (f b)) :
    Blind (liftM x >>= f) := ⟨fun h => .liftM_bind fun _ => (hf _).mirrors h⟩

theorem ite {c : Prop} [Decidable c] {n : Action Machine ε α} (hm : Blind m) (hn : Blind n) :
    Blind (if c then m else n) := by
  split
  · exact hm
  · exact hn

/-- A change that leaves the bytes alone and does not look at them. -/
theorem modify {f : Machine → Machine} (hf : ∀ s : Machine, (f s).outline = f s.outline) :
    Blind (modify f : Action Machine ε PUnit) where
  mirrors h := .done rfl (by rw [Shares, hf, h, hf])

end Blind

theorem blind_report (event : Event) : Blind (report event) := .modify fun _ => rfl

theorem blind_modifySpace (id : SpaceId) (f : Space → Space) : Blind (modifySpace id f) :=
  .modify fun _ => rfl

theorem blind_space (id : SpaceId) : Blind (space id) where
  mirrors {s s'} h := by
    unfold space
    rw [Action.get_bind, Action.get_bind, spaces_of_alike h]
    cases s.spaces.get? id with
    | none => exact .bug _
    | some sp => exact .done rfl h

theorem blind_page (id : SpaceId) (a : VirtualAddress) : Blind (page id a) := by
  refine (blind_space id).bind fun sp => ?_
  cases sp.pages.get? a with
  | none => exact .throw _
  | some p => exact .pure p

theorem blind_onFrames (f : FrameTable → Except Bug (α × FrameTable)) : Blind (onFrames f) where
  mirrors {s s'} h := by
    unfold onFrames
    rw [Action.get_bind, Action.get_bind, frames_of_alike h]
    refine .liftM_bind fun {last} _ => ?_
    exact .done rfl (congrArg (fun o : Machine => { o with frames := last.2 }) h)

theorem blind_insertPages (id : SpaceId) (pages : List Page) : Blind (insertPages id pages) :=
  (blind_space id).bind fun _ => (Blind.ofResult _).bind fun _ => blind_modifySpace id _

theorem blind_install (id : SpaceId) (a : VirtualAddress) (address : PhysicalAddress) :
    Blind (install id a address) := by
  refine (blind_page id a).bind fun p => (blind_space id).bind fun sp => ?_
  cases sp.refusesEntries with
  | some e => exact .throw e
  | none => exact .liftM_bind fun _ => blind_modifySpace id _

theorem blind_bindFrame (frame : FrameId) (id : SpaceId) (a : VirtualAddress) :
    Blind (bindFrame frame id a) := by
  refine (blind_page id a).bind fun p => ⟨fun {s s'} h => ?_⟩
  rw [Action.get_bind, Action.get_bind, frames_of_alike h]
  refine .liftM_bind fun {last} _ => ?_
  exact (blind_modifySpace id _).mirrors
    (congrArg (fun o : Machine => { o with frames := last.1 }) h)

theorem alike_pool {pool pool' : FramePool} (h : s'.outline = s.outline)
    (hpool : pool'.outline = pool.outline) :
    outline { s' with pool := pool' } = outline { s with pool } := by
  change { outline s' with pool := pool'.outline } = { outline s with pool := pool.outline }
  rw [h, hpool]

theorem alike_swap {swap swap' : SwapTable} (h : s'.outline = s.outline)
    (hswap : swap'.outline = swap.outline) :
    outline { s' with swap := swap' } = outline { s with swap } := by
  change { outline s' with swap := swap'.outline } = { outline s with swap := swap.outline }
  rw [h, hswap]

theorem alike_files (h : s'.outline = s.outline) (files : FileStore) :
    outline { s' with files } = outline { s with files } :=
  congrArg (fun o : Machine => { o with files }) h

theorem alike_inits (h : s'.outline = s.outline) (inits : List (Owner × Initialization)) :
    outline { s' with inits } = outline { s with inits } :=
  congrArg (fun o : Machine => { o with inits }) h

theorem blind_returnFrame (frame : FrameId) : Blind (returnFrame frame) := by
  refine (blind_onFrames _).bind fun address => ⟨fun {s s'} h => ?_⟩
  rw [Action.get_bind, Action.get_bind]
  rcases FramePool.giveBack_of_alike (pool_of_alike h) address with
    ⟨b, hb, hb'⟩ | ⟨pool, pool', hpool, hpool', halike⟩
  · rw [hb, hb']
    exact .bug b
  · rw [hpool, hpool']
    exact .done rfl (alike_pool h halike)

theorem blind_discardPage (id : SpaceId) (page : Page) : Blind (discardPage id page) := by
  have hrelease : Blind (do
      let s ← get
      let released ← page.releaseSlot s.swap
      set { s with swap := released.2 } : Act Unit) := ⟨fun {s s'} h => by
    rw [Action.get_bind, Action.get_bind]
    rcases page.releaseSlot_of_alike (swap_of_alike h) with
      ⟨b, hb, hb'⟩ | ⟨after, swap, swap', hswap, hswap', halike⟩
    · rw [hb, hb']
      exact .bug b
    · rw [hswap, hswap']
      exact .done rfl (alike_swap h halike)⟩
  unfold discardPage
  cases page.frame with
  | none => exact hrelease
  | some frame =>
    exact (blind_modifySpace id _).bind fun _ => (blind_onFrames _).bind fun _ =>
      (blind_returnFrame frame).bind fun _ => hrelease

theorem blind_remove (id : SpaceId) (a : VirtualAddress) : Blind (remove id a) :=
  (blind_page id a).bind fun _ => (blind_modifySpace id _).bind fun _ => blind_discardPage id _

theorem blind_register (id : SpaceId) (a : VirtualAddress) (writable : Bool) (type : PageType)
    (init : Option Initializer) (slice : LoadSlice) :
    Blind (register id a writable type init slice) :=
  (Blind.ofResult _).bind fun _ => .ite (.throw _) (blind_insertPages id _)

theorem blind_registerSegment (id : SpaceId) (file : Handle) (offset : Nat)
    (start : VirtualAddress) (readBytes zeroBytes : Nat) (writable : Bool) :
    Blind (registerSegment id file offset start readBytes zeroBytes writable) := by
  unfold registerSegment
  refine .ite (.throw _) (.ite (.throw _) ((Blind.ofResult _).bind fun _ => .ite (.throw _) ?_))
  refine (blind_space id).bind fun sp => .liftM_bind fun overlaps => .ite (.throw _) ?_
  exact .liftM_bind fun pages => blind_insertPages id pages

/-- Work on the files, which are the same in both machines. -/
theorem blind_within {ε : Type} (m : Action FileStore ε α) :
    Blind (m.within Machine.files fun files s => { s with files }) :=
  ⟨fun h => .within_same m (files_of_alike h) (alike_files h)⟩

theorem blind_mmap (id : SpaceId) (start : VirtualAddress) (length : Nat) (writable : Bool)
    (file : Handle) (offset : Nat) : Blind (mmap id start length writable file offset) := by
  unfold mmap
  refine .ite (.throw _) (.ite (.throw _) ⟨fun {s s'} h => ?_⟩)
  dsimp only
  rw [Action.get_bind, Action.get_bind, files_of_alike h]
  refine (Blind.ite (.throw _) (.ite (.throw _) (.ite (.throw _) ?_))).mirrors h
  refine (blind_space id).bind fun sp => .liftM_bind fun overlaps => .ite (.throw _) ?_
  refine (blind_within _).bind fun opened => (blind_space id).bind fun sp => ?_
  refine .liftM_bind fun next => (blind_modifySpace id _).bind fun _ => ⟨fun {u u'} hu => ?_⟩
  rw [Action.get_bind, Action.get_bind, files_of_alike hu]
  refine (Blind.liftM_bind fun pages => ?_).mirrors hu
  exact (blind_insertPages id pages).bind fun _ => (blind_modifySpace id _).bind fun _ =>
    (blind_report _).bind fun _ => .pure start

theorem blind_growStack (id : SpaceId) (a : VirtualAddress) (stackPointer : Option VirtualAddress) :
    Blind (growStack id a stackPointer) := by
  refine (blind_space id).bind fun sp => .ite (.pure ()) ?_
  cases stackPointer with
  | none => exact .pure ()
  | some stackPointer =>
    exact .ite ((blind_insertPages id _).bind fun _ => blind_report _) (.pure ())

theorem blind_createSpace : Blind createSpace where
  mirrors {s s'} h := by
    unfold createSpace
    rw [Action.get_bind, Action.get_bind, nextSpace_of_alike h, spaces_of_alike h]
    rw [Action.set_bind, Action.set_bind]
    refine ((blind_report _).bind fun _ => .pure s.nextSpace).mirrors ?_
    exact congrArg (fun o : Machine => { o with
      nextSpace := s.nextSpace + 1
      spaces := s.spaces.insert s.nextSpace {} }) h

theorem blind_unpin (id : SpaceId) (a : VirtualAddress) : Blind (unpin id a) := by
  refine (blind_space id).bind fun sp => ?_
  cases (sp.pages.get? a).bind Page.frame with
  | none => exact .pure ()
  | some frame => exact blind_onFrames _

theorem blind_touch (id : SpaceId) (a : VirtualAddress) (write : Bool) : Blind (touch id a write) := by
  refine (blind_space id).bind fun sp => .ite (.pure false) ((blind_modifySpace id _).bind fun _ => ?_)
  exact .ite ((blind_modifySpace id _).bind fun _ => .pure true) (.pure true)

theorem blind_candidate? (frame : FrameId) : Blind (candidate? frame) where
  mirrors {s s'} h := by
    unfold candidate?
    rw [Action.get_bind, Action.get_bind, frames_of_alike h, spaces_of_alike h]
    refine (Blind.liftM_bind fun entry => .ite (.pure _) ?_).mirrors h
    cases entry.owner with
    | none => exact .pure none
    | some owner =>
      dsimp only
      cases s.spaces.get? owner.space with
      | none => exact .pure none
      | some sp => exact .pure _

theorem blind_noVictim (swapFull : Bool) : Blind (noVictim swapFull) where
  mirrors {s s'} h := by
    unfold noVictim
    rw [Action.get_bind, Action.get_bind, frames_of_alike h]
    exact ((blind_report _).bind fun _ => .throw _).mirrors h

theorem blind_removeAll (id : SpaceId) (addresses : List VirtualAddress) :
    Blind (removeAll id addresses) := by
  induction addresses with
  | nil => exact .pure ()
  | cons a rest ih => exact (blind_remove id a).bind fun _ => ih

end Machine
end Pager
