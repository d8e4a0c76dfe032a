import Pager.Proofs.Cells

/-!
What is registered, apart from where its bytes are kept. A page on the roster has
neither frame nor slot, so a search for a frame, which moves pages out, cannot be
seen there; what can be seen is that pages come and go, and that a page is
populated once.
-/
namespace Pager

open Function

namespace Page

/-- How many bytes of its file belong on a page. -/
def readBytes (p : Page) : Nat :=
  match p.kind with
  | .unpopulated u => u.slice.readBytes
  | .anonymous _ => 0
  | .fileBacked file => file.readBytes

/-- The page without the places where its bytes may lie. -/
def resting (p : Page) : Page :=
  { p with
    frame := none
    kind := match p.kind with
      | .anonymous _ => .anonymous none
      | kind => kind }

variable {p q : Page}

@[simp] theorem address_resting (p : Page) : p.resting.address = p.address := rfl

@[simp] theorem writable_resting (p : Page) : p.resting.writable = p.writable := rfl

@[simp] theorem stack_resting (p : Page) : p.resting.stack = p.stack := rfl

@[simp] theorem type_resting (p : Page) : p.resting.type = p.type := by
  unfold resting type
  cases p.kind <;> rfl

@[simp] theorem isInitialized_resting (p : Page) : p.resting.isInitialized = p.isInitialized := by
  unfold resting isInitialized
  cases p.kind <;> rfl

@[simp] theorem mapping_resting (p : Page) : p.resting.mapping = p.mapping := by
  unfold resting mapping
  cases p.kind <;> rfl

theorem resting_seated {frame : Option FrameId} (p : Page) :
    ({ p with frame } : Page).resting = p.resting := rfl

/-- An anonymous page rests without a slot. -/
theorem resting_of_anonymous {slot : Option SwapSlot} (h : p.kind = .anonymous slot) :
    p.resting = p.blankCopy := by
  unfold resting blankCopy
  rw [h]

@[simp] theorem readBytes_resting (p : Page) : p.resting.readBytes = p.readBytes := by
  unfold resting readBytes
  cases p.kind <;> rfl

@[simp] theorem resting_resting (p : Page) : p.resting.resting = p.resting := by
  unfold resting
  cases p.kind <;> rfl

end Page

namespace Machine

/-- What is registered, place by place. -/
def roster (s : Machine) : Place → Option Page :=
  fun pl => (Pager.pageAt s.spaces pl).map Page.resting

variable {s t : Machine} {pl : Place} {p : Page}

theorem roster_of_page (hp : Pager.pageAt s.spaces pl = some p) :
    s.roster pl = some p.resting := by
  rw [roster, hp, Option.map_some]

theorem roster_of_none (hp : Pager.pageAt s.spaces pl = none) : s.roster pl = none := by
  rw [roster, hp, Option.map_none]

theorem roster_eq_some_iff : s.roster pl = some p ↔
    ∃ q, Pager.pageAt s.spaces pl = some q ∧ q.resting = p := by
  rw [roster, Option.map_eq_some_iff]

theorem roster_congr (h : Pager.pageAt t.spaces = Pager.pageAt s.spaces) :
    t.roster = s.roster := by
  unfold roster
  rw [h]

theorem roster_put {q : Page} (hq : q.resting = p.resting)
    (h : Pager.pageAt t.spaces = update (Pager.pageAt s.spaces) pl (some q)) :
    t.roster = update s.roster pl (some p.resting) := by
  funext other
  unfold roster
  rw [h, update_apply, update_apply, ← hq]
  split <;> rfl

theorem roster_erase (h : Pager.pageAt t.spaces = update (Pager.pageAt s.spaces) pl none) :
    t.roster = update s.roster pl none := by
  funext other
  unfold roster
  rw [h, update_apply, update_apply]
  split <;> rfl

/-- A page that rests as before is on the roster as before. -/
theorem roster_update_self {q : Page} (hp : Pager.pageAt s.spaces pl = some p)
    (hq : q.resting = p.resting)
    (h : Pager.pageAt t.spaces = update (Pager.pageAt s.spaces) pl (some q)) :
    t.roster = s.roster := by
  rw [roster_put hq h, ← roster_of_page hp, update_eq_self]

end Machine

/-- A page that was filled wants no more of its file than before. -/
theorem Transfer.Populated.readBytes_le {t u : Transfer} (h : Transfer.Populated t u) :
    u.page.readBytes ≤ t.page.readBytes := by
  cases h with
  | @first page filled kind hk hfill hkind =>
    rcases Transfer.populated_kind hkind with ⟨-, rfl⟩ | ⟨-, file, -, rfl⟩
    · exact Nat.zero_le _
    · simp only [Page.readBytes, hk, Nat.le_refl]
  | blank => exact Nat.le_refl _
  | back => exact Nat.zero_le _
  | reload hk hload => exact Nat.le_of_eq (congrArg Page.readBytes (Transfer.load_drafted hload).page)

/-- The place whose page a move may register, populate or take away. -/
def Label.enrols? : Label → Option Place
  | populate pl | lose pl | register pl _ | remove pl _ => some pl
  | _ => none

namespace Coherent

variable {m n : Moment} {l : Label} {pl : Place} {p : Page}

/-- Pages may change places, and are registered as before. -/
theorem roster_still (h : Coherent m) (hmove : Move l m n) (hl : l.enrols? = none) :
    n.machine.roster = m.machine.roster := by
  cases hmove with
  | note | turn | take | giveBack | scribble | request | handles | outside | switch | pin | spare
  | attempt | store => rfl
  | mark hs | soil hs | adjust hs | number hs | record hs | unrecord hs =>
    exact Machine.roster_congr (pageAt_insert_of_eq hs rfl)
  | @evict s pl f fr sp p t _ _ hs hp hout =>
    refine Machine.roster_update_self (pageAt_eq hs hp) ?_ (pageAt_put hs _ rfl)
    cases Transfer.evict_eq_ok hout with
    | parked hkind =>
      have hkind : p.kind = .anonymous none := hkind
      unfold Page.resting
      rw [hkind]
    | filed => rfl
  | @seat s pl f fr sp p _ _ hs hp | @unseat s pl f fr sp p _ hs hp =>
    exact Machine.roster_update_self (pageAt_eq hs hp) (Page.resting_seated p)
      (pageAt_put hs _ rfl)
  | create => exact Machine.roster_congr (pageAt_insert_new (h.fresh _ (Nat.le_refl _)))
  | drop hs hempty => exact Machine.roster_congr (pageAt_erase_empty hs hempty)
  | populate | lose | register | remove => cases hl

theorem roster_still_moves {kinds : Label → Prop} (h : Coherent m) (hmoves : Moves kinds m n)
    (hl : ∀ l, kinds l → l.enrols? = none) : n.machine.roster = m.machine.roster :=
  h.keeps hmoves (·.machine.roster) fun hkind hm hmove => hm.roster_still hmove (hl _ hkind)

theorem roster_register (hmove : Move (.register pl p) m n) :
    n.machine.roster = update m.machine.roster pl (some p.resting) := by
  cases hmove with
  | register hs => exact Machine.roster_put rfl (pageAt_put hs _ rfl)

theorem roster_remove (hmove : Move (.remove pl p) m n) :
    n.machine.roster = update m.machine.roster pl none := by
  cases hmove with
  | remove hs => exact Machine.roster_erase (pageAt_erase hs rfl)

/-- A page that was filled keeps its attributes. -/
theorem roster_filled (h : Coherent m) (hmove : Move l m n) (hl : l = .populate pl ∨ l = .lose pl) :
    ∃ p q, m.machine.roster pl = some p.resting ∧ Transfer.SamePage p q ∧
      q.readBytes ≤ p.readBytes ∧ n.machine.roster = update m.machine.roster pl (some q.resting) := by
  rcases hl with rfl | rfl
  · cases hmove with
    | @populate s _ f fr sp p t pool directory hf hs hp habs hfill =>
      have hlen := h.length_frame hf
      rcases Transfer.populate_eq_ok h.swap hlen hfill with ⟨-, ht⟩ | ⟨e, he, -⟩
      · exact ⟨p, t.page, Machine.roster_of_page (pageAt_eq hs hp), (ht.spec h.swap hlen).1,
          ht.readBytes_le, Machine.roster_put (Page.resting_seated t.page) (pageAt_put hs _ rfl)⟩
      · cases he
  · cases hmove with
    | @lose s _ f fr sp p t pool e hf hs hp habs hfill =>
      have hlen := h.length_frame hf
      rcases Transfer.populate_eq_ok h.swap hlen hfill with ⟨-, ht⟩ | ⟨e, he, -⟩
      · exact ⟨p, t.page, Machine.roster_of_page (pageAt_eq hs hp), (ht.spec h.swap hlen).1,
          ht.readBytes_le, Machine.roster_put rfl (pageAt_put hs _ rfl)⟩
      · cases he

theorem roster_elsewhere (h : Coherent m) (hmove : Move l m n) (hl : l.enrols? ≠ some pl) :
    n.machine.roster pl = m.machine.roster pl := by
  have hother : ∀ {other page}, n.machine.roster = update m.machine.roster other page →
      some other ≠ some pl → n.machine.roster pl = m.machine.roster pl := by
    intro other page hn hne
    rw [hn, update_of_ne fun e => hne (congrArg some e.symm)]
  cases l with
  | populate other =>
    obtain ⟨_, _, -, -, -, hn⟩ := h.roster_filled hmove (.inl rfl)
    exact hother hn hl
  | lose other =>
    obtain ⟨_, _, -, -, -, hn⟩ := h.roster_filled hmove (.inr rfl)
    exact hother hn hl
  | register other page => exact hother (roster_register hmove) hl
  | remove other p => exact hother (roster_remove hmove) hl
  | _ => rw [h.roster_still hmove rfl]

theorem roster_elsewhere_moves {kinds : Label → Prop} (h : Coherent m) (hmoves : Moves kinds m n)
    (hl : ∀ l, kinds l → l.enrols? ≠ some pl) : n.machine.roster pl = m.machine.roster pl :=
  h.keeps hmoves (·.machine.roster pl) fun hkind hm hmove =>
    hm.roster_elsewhere hmove (hl _ hkind)

/-- A page that stays, and is not filled, changes only in where it lies. -/
theorem resting_kept {q : Page} (h : Coherent m) (hmove : Move l m n)
    (hfills : ¬ (l = .populate pl ∨ l = .lose pl)) (hp : pageAt m.machine.spaces pl = some p)
    (hq : pageAt n.machine.spaces pl = some q) : q.resting = p.resting := by
  have henrols : l.enrols? ≠ some pl := by
    intro hl
    cases l with
    | populate => exact hfills (.inl (congrArg _ (Option.some.inj hl)))
    | lose => exact hfills (.inr (congrArg _ (Option.some.inj hl)))
    | register =>
      cases hl
      cases hmove with
      | register hs hvacant => cases hp.symm.trans ((pageAt_of_get? hs pl.key).trans hvacant)
    | remove =>
      cases hl
      cases hmove with
      | remove hs =>
        cases hq.symm.trans ((congrFun (pageAt_erase hs rfl) pl).trans (update_self ..))
    | _ => cases hl
  have hroster := h.roster_elsewhere hmove henrols
  rw [Machine.roster_of_page hp, Machine.roster_of_page hq] at hroster
  exact Option.some.inj hroster

end Coherent

/-- Every page wants at most a page of its file. -/
def Machine.Fits (s : Machine) : Prop :=
  ∀ pl p, Pager.pageAt s.spaces pl = some p → p.readBytes ≤ pageSize

/-- A page that is registered wants at most a page of its file. -/
def Label.Fits : Label → Prop
  | register _ page => page.readBytes ≤ pageSize
  | _ => True

theorem Machine.fits_iff {s : Machine} :
    s.Fits ↔ ∀ pl p, s.roster pl = some p → p.readBytes ≤ pageSize := by
  constructor
  · intro h pl p hp
    obtain ⟨q, hq, rfl⟩ := Machine.roster_eq_some_iff.1 hp
    rw [Page.readBytes_resting]
    exact h pl q hq
  · intro h pl p hp
    rw [← Page.readBytes_resting]
    exact h pl p.resting (Machine.roster_of_page hp)

section

variable {m n : Moment} {l : Label} {P : Place → Page → Prop}

/-- What holds of all pages that are registered, and of those that come to be, and does not get
lost when a page is filled. -/
theorem Coherent.roster_all_move (h : Coherent m) (hmove : Move l m n)
    (hfill : ∀ {pl : Place} {p q : Page}, Transfer.SamePage p q → q.readBytes ≤ p.readBytes →
      P pl p.resting → P pl q.resting)
    (hl : ∀ pl page, l = .register pl page → P pl page.resting)
    (hm : ∀ pl p, m.machine.roster pl = some p → P pl p) :
    ∀ pl p, n.machine.roster pl = some p → P pl p := by
  have hupdate : ∀ {other : Place} {page : Option Page},
      n.machine.roster = update m.machine.roster other page → (∀ p, page = some p → P other p) →
        ∀ pl p, n.machine.roster pl = some p → P pl p := by
    intro other page hn hpage pl p hp
    rw [hn, update_apply] at hp
    split at hp
    · rename_i heq
      rw [heq]
      exact hpage p hp
    · exact hm pl p hp
  have hfilled : ∀ {other}, l = .populate other ∨ l = .lose other →
      ∀ pl p, n.machine.roster pl = some p → P pl p := by
    intro other hl
    obtain ⟨p, q, hp, hsame, hle, hn⟩ := h.roster_filled hmove hl
    refine hupdate hn fun r hr => ?_
    cases hr
    exact hfill hsame hle (hm other _ hp)
  cases l with
  | populate pl => exact hfilled (.inl rfl)
  | lose pl => exact hfilled (.inr rfl)
  | register pl page =>
    refine hupdate (roster_register hmove) fun r hr => ?_
    cases hr
    exact hl pl page rfl
  | remove pl p => exact hupdate (roster_remove hmove) fun r hr => by cases hr
  | _ =>
    rw [h.roster_still hmove rfl]
    exact hm

theorem Coherent.fits_move (h : Coherent m) (hmove : Move l m n) (hl : l.Fits)
    (hm : m.machine.Fits) : n.machine.Fits := by
  rw [Machine.fits_iff] at hm ⊢
  refine h.roster_all_move (P := fun _ p => p.readBytes ≤ pageSize) hmove
    (fun _ hle hp => ?_) (fun pl page he => ?_) hm
  · rw [Page.readBytes_resting] at hp ⊢
    exact Nat.le_trans hle hp
  · subst he
    rw [Page.readBytes_resting]
    exact hl

theorem Coherent.fits_moves {kinds : Label → Prop} (h : Coherent m) (hmoves : Moves kinds m n)
    (hl : ∀ l, kinds l → l.Fits) (hm : m.machine.Fits) : n.machine.Fits :=
  h.preserves (P := fun n => n.machine.Fits) hmoves
    (fun hkind ho hfits hmove => ho.fits_move hmove (hl _ hkind) hfits) hm

end

/-- What a space keeps besides its pages and their entries. -/
def Space.books (sp : Space) : Space := { sp with pages := .empty, directory := .empty }

def Machine.books (s : Machine) (id : SpaceId) : Option Space := (s.spaces.get? id).map Space.books

/-- Moves that leave the books of every space alone. -/
def Label.Bookless : Label → Prop
  | adjust _ | number _ | record .. | unrecord .. | create _ | drop _ => False
  | _ => True

section

variable {m n : Moment} {l : Label} {s t : Machine} {id : SpaceId} {sp after : Space}

theorem books_insert (hs : s.spaces.get? id = some sp)
    (ht : t.spaces = s.spaces.insert id after) (hbooks : after.books = sp.books)
    (other : SpaceId) : t.books other = s.books other := by
  unfold Machine.books
  rw [ht, Table.get?_insert]
  split
  · rename_i hother
    rw [hother, hs, Option.map_some, Option.map_some, hbooks]
  · rfl

theorem Move.books_kept (hmove : Move l m n) (hl : l.Bookless) (id : SpaceId) :
    n.machine.books id = m.machine.books id := by
  cases hmove with
  | note | turn | take | giveBack | scribble | request | handles | outside | switch | pin | spare
  | attempt | store => rfl
  | mark hs | soil hs | evict _ _ hs | populate _ hs | lose _ hs | seat _ hs | unseat _ hs
  | register hs | remove hs =>
    refine books_insert hs rfl ?_ id
    rfl
  | adjust | number | record | unrecord | create | drop => cases hl

theorem Moves.books_kept {kinds : Label → Prop} (hmoves : Moves kinds m n)
    (hl : ∀ l, kinds l → l.Bookless) (id : SpaceId) : n.machine.books id = m.machine.books id := by
  refine hmoves.preserves (P := fun n => n.machine.books id = m.machine.books id) ?_ rfl
  intro l o n hkind ho hmove
  rw [hmove.books_kept (hl l hkind), ho]

end

end Pager
