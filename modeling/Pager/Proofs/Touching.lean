import Pager.Proofs.Access
import Pager.Proofs.Duplication
import Pager.Proofs.Ideal

/-!
What the moves of an operation mean for the machine as it looks from outside. As
long as no directory refuses entries, making pages resident does nothing but run
initializers, whatever is moved out for it and whatever fails. What happens to
pages of files is not seen at all.
-/
namespace Pager

namespace Label

/-- Pages among those told are populated, and other pages are moved. -/
def Settles (among : Place → Prop) : Label → Prop
  | populate pl | lose pl => among pl
  | handles | outside | adjust _ => False
  | l => l.place? = none

theorem Claims.settles {l : Label} {among : Place → Prop} (h : l.Claims among) :
    l.Settles among := by
  cases l <;> first | exact h | rfl | cases h

theorem Pins.settles {l : Label} (h : l.Pins) (among : Place → Prop) : l.Settles among := by
  cases l <;> first | rfl | cases h

/-- Nothing but pages of files comes and goes. -/
def Filed : Label → Prop
  | register _ page => page.type = .fileBacked
  | unseat _ p | remove _ p => p.type = .fileBacked
  | l => l.place? = none

end Label

namespace Machine

def ideal (s : Machine) : Ideal := ⟨s.flat, s.files⟩

/-- No directory refuses entries. -/
def Willing (s : Machine) : Prop :=
  ∀ id sp, s.spaces.get? id = some sp → sp.refusesEntries = none

end Machine

section

variable {m n : Moment} {l : Label} {among : Place → Prop} {pl : Place}

theorem Willing.insert {s t : Machine} (h : s.Willing) {id : SpaceId} {sp : Space}
    (ht : t.spaces = s.spaces.insert id sp) (hs : sp.refusesEntries = none) : t.Willing := by
  intro other sp' hget
  rw [ht, Table.get?_insert] at hget
  split at hget
  · cases hget
    exact hs
  · exact h other sp' hget

/-- Nobody but the kernel itself makes a directory refuse. -/
theorem Move.willing (h : m.machine.Willing) (hmove : Move l m n)
    (hl : ∀ refuses, l = .adjust refuses → refuses = none) : n.machine.Willing := by
  cases hmove with
  | note | turn | take | giveBack | scribble | request | handles | outside | switch | pin | spare
  | attempt | store => exact h
  | mark hs | soil hs | evict _ _ hs | populate _ hs | lose _ hs | seat _ hs | unseat _ hs
  | register hs | remove hs | number hs | record hs | unrecord hs =>
    have hwilling := h _ _ hs
    exact Willing.insert h rfl hwilling
  | adjust hs => exact Willing.insert h rfl (hl _ rfl)
  | create => exact Willing.insert h rfl rfl
  | drop hs =>
    intro other sp hget
    dsimp only at hget
    rw [Table.get?_erase] at hget
    split at hget
    · cases hget
    · exact h other sp hget

theorem Machine.Asks.traffic {s : Machine} {files : FileStore} (h : s.Asks files) :
    s.files.Traffic files := by
  cases h with
  | reads hfetches => exact hfetches.traffic
  | writesBack _ _ _ _ _ _ hwrote => exact .of_writeAt hwrote

/-- The files see nothing but requests, unless handles are opened or others work on them. -/
theorem Coherent.traffic (h : Coherent m) (hmove : Move l m n) (hhandles : l ≠ .handles)
    (houtside : l ≠ .outside) : m.machine.files.Traffic n.machine.files := by
  cases hmove with
  | request hasks => exact hasks.traffic
  | handles => exact absurd rfl hhandles
  | outside => exact absurd rfl houtside
  | evict _ _ _ _ hout | spare _ _ _ _ hout =>
    cases Transfer.evict_eq_ok hout with
    | filed _ htraffic => exact htraffic
    | _ => exact .refl
  | populate hf _ _ _ hfill | lose hf _ _ _ hfill =>
    have hlen := h.length_frame hf
    rcases Transfer.populate_eq_ok h.swap hlen hfill with ⟨-, ht⟩ | ⟨e, he, -⟩
    · exact (ht.spec h.swap hlen).2.2.2.2.1.traffic
    · cases he
  | _ => exact .refl

/-- A directory that refuses nothing lets no page down. -/
theorem Move.not_lose (h : m.machine.Willing) (hmove : Move (.lose pl) m n) : False := by
  cases hmove with
  | lose _ hs _ _ _ _ hrefused =>
    rw [h _ _ hs] at hrefused
    cases hrefused

theorem Coherent.touches (h : Coherent m) (hw : m.machine.Willing) (hmove : Move l m n)
    (hl : l.Settles among) : m.machine.ideal.Touches among n.machine.ideal := by
  have hhandles : l ≠ .handles := by
    rintro rfl
    exact hl
  have houtside : l ≠ .outside := by
    rintro rfl
    exact hl
  have htraffic := h.traffic hmove hhandles houtside
  have hsame : n.machine.flat = m.machine.flat →
      m.machine.ideal.Touches among n.machine.ideal := fun hflat =>
    ⟨htraffic, fun pl => by
      show Settles _ _ (m.machine.flat pl) (n.machine.flat pl)
      rw [hflat]
      exact .still, fun pl _ => congrFun hflat pl⟩
  cases l with
  | populate pl =>
    rcases h.flat_populate hmove with hflat | ⟨u, bytes, hu, hfills, hn⟩
    · exact hsame hflat
    · refine ⟨htraffic, fun other => ?_, fun other hother => ?_⟩
      · show Settles _ _ (m.machine.flat other) (n.machine.flat other)
        rw [hn]
        by_cases he : other = pl
        · rw [he, hu, Function.update_self]
          exact .filled .refl hfills htraffic
        · rw [Function.update_of_ne he]
          exact .still
      · show n.machine.flat other = m.machine.flat other
        rw [hn, Function.update_of_ne]
        rintro rfl
        exact hother hl
  | lose pl => exact (Move.not_lose hw hmove).elim
  | handles | outside | adjust => cases hl
  | _ => exact hsame (h.flat_still hmove hl)

theorem Coherent.touches_moves {kinds : Label → Prop} (h : Coherent m) (hw : m.machine.Willing)
    (hmoves : Moves kinds m n) (hl : ∀ l, kinds l → l.Settles among) :
    m.machine.ideal.Touches among n.machine.ideal ∧ n.machine.Willing := by
  refine h.preserves (P := fun n =>
    m.machine.ideal.Touches among n.machine.ideal ∧ n.machine.Willing) hmoves
    (fun hkind hn hm hmove => ?_) ⟨.refl, hw⟩
  have hsettles := hl _ hkind
  refine ⟨hm.1.trans (hn.touches hm.2 hmove hsettles), hmove.willing hm.2 ?_⟩
  rintro refuses rfl
  exact hsettles.elim

/-- Pages of files come and go unseen. -/
theorem Coherent.flat_filed (h : Coherent m) (hmove : Move l m n) (hl : l.Filed) :
    n.machine.flat = m.machine.flat := by
  by_cases hplace : l.place? = none
  · exact h.flat_still hmove hplace
  have hmoved := hmove
  cases hmove with
  | @register s _ pl sp page hs hvacant =>
    have hnone : s.flat pl = none := Machine.flat_of_none ((pageAt_of_get? hs _).trans hvacant)
    rw [Coherent.flat_register hmoved, Machine.cell_of_fileBacked hl]
    exact Function.update_eq_self_iff.2 hnone.symm
  | @unseat s pl f fr sp p hf hs hp hres =>
    have hput := h.frameBytes_put hf { fr with owner := none, pinned := false } rfl
    have hpages := Coherent.pageAt_put (u := { sp with
      pages := ⟨sp.pages.pages.insert pl.key { p with frame := none }⟩
      directory := sp.directory.unmap pl.address }) hs { p with frame := none } rfl
    refine (Machine.flat_update hpages fun other q _ hq => ?_).trans
      (Function.update_eq_self_iff.2 ?_)
    · exact Machine.cell_congr (fun g _ => congrFun hput g) fun _ _ => rfl
    · rw [Machine.flat_of_page (Coherent.pageAt_eq hs hp), Machine.cell_of_fileBacked hl]
      exact Machine.cell_of_fileBacked hl
  | @remove s held pl sp p after swap hs hp habs hrel =>
    have hnone : s.flat pl = none := by
      rw [Machine.flat_of_page (Coherent.pageAt_eq hs hp), Machine.cell_of_fileBacked hl]
    rw [h.flat_remove hmoved]
    exact Function.update_eq_self_iff.2 hnone.symm
  | populate | lose | seat | store => cases hl
  | _ => exact absurd rfl hplace

theorem Coherent.flat_filed_moves {kinds : Label → Prop} (h : Coherent m)
    (hmoves : Moves kinds m n) (hl : ∀ l, kinds l → l.Filed) :
    n.machine.flat = m.machine.flat :=
  h.keeps hmoves (·.machine.flat) fun hkind hm hmove => hm.flat_filed hmove (hl _ hkind)

end

end Pager
