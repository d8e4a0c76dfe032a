import Pager.Proofs.Enrolment
import Pager.Proofs.Vacancy

/-!
An address inside a page acts like the start of the page. Every request about one page rounds its
address down wherever it uses it, so two addresses in one page cannot be told apart; and what is
registered lies at starts of pages only, each page under its own address.
-/
namespace Pager

/-- The requests about the page that their address lies in. -/
def SpaceOp.onePage : SpaceOp → Bool
  | registerAnonymous _ | register .. | lookup | remove | claim | pin | unpin => true
  | _ => false

/-- The same operation, but for where in its page the address lies. -/
inductive Op.Alike : Op → Op → Prop
  | refl (op : Op) : Alike op op
  | inside (id : SpaceId) {x y : Nat} {op : SpaceOp} (hop : op.onePage = true)
      (h : x / pageSize = y / pageSize) : Alike (.onSpace id x op) (.onSpace id y op)

/-- Both ranges of addresses consist of whole pages. -/
theorem AddressKind.admits_congr {x y : Nat} (h : x / pageSize = y / pageSize) :
    AddressKind.virtual.Admits x ↔ AddressKind.virtual.Admits y := by
  unfold Admits
  unfold pageSize at h
  omega

section

variable {a b : VirtualAddress} (h : a.pageBase = b.pageBase)
include h

theorem PageTable.get?_congr (t : PageTable) : t.get? a = t.get? b := by
  rw [get?, get?, h]

theorem PageTable.erase_congr (t : PageTable) : t.erase a = t.erase b := by
  rw [erase, erase, h]

theorem Page.fresh_congr (writable : Bool) (type : PageType) (init : Option Initializer)
    (slice : LoadSlice) :
    fresh a writable type init slice = fresh b writable type init slice := by
  rw [fresh, fresh, h]

/-- The kernel's half starts with a page. -/
theorem Address.isKernel_congr : a.isKernel = b.isKernel := by
  have hvalue := congrArg Address.value h
  rw [pageBase_value, pageBase_value] at hvalue
  unfold isKernel
  rw [decide_eq_decide]
  unfold kernelBase pageSize at *
  omega

theorem requireUser_congr : requireUser a = requireUser b := by
  rw [requireUser, requireUser, h, Address.isKernel_congr h]

theorem Space.lookup_congr (sp : Space) : sp.lookup a = sp.lookup b := by
  rw [lookup, lookup, PageTable.get?_congr h]

namespace Machine

variable (id : SpaceId)

theorem page_congr : page id a = page id b := by
  unfold page
  simp only [PageTable.get?_congr h]

theorem register_congr (writable : Bool) (type : PageType) (init : Option Initializer)
    (slice : LoadSlice) :
    register id a writable type init slice = register id b writable type init slice := by
  unfold register
  rw [requireUser_congr h, Page.fresh_congr h]

theorem remove_congr : remove id a = remove id b := by
  unfold remove
  simp only [page_congr h, PageTable.erase_congr h]

/-- All the rest of a claim, the search for a frame and the filling of it, goes by the start of
the page. -/
theorem claim_congr : claim id a = claim id b := by
  unfold claim
  rw [h]

theorem pin_congr : pin id a = pin id b := by
  unfold pin
  rw [claim_congr h]

theorem unpin_congr : unpin id a = unpin id b := by
  unfold unpin
  simp only [PageTable.get?_congr h]

theorem perform_congr {op : SpaceOp} (hop : op.onePage = true) :
    perform id a op = perform id b op := by
  cases op with
  | registerAnonymous writable =>
    simp only [perform, registerAnonymous, register_congr h]
  | register writable type init slice => simp only [perform, register_congr h]
  | lookup => simp only [perform, Space.lookup_congr h]
  | remove => simp only [perform, remove_congr h]
  | claim => simp only [perform, claim_congr h]
  | pin => simp only [perform, pin_congr h]
  | unpin => simp only [perform, unpin_congr h]
  | _ => cases hop

end Machine

end

/-- Every page is registered under its own address, which is the start of a page that user pages
can lie at, and no two of them share a page. -/
structure PageTable.Orderly (t : PageTable) : Prop where
  keyed : t.Keyed
  aligned : ∀ key ∈ t.pages.keys, key % pageSize = 0
  user : ∀ key ∈ t.pages.keys, pageSize ≤ key ∧ key < kernelBase
  single : t.pages.keys.Pairwise fun x y => x / pageSize ≠ y / pageSize

namespace Machine

variable {s : Machine}

/-- Addresses in one page lead to the same answer and the same machine, or to the same bug. -/
theorem step_congr {op other : Op} (h : op.Alike other) : step op = step other := by
  cases h with
  | refl => rfl
  | @inside id x y op hop h =>
    have hbase : (⟨x⟩ : VirtualAddress).pageBase = (⟨y⟩ : VirtualAddress).pageBase := by
      apply Address.ext
      rw [Address.pageBase_value, Address.pageBase_value, h]
    have hmake : ∀ n, (do
        let a ← Address.make .virtual n
        perform id a op : StepAct Value) = if AddressKind.virtual.Admits n then perform id ⟨n⟩ op
        else Action.bug .notCanonical := by
      intro n
      unfold Address.make
      split <;> rfl
    simp only [step, hmake, AddressKind.admits_congr h, perform_congr hbase id hop]

theorem run_congr {ops others : List Op} (h : List.Forall₂ Op.Alike ops others) :
    run ops s = run others s := by
  induction h generalizing s with
  | nil => rfl
  | cons hfirst _ ih =>
    simp only [run, step_congr hfirst, ih]

theorem Reachable.all_inUser (h : Reachable s) : s.All Page.InUser := by
  refine h.all (fun hsame _ hp => ?_) fun op p hbrings => hbrings.user
  rw [Page.InUser, Page.address_resting, hsame.address]
  exact hp

/-- Keys that are starts of pages lie in different pages. -/
theorem Reachable.orderly_pages (h : Reachable s) {id : SpaceId} {sp : Space}
    (hs : s.spaces.get? id = some sp) : sp.pages.Orderly := by
  have hpage : ∀ {key page}, sp.pages.pages.get? key = some page →
      page.address.value = key ∧ key % pageSize = 0 ∧ pageSize ≤ key ∧ key < kernelBase := by
    intro key page hkey
    have hplace : Pager.pageAt s.spaces ⟨id, key⟩ = some page := (pageAt_of_get? hs key).trans hkey
    obtain ⟨haddress, haligned⟩ := h.coherent.linked.keyed hplace
    have hvalue : page.address.value = key := congrArg Address.value haddress
    have huser : page.resting.InUser := h.all_inUser _ _ (roster_of_page hplace)
    rw [Page.InUser, Page.address_resting, hvalue] at huser
    exact ⟨hvalue, haligned, huser⟩
  have hkeys : ∀ key ∈ sp.pages.pages.keys,
      key % pageSize = 0 ∧ pageSize ≤ key ∧ key < kernelBase := by
    intro key hkey
    obtain ⟨page, hget⟩ := Option.isSome_iff_exists.1 (sp.pages.pages.contains_iff.2 hkey)
    exact (hpage hget).2
  refine ⟨fun key page hkey => (hpage hkey).1, fun key hkey => (hkeys key hkey).1,
    fun key hkey => (hkeys key hkey).2, ?_⟩
  refine sp.pages.pages.sorted_keys.imp_of_mem fun hx hy hlt => ?_
  have hxaligned := (hkeys _ hx).1
  have hyaligned := (hkeys _ hy).1
  unfold pageSize at *
  omega

/-- Two addresses in one page cannot be told apart by what is asked of the page, from any state
on: they lead to the same answer and the same machine. And what is registered in a space lies at
starts of user pages, once in each page and under its own address. -/
theorem Reachable.acts_by_page (h : Reachable s) :
    (∀ id x y op, op.onePage = true → x / pageSize = y / pageSize →
      step (.onSpace id x op) s = step (.onSpace id y op) s) ∧
    ∀ id sp, s.spaces.get? id = some sp → sp.pages.Orderly :=
  ⟨fun id _ _ _ hop hpage => congrFun (step_congr (.inside id hop hpage)) s,
    fun _ _ hs => h.orderly_pages hs⟩

/-- Two pages are registered in the middle, and the first takes the only frame. -/
def offBase : List Op := [.createSpace, .onSpace 1 0x10ABC (.registerAnonymous true),
  .onSpace 1 0x11FFF (.register false .fileBacked none
    { file := some (FileStore.firstHandle 0), readBytes := 3 }),
  .onSpace 1 0x10001 .pin, .onSpace 1 0x10FFF .unpin]

/-- The last byte of the second page claims it as the first does, and takes the frame. -/
theorem acts_by_page_of_offBase : ∃ s sp, Reachable s ∧ s.spaces.get? 1 = some sp ∧
    step (.onSpace 1 0x11FFF .claim) s = step (.onSpace 1 0x11000 .claim) s ∧
    (step (.onSpace 1 0x11FFF .claim) s).map (fun last => (last.1.toBool, last.2.evictions)) =
      .ok (true, 1) ∧
    sp.pages.Orderly ∧ sp.pages.pages.keys = [0x10000, 0x11000] := by
  have hend : (boot 1 64 [[1, 2, 3]] >>= fun start => run offBase start >>= fun last =>
      step (.onSpace 1 0x11FFF .claim) last.2 >>= fun claimed =>
        .ok ((last.2.spaces.get? 1).map (·.pages.pages.keys),
          claimed.1.toBool, claimed.2.evictions)) =
      .ok (some [0x10000, 0x11000], true, 1) := by decide +kernel
  obtain ⟨start, hboot, hend⟩ := except_bind_eq_ok.1 hend
  obtain ⟨⟨results, s⟩, hrun, hend⟩ := except_bind_eq_ok.1 hend
  obtain ⟨claimed, hclaim, hend⟩ := except_bind_eq_ok.1 hend
  obtain ⟨hspace, hclaimed⟩ := Prod.mk.inj (Except.ok.inj hend)
  obtain ⟨sp, hs, hkeys⟩ := Option.map_eq_some_iff.1 hspace
  have hreachable : Reachable s := ⟨1, 64, _, _, start, results, hboot, hrun⟩
  obtain ⟨hacts, horderly⟩ := hreachable.acts_by_page
  refine ⟨s, sp, hreachable, hs, hacts 1 _ _ .claim rfl rfl, ?_, horderly 1 sp hs, hkeys⟩
  rw [hclaim]
  exact congrArg Except.ok hclaimed

end Machine
end Pager
