import Pager.Proofs.Admission
import Pager.Proofs.Snapshot

/-!
What can be said of every page that is registered. A page comes in by a request for it, by one
for a run of pages or as the stack grows, and a copy is like the page that it was made of. So what
holds of the pages that the requests of a run bring in, and is not lost when a page is filled,
holds of all pages in the end.
-/
namespace Pager

/-- The page lies where user pages can: behind the null page and below the kernel's half. -/
def Page.InUser (p : Page) : Prop :=
  pageSize ≤ p.address.value ∧ p.address.value < kernelBase

/-- How many bytes of its file a page may want that the operation registers. -/
def SpaceOp.wants : SpaceOp → Nat
  | register _ _ _ slice => slice.readBytes
  | _ => pageSize

/-- What is known of a page that the operation registers, other than a copy. -/
structure SpaceOp.Brings (op : SpaceOp) (p : Page) : Prop where
  user : p.InUser
  stands : p.Stands
  readBytes_le : p.readBytes ≤ op.wants
  mapped : p.mapping.isSome = true → p.readBytes ≤ pageSize

def Op.Brings : Op → Page → Prop
  | onSpace _ _ op, p => op.Brings p
  | _, _ => False

/-- The operation may register pages. -/
def SpaceOp.registers : SpaceOp → Bool
  | registerAnonymous _ | register .. | registerSegment .. | mmap .. | fault .. | duplicate _ => true
  | _ => false

/-- A page is registered that holds what is told of it, or none is. -/
def Label.Enrols (P : Page → Prop) : Label → Prop
  | register _ page => P page
  | _ => True

theorem Label.Claims.enrols {among : Place → Prop} {P : Page → Prop} {l : Label}
    (h : l.Claims among) : l.Enrols P := by
  cases l <;> trivial

/-- Requests for no page register none. -/
theorem SpaceOp.Makes.enrols {op : SpaceOp} {s : Machine} {id : SpaceId} {a : VirtualAddress}
    {l : Label} (h : op.Makes s id a l) (hop : op.registers = false) : l.Enrols op.Brings := by
  cases l with
  | register =>
    exfalso
    cases op with
    | registerAnonymous | register | registerSegment | mmap | fault | duplicate => cases hop
    | pin | touch =>
      rcases h with h | h
      · cases h
      · cases h
    | remove =>
      obtain ⟨_, h⟩ := h
      cases h
    | _ => cases h
  | _ => trivial

theorem Page.inUser_of_pageBase {p : Page} {a : VirtualAddress} (hp : p.address = a.pageBase)
    (hlow : pageSize ≤ a.value) (hhigh : a.value < kernelBase) : p.InUser := by
  rw [InUser, hp, Address.pageBase_value]
  unfold pageSize at *
  omega

namespace Machine

variable {s t : Machine} {id : SpaceId} {a : VirtualAddress} {op : SpaceOp} {P : Page → Prop}

/-- Something holds of every page that is registered. -/
def All (P : Page → Prop) (s : Machine) : Prop := ∀ pl p, s.roster pl = some p → P p

/-- Pages that are added come one by one. -/
theorem Adds.enrols {pages : List Page} (hadds : Adds id pages s t)
    (hpages : ∀ p ∈ pages, p.Enters ∧ P p) : Moves (Label.Enrols P) ⟨s, none⟩ ⟨t, none⟩ := by
  refine .of_trace (hadds.trace fun p hp => (hpages p hp).1) fun l hl => ?_
  obtain ⟨p, hp, rfl⟩ := List.mem_map.1 hl
  exact (hpages p hp).2

/-- Who gets a page registered has asked for a user page. -/
theorem register_user {writable : Bool} {type : PageType} {init : Option Initializer}
    {slice : LoadSlice} (run : register id a writable type init slice s = .ok (.ok (), t)) :
    pageSize ≤ a.value ∧ a.value < kernelBase := by
  unfold register at run
  rcases Action.ofResult_bind_eq_ok.1 run with ⟨_, huser, -⟩ | ⟨e, -, he, -⟩
  · exact requireUser_eq_ok_iff.1 huser
  · cases he

theorem register_brings {writable : Bool} {type : PageType} {init : Option Initializer}
    {slice : LoadSlice} {r : Except PagerError Unit}
    (run : register id a writable type init slice s = .ok (r, t))
    (hwants : slice.readBytes ≤ op.wants) :
    Moves (Label.Enrols op.Brings) ⟨s, none⟩ ⟨t, none⟩ := by
  rcases register_cases run with ⟨rfl, hadds⟩ | ⟨e, -, rfl⟩
  · obtain ⟨hlow, hhigh⟩ := register_user run
    refine hadds.enrols fun p hp => ?_
    rw [List.mem_singleton.1 hp]
    exact ⟨(Page.isNew_fresh ..).toEnters, Page.inUser_of_pageBase rfl hlow hhigh,
      .of_unstacked rfl, hwants, fun hmapped => by cases hmapped⟩
  · exact .refl

theorem readBytes_part_le (file : Handle) (offset readBytes k : Nat) :
    (LoadSlice.part file offset readBytes k).readBytes ≤ pageSize := Nat.min_le_right ..

theorem registerSegment_brings {file : Handle} {offset readBytes zeroBytes : Nat} {writable : Bool}
    {r : Except PagerError Unit}
    (run : registerSegment id file offset a readBytes zeroBytes writable s = .ok (r, t))
    (hwants : pageSize ≤ op.wants) : Moves (Label.Enrols op.Brings) ⟨s, none⟩ ⟨t, none⟩ := by
  rcases registerSegment_cases run with ⟨rfl, -, -, pages, hpages, hadds⟩ | ⟨e, -, rfl⟩
  · have hspace := hadds
    obtain ⟨sp, _, hs, -⟩ := hspace
    have hloads : Loadable sp a offset readBytes zeroBytes := by
      by_contra hnot
      obtain ⟨e, hrefused⟩ := registerSegment_refuses file writable hs hnot
      rw [hrefused] at run
      cases run
    have hlow := hloads.user
    have hend := hloads.ends
    refine hadds.enrols fun p hp => ?_
    obtain ⟨k, hk, rfl⟩ := (mem_pageRun_iff hpages).1 hp
    refine ⟨(Page.isNew_fresh ..).toEnters, Page.inUser_of_pageBase rfl ?_ ?_,
      .of_unstacked rfl, Nat.le_trans (readBytes_part_le ..) hwants, fun _ => readBytes_part_le ..⟩
    · exact Nat.le_trans hlow (Nat.le_add_right ..)
    · unfold pageSize at *
      show a.value + k * 4096 < kernelBase
      omega
  · exact .refl

theorem mmap_brings {length : Nat} {writable : Bool} {file : Handle} {offset : Nat}
    {r : Except PagerError VirtualAddress}
    (run : mmap id a length writable file offset s = .ok (r, t))
    (hwants : pageSize ≤ op.wants) : Moves (Label.Enrols op.Brings) ⟨s, none⟩ ⟨t, none⟩ := by
  rcases mmap_cases run with ⟨e, -, hfailed⟩ |
    ⟨rfl, sp, pages, _, hs, -, haligned, hend, hpages, -, -, -, htrace⟩
  · refine (moves_of_failed hfailed).mono fun l hl => ?_
    cases l <;> trivial
  · have hmaps : Mappable s sp a length file offset := by
      by_contra hnot
      obtain ⟨e, hrefused⟩ := mmap_refuses writable hs hnot
      rw [hrefused] at run
      cases run
    have hstart := hmaps.aligned
    have hnonnull := hmaps.nonnull
    have hlast := pages_le_kernelBase haligned hend
    refine moves_of_mapping htrace trivial trivial (fun p hp => ?_) trivial trivial
    obtain ⟨k, hk, rfl⟩ := (mem_pageRun_iff hpages).1 hp
    refine ⟨Page.inUser_of_pageBase rfl ?_ ?_, .of_unstacked rfl,
      Nat.le_trans (readBytes_part_le ..) hwants, fun _ => readBytes_part_le ..⟩
    · unfold pageSize at *
      show 4096 ≤ a.value + k * 4096
      omega
    · unfold pageSize at *
      show a.value + k * 4096 < kernelBase
      omega

/-- The page that the stack grows by lies in the stack's region. -/
theorem Grows.enrols {pointer : Option VirtualAddress} (h : Grows s id a pointer t) :
    Moves (Label.Enrols (SpaceOp.Brings op)) ⟨s, none⟩ ⟨t, none⟩ := by
  refine h.adds.enrols fun p hp => ?_
  rw [List.mem_singleton.1 hp]
  obtain ⟨hlow, hhigh⟩ := h.stands rfl
  refine ⟨(Page.isNew_ofStack _).toEnters, ⟨?_, ?_⟩, h.stands, Nat.zero_le _,
    fun _ => Nat.zero_le _⟩
  · unfold userStackTop maxStackSize pageSize at *
    omega
  · unfold userStackTop kernelBase pageSize at *
    omega

/-- Whatever is asked of a space, but for a copy, brings in only pages that are known. -/
theorem perform_brings (h : Coherent ⟨s, none⟩) {r : Except Failure Value}
    (run : perform id a op s = .ok (r, t)) (hop : ∀ refuses, op ≠ .duplicate refuses) :
    Moves (Label.Enrols op.Brings) ⟨s, none⟩ ⟨t, none⟩ := by
  have hmoves := perform_moves h run
  cases op with
  | registerAnonymous writable =>
    obtain ⟨q, hq, -⟩ := liftPager_eq_ok.1 run
    exact register_brings hq (Nat.zero_le _)
  | register writable type init slice =>
    rcases performRegister_cases run with ⟨q, -, hq, -⟩ | ⟨-, rfl⟩
    · exact register_brings hq (Nat.le_refl _)
    · exact .refl
  | registerSegment file offset readBytes zeroBytes writable =>
    rcases held_cases run with ⟨q, hq, -⟩ | ⟨-, rfl⟩
    · exact registerSegment_brings hq (Nat.le_refl _)
    · exact .refl
  | mmap length writable file offset =>
    rcases held_cases run with ⟨q, hq, -⟩ | ⟨-, rfl⟩
    · exact mmap_brings hq (Nat.le_refl _)
    · exact .refl
  | fault write user notPresent stackPointer =>
    obtain ⟨sp, -, hrun⟩ := Action.liftM_bind_eq_ok.1 run
    obtain ⟨q, hq, -⟩ := liftPager_eq_ok.1 hrun
    obtain ⟨u, hgrows, hclaims⟩ := serveFault_moves h hq
    rcases hgrows with rfl | ⟨_, hgrows⟩
    · exact hclaims.mono fun l hl => hl.enrols
    · exact hgrows.enrols.trans (hclaims.mono fun l hl => hl.enrols)
  | duplicate refuses => exact absurd rfl (hop refuses)
  | _ => exact hmoves.mono fun l hl => hl.enrols rfl

/-- What the moves bring in and filling does not lose holds of all pages. -/
theorem All.moves {kinds : Label → Prop} (hall : s.All P) (h : Coherent ⟨s, none⟩)
    (hmoves : Moves kinds ⟨s, none⟩ ⟨t, none⟩)
    (hfill : ∀ {p q : Page}, Transfer.SamePage p q → q.readBytes ≤ p.readBytes →
      P p.resting → P q.resting)
    (hbring : ∀ l, kinds l → l.Enrols fun p => P p.resting) : t.All P :=
  h.preserves (P := fun n => n.machine.All P) hmoves (fun hkind hm hall hmove =>
    hm.roster_all_move (P := fun _ => P) hmove hfill
      (fun pl page he => by
        subst he
        exact hbring _ hkind) hall) hall

/-- On the roster of a copy there is no page but copies of the parent's. -/
theorem duplicate_all {parent : SpaceId} {refuses : Option PagerError}
    {r : Except PagerError SpaceId} (h : Coherent ⟨s, none⟩)
    (run : duplicate parent refuses s = .ok (r, t)) (hall : s.All P) : t.All P := by
  obtain ⟨helsewhere, hchild⟩ := duplicate_roster h run
  intro pl p hp
  by_cases hpl : pl.space = s.nextSpace
  · cases r with
    | ok child =>
      obtain ⟨w, -, ⟨hr, -⟩ | ⟨⟨e, hr⟩, -⟩⟩ := duplicate_moves h run
      · rw [show pl = ⟨s.nextSpace, pl.key⟩ from Place.ext hpl rfl, hchild hr pl.key, anonymousOf,
          Option.filter_eq_some_iff] at hp
        exact hall _ p hp.1
      · cases hr
    | error e =>
      rw [roster_of_none] at hp
      · cases hp
      · rw [Pager.pageAt, hpl, (duplicate_vanished h run).gone, Option.bind_none]
  · rw [helsewhere pl hpl] at hp
    exact hall pl p hp

section

variable (hfill : ∀ {p q : Page}, Transfer.SamePage p q → q.readBytes ≤ p.readBytes →
  P p.resting → P q.resting)

include hfill

theorem perform_all (h : Coherent ⟨s, none⟩) {r : Except Failure Value}
    (run : perform id a op s = .ok (r, t)) (hbring : ∀ p, op.Brings p → P p.resting)
    (hall : s.All P) : t.All P := by
  by_cases hop : ∃ refuses, op = .duplicate refuses
  · obtain ⟨refuses, rfl⟩ := hop
    obtain ⟨q, hq, -⟩ := liftPager_eq_ok.1 run
    exact duplicate_all h hq hall
  · have hmoves := perform_brings h run fun refuses he => hop ⟨refuses, he⟩
    refine hall.moves h hmoves hfill fun l hl => ?_
    cases l with
    | register pl page => exact hbring page hl
    | _ => trivial

theorem step_all (h : Coherent ⟨s, none⟩) {op : Op} {r : Except Failure Value}
    (run : step op s = .ok (r, t)) (hbring : ∀ p, op.Brings p → P p.resting)
    (hall : s.All P) : t.All P := by
  have hmoves := step_moves h run
  cases op with
  | onSpace id address op =>
    rcases onSpace_cases run with ⟨sp, hs, hrun⟩ | ⟨-, rfl⟩
    · exact perform_all hfill h hrun hbring hall
    · exact hall
  | createSpace =>
    refine hall.moves h hmoves hfill ?_
    rintro l (rfl | rfl)
    · trivial
    · trivial
  | unlock id =>
    refine hall.moves h hmoves hfill fun l hl => ?_
    cases l <;> trivial
  | _ =>
    refine hall.moves h hmoves hfill ?_
    rintro l rfl
    trivial

/-- What holds of the pages that a run brings in, and of those that there were, holds of all. -/
theorem run_all (h : Coherent ⟨s, none⟩) {ops : List Op} {results : List (Except Failure Value)}
    (hrun : run ops s = .ok (results, t))
    (hbring : ∀ op ∈ ops, ∀ p, op.Brings p → P p.resting) (hall : s.All P) : t.All P := by
  exact run_keep (P := Machine.All P) h
    (fun op hop {_ _ _} hu hpages hstep => step_all hfill hu hstep (hbring op hop) hpages) hall hrun

end

theorem boot_all {frames sectors : Nat} {files : List Bytes}
    (h : boot frames sectors files = .ok s) : s.All P := by
  intro pl p hp
  rw [roster_of_none (boot_pages h pl)] at hp
  cases hp

theorem Reachable.all (h : Reachable s)
    (hfill : ∀ {p q : Page}, Transfer.SamePage p q → q.readBytes ≤ p.readBytes →
      P p.resting → P q.resting)
    (hbring : ∀ (op : SpaceOp) p, op.Brings p → P p.resting) : s.All P := by
  obtain ⟨frames, sectors, files, ops, start, results, hboot, hrun⟩ := h
  refine run_all hfill (boot_coherent hboot) hrun (fun op _ p hbrings => ?_) (boot_all hboot)
  cases op with
  | onSpace id address op => exact hbring op p hbrings
  | _ => cases hbrings

end Machine
end Pager
