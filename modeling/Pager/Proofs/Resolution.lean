import Mathlib.Data.List.Perm.Subperm
import Pager.Proofs.Ageing
import Pager.Proofs.Agreement
import Pager.Proofs.Enrolment
import Pager.Proofs.Failing
import Pager.Proofs.Requests

/-!
What a fault comes to. If it is resolved, the page is in a frame of its own and
the access may be made; the same fault again would change nothing. An access that
is not a legal one leaves the machine as it was, and a legal one fails only where
its page lacks a frame, its contents or an entry. The stack grows by at most the
page of the access, and stays within its region, also in copies of the space.
-/
namespace Pager

/-- The access itself is at fault. -/
def PagerError.Denies : PagerError → Prop
  | nullAddress | kernelAddress | writeProtected | notMapped | readOnly => True
  | _ => False

/-- Pages that the stack grew by lie in its region. -/
def Machine.StacksStand (s : Machine) : Prop :=
  ∀ pl p, Pager.pageAt s.spaces pl = some p → p.Stands

theorem Machine.stacksStand_iff {s : Machine} :
    s.StacksStand ↔ ∀ pl p, s.roster pl = some p → p.Stands := by
  constructor
  · intro h pl p hp
    obtain ⟨q, hq, rfl⟩ := Machine.roster_eq_some_iff.1 hp
    exact h pl q hq
  · intro h pl p hp
    exact h pl p.resting (Machine.roster_of_page hp)

section

variable {m n : Moment}

/-- Where no page is registered, none is as long as no move registers one. -/
theorem Coherent.absent_moves {kinds : Label → Prop} (h : Coherent m) (hmoves : Moves kinds m n)
    {pl : Place} (hl : ∀ l, kinds l → ∀ page, l ≠ .register pl page)
    (habsent : pageAt m.machine.spaces pl = none) : pageAt n.machine.spaces pl = none := by
  refine h.preserves (P := fun n => pageAt n.machine.spaces pl = none) hmoves
    (fun {l m n} hkind ho hnone hmove => ?_) habsent
  rw [Option.eq_none_iff_forall_ne_some]
  intro q hq
  rcases ho.page_before hmove hq with hregister | ⟨p, hp, -⟩
  · exact hl l hkind q hregister
  · rw [hnone] at hp
    cases hp

/-- A page that stays registered keeps its flags. -/
theorem Coherent.flags_moves {kinds : Label → Prop} (h : Coherent m) (hmoves : Moves kinds m n)
    {pl : Place} (hl : ∀ l, kinds l → ∀ page, l ≠ .register pl page ∧ l ≠ .remove pl page)
    {p : Page} (hp : pageAt m.machine.spaces pl = some p) :
    ∃ q, pageAt n.machine.spaces pl = some q ∧ q.writable = p.writable ∧ q.stack = p.stack := by
  suffices hroster : ∃ q, n.machine.roster pl = some q ∧ q.writable = p.writable ∧
      q.stack = p.stack by
    obtain ⟨_, hrests, hsame⟩ := hroster
    obtain ⟨q, hq, rfl⟩ := Machine.roster_eq_some_iff.1 hrests
    exact ⟨q, hq, hsame⟩
  refine h.preserves (P := fun n => ∃ q, n.machine.roster pl = some q ∧
    q.writable = p.writable ∧ q.stack = p.stack) hmoves
    (fun {l m n} hkind ho ⟨q, hq, hwritable, hstack⟩ hmove => ?_)
    ⟨p.resting, Machine.roster_of_page hp, rfl, rfl⟩
  by_cases hfills : l = .populate pl ∨ l = .lose pl
  · obtain ⟨before, after, hbefore, hsame, -, hafter⟩ := ho.roster_filled hmove hfills
    rw [hq] at hbefore
    cases hbefore
    refine ⟨after.resting, by rw [hafter, Function.update_self], ?_, ?_⟩
    · exact hsame.writable.trans hwritable
    · exact hsame.stack.trans hstack
  · refine ⟨q, ?_, hwritable, hstack⟩
    rw [ho.roster_elsewhere hmove, hq]
    intro henrols
    obtain ⟨hregister, hremove⟩ : (∀ page, l ≠ .register pl page) ∧ ∀ page, l ≠ .remove pl page :=
      ⟨fun page => (hl l hkind page).1, fun page => (hl l hkind page).2⟩
    cases l with
    | populate other =>
      cases henrols
      exact hfills (.inl rfl)
    | lose other =>
      cases henrols
      exact hfills (.inr rfl)
    | register other page =>
      cases henrols
      exact hregister page rfl
    | remove other page =>
      cases henrols
      exact hremove page rfl
    | _ => cases henrols

end

namespace Machine

variable {s t : Machine} {id : SpaceId} {a : VirtualAddress} {p : Page} {f : FrameId}

theorem Reachable.stacksStand (hr : Reachable s) : s.StacksStand := by
  refine stacksStand_iff.2 (hr.all (P := Page.Stands) (fun {p q} hsame _ hp hstack => ?_)
    fun op p hbrings => hbrings.stands)
  rw [Page.address_resting, hsame.address]
  exact hp (hsame.stack.symm.trans hstack)

/-- Every stack lies in its region, which has room for so many pages. -/
structure StacksBounded (s : Machine) : Prop where
  region : ∀ {id a p}, s.page? id a = some p → p.stack = true →
    userStackTop - maxStackSize ≤ p.address.value ∧ p.address.value + pageSize ≤ userStackTop
  count : ∀ {id sp}, s.spaces.get? id = some sp →
    sp.pages.pages.values.countP Page.stack ≤ maxStackSize / pageSize

theorem StacksStand.key (hstands : s.StacksStand) (h : Coherent ⟨s, none⟩) {pl : Place}
    (hp : Pager.pageAt s.spaces pl = some p) (hstack : p.stack = true) :
    userStackTop - maxStackSize ≤ pl.key ∧ pl.key + pageSize ≤ userStackTop := by
  have hregion := hstands pl p hp hstack
  rw [(h.linked.keyed hp).1] at hregion
  exact hregion

/-- The pages of the stack's region, by their addresses. -/
def region : List Nat := (List.range (maxStackSize / pageSize)).map fun k =>
  userStackTop - maxStackSize + k * pageSize

theorem mem_region_iff {key : Nat} : key ∈ region ↔ key % pageSize = 0 ∧
    userStackTop - maxStackSize ≤ key ∧ key + pageSize ≤ userStackTop := by
  simp only [region, List.mem_map, List.mem_range, userStackTop, maxStackSize, pageSize]
  constructor
  · rintro ⟨k, hk, rfl⟩
    omega
  · rintro ⟨haligned, hlow, hhigh⟩
    exact ⟨(key - (0x47480000 - 0x100000)) / 4096, by omega, by omega⟩

/-- Pages lie at different addresses, so that the region holds only so many. -/
theorem StacksStand.count (hstands : s.StacksStand) (h : Coherent ⟨s, none⟩) {sp : Space}
    (hs : s.spaces.get? id = some sp) :
    sp.pages.pages.values.countP Page.stack ≤ maxStackSize / pageSize := by
  let stacked := sp.pages.pages.entries.filter fun entry => entry.2.stack
  have hnodup : (stacked.map (·.1)).Nodup :=
    (List.pairwise_map.2 (sp.pages.pages.sorted.filter _)).imp Nat.ne_of_lt
  have hregion : stacked.map (·.1) ⊆ region := by
    intro key hkey
    obtain ⟨⟨_, p⟩, hstacked, rfl⟩ := List.mem_map.1 hkey
    obtain ⟨hentry, hstack⟩ := List.mem_filter.1 hstacked
    have hp := (pageAt_of_get? hs _).trans ((Table.get?_eq_some_iff _).2 hentry)
    exact mem_region_iff.2 ⟨(h.linked.keyed hp).2, hstands.key h hp hstack⟩
  have hle := (hnodup.subperm hregion).length_le
  rw [Table.values, List.countP_map, List.countP_eq_length_filter]
  rwa [region, List.length_map, List.length_map, List.length_range] at hle

theorem Reachable.stacksBounded (hr : Reachable s) : s.StacksBounded where
  region hp := hr.stacksStand _ _ (pageAt_of_page? hp)
  count := hr.stacksStand.count hr.coherent

/-- The access finds the page in a frame of its own, where the directory leads, and may be made. -/
def Grants (s : Machine) (id : SpaceId) (a : VirtualAddress) (write : Bool) : Prop :=
  ∃ p f fr e, s.page? id a = some p ∧ p.frame = some f ∧ s.frames.get? f = some fr ∧
    fr.owner = some ⟨id, a.pageBase⟩ ∧ s.translate id a.pageBase = some fr.address ∧
    s.entry? id a.pageBase = some e ∧ (write = true → e.flags.has .writable = true)

theorem grants_of_page (h : Coherent ⟨s, none⟩) (hp : Pager.pageAt s.spaces (.of id a) = some p)
    (hf : p.frame = some f) {write : Bool} (hwrite : write = true → p.writable = true) :
    s.Grants id a write := by
  obtain ⟨fr, e, hfr, ho, he, haddress, hwritable⟩ := h.linked.page_frame hp hf
  have hentry : s.entry? id a.pageBase = some e := he
  refine ⟨p, f, fr, e, hp, hf, hfr, ho, ?_, hentry, fun hw => hwritable.trans (hwrite hw)⟩
  rw [translate_eq, hentry]
  exact haddress

theorem Grants.touch {write : Bool} (h : s.Grants id a write) :
    ∃ u, touch id a write s = .ok (.ok true, u) := by
  obtain ⟨-, -, fr, -, -, -, -, -, htranslate, -⟩ := h
  obtain ⟨sp, hs, haddress⟩ := Option.bind_eq_some_iff.1 htranslate
  have hpresent : sp.directory.isPresent a.pageBase = true := by
    rw [Directory.isPresent, haddress]
    rfl
  unfold Machine.touch
  rw [space_bind hs, hpresent]
  cases write <;> exact ⟨_, rfl⟩

/-- A fault on a page that is there and may be accessed is only reported. -/
theorem serveFault_resident {fault : PageFault} (huser : requireUser fault.address = .ok ())
    (hmissing : fault.notPresent = true)
    (hp : Pager.pageAt s.spaces (.of id fault.address) = some p) (hf : p.frame = some f)
    (hpermits : fault.Permits p) :
    serveFault id fault s = .ok (.ok (), { s with
      events := .faultResolved id fault.write fault.address :: s.events }) := by
  obtain ⟨sp, hs, hget⟩ := exists_space_of_pageAt hp
  have hs : s.spaces.get? id = some sp := hs
  have hget : sp.pages.get? fault.address = some p := hget
  have hpage : ∀ a : VirtualAddress, sp.pages.get? a = some p → page id a s = .ok (.ok p, s) := by
    intro a ha
    unfold page
    rw [space_bind hs, ha]
    rfl
  have hregistered : sp.pages.contains fault.address = true := by
    show (sp.pages.get? fault.address).isSome = true
    rw [hget]
    rfl
  have hgrow : ∀ pointer, growStack id fault.address pointer s = .ok (.ok (), s) := by
    intro pointer
    unfold growStack
    rw [space_bind hs, if_pos hregistered]
    rfl
  have hclaim : claim id fault.address s = .ok (.ok f, s) := by
    unfold claim
    rw [Action.bind_of_ok (hpage _ ((PageTable.get?_pageBase ..).trans hget)), hf]
    rfl
  have hmay : (fault.write && !p.writable) = false := by
    cases hwrite : fault.write with
    | false => rfl
    | true => rw [hpermits hwrite]; rfl
  have hresolve : resolve id fault s = .ok (.ok (), s) := by
    unfold resolve
    rw [huser, hmissing, Action.bind_of_ok (Action.ofResult_apply _)]
    dsimp only [Bool.not_true]
    rw [if_neg (by decide), space_bind hs, Action.bind_of_ok (hgrow _),
      Action.bind_of_ok (hpage _ hget), hmay, if_neg (by decide), Action.bind_of_ok hclaim]
    rfl
  unfold serveFault
  rw [Action.attempt_bind_of_ok hresolve]
  rfl

/-- The initializer of the page at a place may fail for this reason. -/
def InitFails (s : Machine) (pl : Place) (e : PagerError) : Prop :=
  ∃ p, Pager.pageAt s.spaces pl = some p ∧ p.Answers e

/-- What a legal access may still lack: a frame for its page, what is to be filled into the frame,
or the entry in the directory. -/
inductive Lacks (s : Machine) (pl : Place) (e : PagerError) : Prop
  | frame {t : Machine} (search : obtainFrame s = .ok (.error e, t))
      (reason : (e = .swapExhausted ∨ e = .outOfMemory) ∨ ∃ cause, e = .store cause)
  | contents {p : Page} (page : Pager.pageAt s.spaces pl = some p)
      (attempt : s.Attempts pl (.error e)) (reason : p.Fails e)
  | entry (declines : s.Declines pl e)

/-- A claim of a page that is registered does not find fault with it. -/
theorem Claimed.lacks {pl : Place} {e : PagerError} (hclaim : Claimed s pl (.error e) t)
    (h : Coherent ⟨s, none⟩) (hp : Pager.pageAt s.spaces pl = some p) : s.Lacks pl e := by
  cases hclaim with
  | unregistered hnone => cases hnone.symm.trans hp
  | frameless _ _ hsearch => exact .frame hsearch (obtainFrame_error h hsearch)
  | abandoned hp habs hsearch hf hfailed hreason =>
    rw [← frameBytes_of_get? hf] at hfailed
    exact .contents hp ⟨_, _, _, _, hsearch, hp, habs, hfailed⟩ hreason
  | refused hp habs hsearch hs hrefuses _ hlost =>
    obtain ⟨m, hlost⟩ := hlost
    exact .entry (declines_of_lose h hp habs hsearch hs hrefuses hlost)

/-- What denies an access is never a frame or a device. -/
theorem Lacks.of_denies {pl : Place} {e : PagerError} (h : s.Lacks pl e) (hdenies : e.Denies) :
    s.InitFails pl e ∨ s.Declines pl e := by
  cases h with
  | frame _ hreason => rcases hreason with (rfl | rfl) | ⟨cause, rfl⟩ <;> exact hdenies.elim
  | contents hp _ hreason =>
    rcases hreason with hanswers | rfl | ⟨cause, rfl⟩
    · exact .inl ⟨_, hp, hanswers⟩
    · exact hdenies.elim
    · exact hdenies.elim
  | entry hdeclines => exact .inr hdeclines

theorem Grows.not_initFails {pointer : Option VirtualAddress} (h : Grows s id a pointer t)
    {e : PagerError} : ¬ t.InitFails (.of id a) e := by
  rintro ⟨p, hp, page, fill, bytes, hkind, hinit, -⟩
  rw [h.page] at hp
  cases hp
  cases hkind
  cases hinit

theorem Grows.mayGrow {fault : PageFault} {sp : Space} (hs : s.spaces.get? id = some sp)
    (h : Grows s id fault.address (fault.pointer sp) t) : s.MayGrow id fault := by
  obtain ⟨pointer, hpointer, hgrows⟩ := h.near
  exact ⟨sp, pointer, hs, hpointer, growsStack_iff.1 hgrows⟩

namespace Readies

variable {fault : PageFault} {pl : Place}

/-- The page of a legal access is claimed, and no other. -/
theorem legal (h : Readies s id fault t) (huser : requireUser fault.address = .ok ())
    (hmissing : fault.notPresent = true) : s.Legal id fault := by
  refine ⟨huser, hmissing, ?_⟩
  cases h with
  | registered _ hp hpermits => exact .inl ⟨_, hp, hpermits⟩
  | grown _ hs hgrows => exact .inr ⟨hgrows.absent, hgrows.mayGrow hs⟩

/-- A page that the stack grew by has no initializer of its own. -/
theorem initFails {e : PagerError} (h : Readies s id fault t)
    (hfails : t.InitFails (.of id fault.address) e) : s.InitFails (.of id fault.address) e := by
  cases h with
  | registered => exact hfails
  | grown _ _ hgrows => exact absurd hfails hgrows.not_initFails

/-- No page is registered but the one that the stack grows by. -/
theorem added (h : Readies s id fault t) (hnone : Pager.pageAt s.spaces pl = none)
    (hp : Pager.pageAt t.spaces pl = some p) :
    pl = .of id fault.address ∧ p.stack = true ∧ s.MayGrow id fault := by
  cases h with
  | registered => cases hnone.symm.trans hp
  | grown _ hs hgrows =>
    have hp : Pager.pageAt _ pl = some p := hp
    rw [hgrows.pageAt_eq, Function.update_apply] at hp
    split at hp
    · rename_i hpl
      cases hp
      exact ⟨hpl, rfl, hgrows.mayGrow hs⟩
    · cases hnone.symm.trans hp

theorem kept (h : Readies s id fault t) (hp : Pager.pageAt s.spaces pl = some p) :
    Pager.pageAt t.spaces pl = some p := by
  cases h with
  | registered => exact hp
  | grown _ _ hgrows =>
    show Pager.pageAt _ pl = some p
    rw [hgrows.pageAt_eq, Function.update_of_ne ?_, hp]
    rintro rfl
    cases hgrows.absent.symm.trans hp

end Readies

/-- What a fault comes to, between a machine and the machine after it: a legal access is granted,
unless something is lacking for the page, and one that is not legal is denied. -/
structure ServesFault (s : Machine) (id : SpaceId) (fault : PageFault) (r : Except PagerError Unit)
    (t : Machine) : Prop where
  legal : r = .ok () → s.Legal id fault
  granted : r = .ok () → t.Grants id fault.address fault.write ∧
    (∃ u, touch id fault.address fault.write t = .ok (.ok true, u)) ∧
    serveFault id fault t = .ok (.ok (), { t with
      events := .faultResolved id fault.write fault.address :: t.events })
  lacking : s.Legal id fault → ∀ e, r = .error e →
    ∃ u, Readies s id fault u ∧ u.Lacks (.of id fault.address) e
  forbidden : ¬ s.Legal id fault →
    ∃ e, r = .error e ∧ s.Forbids id fault e ∧ ∃ events, t = { s with events }
  denied : ∀ e, r = .error e → e.Denies → ¬ s.InitFails (.of id fault.address) e →
    (∃ events, t = { s with events }) ∨
      ∃ u, Readies s id fault u ∧ u.Declines (.of id fault.address) e
  added : ∀ pl p, Pager.pageAt s.spaces pl = none → Pager.pageAt t.spaces pl = some p →
    pl = .of id fault.address ∧ p.stack = true ∧ s.MayGrow id fault
  kept : ∀ pl p, Pager.pageAt s.spaces pl = some p → ∃ q, Pager.pageAt t.spaces pl = some q ∧
    q.writable = p.writable ∧ q.stack = p.stack

/-- A claim neither registers a page nor takes one away, and flags stay as they are. -/
theorem claim_registered (h : Coherent ⟨s, none⟩) {r : Except PagerError FrameId}
    (run : claim id a s = .ok (r, t)) (pl : Place) :
    (∀ {p}, Pager.pageAt s.spaces pl = some p → ∃ q, Pager.pageAt t.spaces pl = some q ∧
        q.writable = p.writable ∧ q.stack = p.stack) ∧
      (Pager.pageAt s.spaces pl = none → Pager.pageAt t.spaces pl = none) := by
  have hmoves := (claim_moves h run).1
  have hkinds : ∀ l : Label, l.Claims (· = .of id a) → ∀ page,
      l ≠ .register pl page ∧ l ≠ .remove pl page := by
    intro l hl page
    constructor <;> rintro rfl <;> exact hl
  exact ⟨fun {p} hp => h.flags_moves hmoves hkinds hp,
    h.absent_moves hmoves fun l hl page => (hkinds l hl page).1⟩

/-- What is claimed for a legal access can be accessed. -/
theorem Readies.granted {fault : PageFault} {u : Machine} (hready : Readies s id fault u)
    (h : Coherent ⟨s, none⟩) (huser : requireUser fault.address = .ok ())
    (hmissing : fault.notPresent = true) (hclaim : claim id fault.address u = .ok (.ok f, t))
    (reports : List Event) :
    ({ t with events := reports } : Machine).Grants id fault.address fault.write ∧
      serveFault id fault { t with events := reports } = .ok (.ok (), { t with
        events := .faultResolved id fault.write fault.address :: reports }) := by
  have hu := hready.coherent h
  obtain ⟨hmoves, hseated⟩ := claim_moves hu hclaim
  have ht : Coherent ⟨{ t with events := reports }, none⟩ := (hu.moves hmoves).move (.note ..)
  obtain ⟨p, hp, hpermits⟩ := hready.page
  obtain ⟨q, hq, hf⟩ := hseated f rfl
  obtain ⟨q', hq', hwritable, -⟩ := (claim_registered hu hclaim _).1 hp
  cases hq.symm.trans hq'
  have hpermits : fault.Permits q := fun hwrite => hwritable.trans (hpermits hwrite)
  exact ⟨grants_of_page ht hq hf hpermits, serveFault_resident huser hmissing hq hf hpermits⟩

theorem Resolved.serves {fault : PageFault} {r : Except PagerError Unit}
    (hresolved : Resolved s id fault r t) (h : Coherent ⟨s, none⟩) (reports : List Event) :
    s.ServesFault id fault r { t with events := reports } := by
  cases hresolved with
  | @refused e events hforbids =>
    refine ⟨nofun, nofun, fun hlegal => absurd hlegal hforbids.not_legal,
      fun _ => ⟨e, rfl, hforbids, reports, rfl⟩, fun _ _ _ _ => .inl ⟨reports, rfl⟩,
      fun pl p hnone hp => ?_, fun pl p hp => ⟨p, hp, rfl, rfl⟩⟩
    cases hnone.symm.trans (show Pager.pageAt s.spaces pl = some p from hp)
  | @claimed u t q huser hmissing hready hclaim =>
    have hu := hready.coherent h
    have hlegal := hready.legal huser hmissing
    have hlacks : ∀ e, q.map (fun _ => ()) = .error e → u.Lacks (.of id fault.address) e := by
      intro e hr
      obtain ⟨p, hp, -⟩ := hready.page
      cases q with
      | ok f => cases hr
      | error e' =>
        cases hr
        exact (claim_cases hu hclaim).lacks hu hp
    exact {
      legal := fun _ => hlegal
      granted := fun hr => by
        cases q with
        | error e => cases hr
        | ok f =>
          obtain ⟨hgrants, hagain⟩ := hready.granted h huser hmissing hclaim reports
          exact ⟨hgrants, hgrants.touch, hagain⟩
      lacking := fun _ e hr => ⟨u, hready, hlacks e hr⟩
      forbidden := fun hnot => absurd hlegal hnot
      denied := fun e hr hdenies hanswers => by
        rcases (hlacks e hr).of_denies hdenies with hfails | hdeclines
        · exact absurd (hready.initFails hfails) hanswers
        · exact .inr ⟨u, hready, hdeclines⟩
      added := fun pl p hnone hp => by
        obtain ⟨hflags, habsent⟩ := claim_registered hu hclaim pl
        have hp : Pager.pageAt t.spaces pl = some p := hp
        cases hbefore : Pager.pageAt u.spaces pl with
        | none => cases (habsent hbefore).symm.trans hp
        | some q =>
          obtain ⟨hpl, hstack, hgrows⟩ := hready.added hnone hbefore
          obtain ⟨p', hp', -, hsame⟩ := hflags hbefore
          cases hp.symm.trans hp'
          exact ⟨hpl, hsame.trans hstack, hgrows⟩
      kept := fun pl p hp => (claim_registered hu hclaim pl).1 (hready.kept hp) }

/-- A fault is resolved exactly as far as the access is legal, but for what may be lacking, and no
stack leaves its region. Only a page that wants more of its file than fits on it keeps a fault
from being answered. -/
theorem Reachable.faults_served (hr : Reachable s) : s.StacksBounded ∧
    (∀ {id fault r t}, serveFault id fault s = .ok (r, t) → s.ServesFault id fault r t) ∧
    ∀ {id sp fault}, s.spaces.get? id = some sp →
      (∃ r t, serveFault id fault s = .ok (r, t)) ∨
        serveFault id fault s = .error .bounds ∧ ¬ s.Fits := by
  refine ⟨hr.stacksBounded, fun {id fault r t} run => ?_, fun {id sp fault} hs => ?_⟩
  · obtain ⟨u, events, hresolved, rfl⟩ := serveFault_cases run
    exact hresolved.serves hr.coherent events
  · cases run : serveFault id fault s with
    | ok out => exact .inl ⟨_, _, rfl⟩
    | error b =>
      have hover := serveFault_eq_bug hr.coherent hs run
      obtain rfl : b = .bounds := hover.1
      exact .inr ⟨rfl, hover.not_fits hr.coherent fun l hl => hl.2⟩

/-- A space whose stack pointer was saved at the second page of the stack. -/
def entering : List Op := [.createSpace, .onSpace 1 0x4747f000 .setStackPointer]

/-- The only frame is then taken by the page at the stack pointer, for good. -/
def pinningDown : List Op := entering ++
  [.onSpace 1 0x4747f000 (.fault true false true 0), .onSpace 1 0x4747f000 .pin]

/-- The kernel stores to a page of the stack that is missing. -/
def pushAt (address : Nat) : PageFault := ⟨⟨address⟩, true, false, true, ⟨0⟩⟩

set_option synthInstance.maxSize 1024 in
/-- The kernel pushes below the saved stack pointer, and the stack grows; an access a page further
down is refused. Where the only frame is pinned the first access is legal too, but there is no
frame for it. -/
theorem faults_served_of_entering : ∃ s t u v w x, Reachable s ∧ s.StacksBounded ∧
    serveFault 1 (pushAt 0x4747eff8) s = .ok (.ok (), t) ∧ s.Legal 1 (pushAt 0x4747eff8) ∧
    t.Grants 1 ⟨0x4747eff8⟩ true ∧ s.page? 1 ⟨0x4747eff8⟩ = none ∧
    (t.page? 1 ⟨0x4747eff8⟩).map Page.stack = some true ∧
    serveFault 1 (pushAt 0x4747dff8) s = .ok (.error .notMapped, u) ∧
    ¬ s.Legal 1 (pushAt 0x4747dff8) ∧ (∃ events, u = { s with events }) ∧
    Reachable v ∧ serveFault 1 (pushAt 0x4747eff8) v = .ok (.error .outOfMemory, w) ∧
    v.Legal 1 (pushAt 0x4747eff8) ∧ Readies v 1 (pushAt 0x4747eff8) x ∧
    x.Lacks (.of 1 ⟨0x4747eff8⟩) .outOfMemory := by
  have hend : (boot 1 8 [] >>= fun start => run entering start >>= fun last =>
      serveFault 1 (pushAt 0x4747eff8) last.2 >>= fun pushed =>
      serveFault 1 (pushAt 0x4747dff8) last.2 >>= fun refused =>
      run pinningDown start >>= fun full =>
      serveFault 1 (pushAt 0x4747eff8) full.2 >>= fun failed =>
      .ok (pushed.1, refused.1, failed.1, (last.2.page? 1 ⟨0x4747eff8⟩).isNone,
        (last.2.page? 1 ⟨0x4747dff8⟩).isNone, (last.2.spaces.get? 1).bind Space.stackPointer,
        (pushed.2.page? 1 ⟨0x4747eff8⟩).map Page.stack)) =
      .ok (.ok (), .error .notMapped, .error .outOfMemory, true, true, some ⟨0x4747f000⟩,
        some true) := by decide +kernel
  obtain ⟨start, hboot, hend⟩ := except_bind_eq_ok.1 hend
  obtain ⟨⟨results, s⟩, hrun, hend⟩ := except_bind_eq_ok.1 hend
  obtain ⟨⟨q, t⟩, hpush, hend⟩ := except_bind_eq_ok.1 hend
  obtain ⟨⟨q', u⟩, hrefuse, hend⟩ := except_bind_eq_ok.1 hend
  obtain ⟨⟨results', v⟩, hpinned, hend⟩ := except_bind_eq_ok.1 hend
  obtain ⟨⟨q'', w⟩, hfail, hend⟩ := except_bind_eq_ok.1 hend
  obtain ⟨hq, hrest⟩ := Prod.mk.inj (Except.ok.inj hend)
  obtain ⟨hq', hrest⟩ := Prod.mk.inj hrest
  obtain ⟨hq'', hrest⟩ := Prod.mk.inj hrest
  obtain ⟨hnew, hrest⟩ := Prod.mk.inj hrest
  obtain ⟨hnone, hrest⟩ := Prod.mk.inj hrest
  obtain ⟨hpointer, hstack⟩ := Prod.mk.inj hrest
  obtain rfl : q = .ok () := hq
  obtain rfl : q' = .error .notMapped := hq'
  obtain rfl : q'' = .error .outOfMemory := hq''
  have hr : Reachable s := ⟨1, 8, [], entering, start, results, hboot, hrun⟩
  have hr' : Reachable v := ⟨1, 8, [], pinningDown, start, results', hboot, hpinned⟩
  obtain ⟨hbounded, hserves, -⟩ := hr.faults_served
  -- the access further down is out of the stack pointer's reach
  have hfar : ¬ s.Legal 1 (pushAt 0x4747dff8) := by
    rintro ⟨-, -, ⟨p, hp, -⟩ | ⟨-, sp, pointer, hs, hsaved, -, -, hnear⟩⟩
    · have hp : s.page? 1 ⟨0x4747dff8⟩ = some p := hp
      rw [Option.isNone_iff_eq_none.1 hnone] at hp
      cases hp
    · have hsaved : sp.stackPointer = some pointer := hsaved
      have hpointer : (s.spaces.get? 1).bind Space.stackPointer = some ⟨0x4747f000⟩ := hpointer
      rw [hs, Option.bind_some, hsaved] at hpointer
      cases hpointer
      exact absurd hnear (by decide)
  obtain ⟨-, -, -, hkept⟩ := (hserves hrefuse).forbidden hfar
  -- no rule is broken by an access that ends for want of a frame
  obtain ⟨-, hserves', -⟩ := hr'.faults_served
  have hlegal : v.Legal 1 (pushAt 0x4747eff8) := by
    by_contra hnot
    obtain ⟨e, he, hforbids, -⟩ := (hserves' hfail).forbidden hnot
    cases he
    cases hforbids
  obtain ⟨x, hready, hlacks⟩ := (hserves' hfail).lacking hlegal _ rfl
  exact ⟨s, t, u, v, w, x, hr, hbounded, hpush, (hserves hpush).legal rfl,
    ((hserves hpush).granted rfl).1, Option.isNone_iff_eq_none.1 hnew, hstack, hrefuse, hfar, hkept,
    hr', hfail, hlegal, hready, hlacks⟩

end Machine
end Pager
