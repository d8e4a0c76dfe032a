import Pager.Machine.Operation
import Pager.Proofs.Paging
import Pager.Proofs.Registration

/-!
What processes ask of pages that are registered: copies, pins and faults. Each of
them makes pages resident one at a time and then works on the frame of the page
at hand. A copy into user memory stores in one frame between two claims.
-/
namespace Pager

namespace Label

/-- A page is pinned or unpinned. -/
def Pins : Label → Prop
  | pin => True
  | _ => False

/-- Pages of one space are made resident and stored to. -/
def Copies (id : SpaceId) : Label → Prop
  | soil pl | store pl _ _ => pl.space = id
  | l => l.Claims (·.space = id)

theorem Claims.copies {l : Label} {id : SpaceId} (h : l.Claims (·.space = id)) : l.Copies id := by
  cases l <;> first | exact h | cases h

end Label

namespace PageFault

/-- The page of an access may be written to if the access is a write. -/
def Permits (fault : PageFault) (p : Page) : Prop := fault.write = true → p.writable = true

/-- The stack pointer that counts for a fault in a space: the one in the trap frame, or for faults
from the kernel the one that was saved. -/
def pointer (fault : PageFault) (sp : Space) : Option VirtualAddress :=
  if fault.user then some fault.stackPointer else sp.stackPointer

end PageFault

namespace Machine

variable {s t : Machine} {id : SpaceId} {a : VirtualAddress} {sp : Space} {pl : Place} {p : Page}

/-- Some tracked frame backs the page at a place. -/
def Backs (s : Machine) (fr : Frame) (pl : Place) : Prop :=
  ∃ f, s.frames.get? f = some fr ∧ fr.owner = some pl.owner

theorem Backs.of_page {held : Option FrameId} (h : Coherent ⟨s, held⟩) {f : FrameId}
    (hp : Pager.pageAt s.spaces pl = some p) (hf : p.frame = some f) :
    ∃ fr, s.frames.get? f = some fr ∧ fr.owner = some pl.owner := by
  obtain ⟨fr, -, hfr, ho, -⟩ := h.linked.page_frame hp hf
  exact ⟨fr, hfr, ho⟩

/-- Pinning claims the page and then marks its frame. -/
theorem pin_cases {r : Except PagerError Unit} (run : pin id a s = .ok (r, t)) :
    (∃ e, r = .error e ∧ claim id a s = .ok (.error e, t)) ∨
      r = .ok () ∧ ∃ f u fr, claim id a s = .ok (.ok f, u) ∧ u.frames.get? f = some fr ∧
        t = { u with frames := u.frames.put f { fr with pinned := true } } := by
  unfold pin at run
  rcases Action.bind_eq_ok.1 run with ⟨f, u, hclaim, run⟩ | ⟨e, hclaim, rfl⟩
  · obtain ⟨_, frames, hbody, rfl, rfl⟩ := onFrames_eq_ok.1 run
    obtain ⟨frames', hset, hframes⟩ := except_bind_eq_ok.1 hbody
    cases hframes
    obtain ⟨fr, hf, rfl⟩ := FrameTable.setPinned_eq_ok.1 hset
    exact .inr ⟨rfl, f, u, fr, hclaim, hf, rfl⟩
  · exact .inl ⟨e, rfl, hclaim⟩

/-- Unpinning a page that is not resident does nothing. -/
theorem unpin_cases {r : Except PagerError Unit} (run : unpin id a s = .ok (r, t)) :
    t = s ∨ ∃ p f fr, Pager.pageAt s.spaces (.of id a) = some p ∧ p.frame = some f ∧
      s.frames.get? f = some fr ∧
      t = { s with frames := s.frames.put f { fr with pinned := false } } := by
  unfold unpin at run
  obtain ⟨sp, hs, run⟩ := space_bind_eq_ok.1 run
  cases hframe : (sp.pages.get? a).bind Page.frame with
  | none =>
    rw [hframe] at run
    cases run
    exact .inl rfl
  | some f =>
    rw [hframe] at run
    obtain ⟨p, hp, hf⟩ := Option.bind_eq_some_iff.1 hframe
    obtain ⟨_, frames, hbody, -, rfl⟩ := onFrames_eq_ok.1 run
    obtain ⟨frames', hset, hframes⟩ := except_bind_eq_ok.1 hbody
    cases hframes
    obtain ⟨fr, hfr, rfl⟩ := FrameTable.setPinned_eq_ok.1 hset
    exact .inr ⟨p, f, fr, (pageAt_of_get? hs _).trans hp, hf, hfr, rfl⟩

theorem pin_moves (h : Coherent ⟨s, none⟩) {r : Except PagerError Unit}
    (run : pin id a s = .ok (r, t)) :
    Moves (fun l => l.Claims (· = .of id a) ∨ l.Pins) ⟨s, none⟩ ⟨t, none⟩ := by
  rcases pin_cases run with ⟨e, -, hclaim⟩ | ⟨-, f, u, fr, hclaim, hf, rfl⟩
  · exact (claim_moves h hclaim).1.mono fun l hl => .inl hl
  · have hmoves := (claim_moves h hclaim).1.mono fun l hl =>
      (Or.inl hl : l.Claims (· = .of id a) ∨ l.Pins)
    exact hmoves.tail (.pin hf true) (.inr trivial)

theorem unpin_moves {r : Except PagerError Unit} (run : unpin id a s = .ok (r, t)) :
    Moves Label.Pins ⟨s, none⟩ ⟨t, none⟩ := by
  rcases unpin_cases run with rfl | ⟨p, f, fr, -, -, hf, rfl⟩
  · exact .refl
  · exact .single (.pin hf false) trivial

/-- What is read are the bytes that the page's frame holds in the end. -/
theorem readPiece_cases (h : Coherent ⟨s, none⟩) {count : Nat} {r : Except PagerError Bytes}
    (run : readPiece id a count s = .ok (r, t)) :
    (∃ e, r = .error e ∧ claim id a s = .ok (.error e, t)) ∨
      ∃ f u fr, claim id a s = .ok (.ok f, u) ∧ Move .mark ⟨u, none⟩ ⟨t, none⟩ ∧
        t.Backs fr (.of id a) ∧
        r = .ok ((t.pool.bytesAt fr.address).slice a.pageOffset count) := by
  unfold readPiece at run
  rcases Action.bind_eq_ok.1 run with ⟨f, u, hclaim, run⟩ | ⟨e, hclaim, rfl⟩
  · obtain ⟨hmoves, hpage⟩ := claim_moves h hclaim
    obtain ⟨p, hp, hf⟩ := hpage f rfl
    obtain ⟨fr, hfr, ho⟩ := Backs.of_page (h.moves hmoves) hp hf
    obtain ⟨sp, hs, -⟩ := exists_space_of_pageAt hp
    have hs : u.spaces.get? id = some sp := hs
    obtain ⟨fr', hfr', run⟩ := addressOfFrame_bind_eq_ok.1 run
    rw [hfr] at hfr'
    cases hfr'
    obtain ⟨bytes, hread, run⟩ := readFrame_bind_eq_ok.1 run
    obtain ⟨-, -, rfl⟩ := FramePool.read_eq_ok.1 hread
    by_cases hbounds : pageSize < a.pageOffset + count
    · rw [if_pos hbounds, Action.bug_bind] at run
      cases run
    rw [if_neg hbounds] at run
    dsimp only at run
    rw [modifyDirectory, modifySpace_bind, Table.modify_eq_insert hs] at run
    cases run
    have hmark : Move .mark ⟨u, none⟩ _ :=
      .mark hs a.pageBase .accessed true (by decide) (by decide) (by decide)
    exact .inr ⟨f, u, fr, hclaim, hmark, ⟨f, hfr, ho⟩, rfl⟩
  · exact .inl ⟨e, rfl, hclaim⟩

theorem readPiece_moves (h : Coherent ⟨s, none⟩) {count : Nat} {r : Except PagerError Bytes}
    (run : readPiece id a count s = .ok (r, t)) :
    Moves (Label.Claims (· = .of id a)) ⟨s, none⟩ ⟨t, none⟩ ∧
      ∀ bytes, r = .ok bytes → ∃ fr, t.Backs fr (.of id a) ∧
        bytes = (t.pool.bytesAt fr.address).slice a.pageOffset count := by
  rcases readPiece_cases h run with ⟨e, rfl, hclaim⟩ | ⟨f, u, fr, hclaim, hmark, hbacks, rfl⟩
  · exact ⟨(claim_moves h hclaim).1, fun bytes hbytes => by cases hbytes⟩
  · refine ⟨(claim_moves h hclaim).1.tail hmark trivial, fun bytes hbytes => ?_⟩
    exact ⟨fr, hbacks, (Except.ok.inj hbytes).symm⟩

/-- The page is marked as stored to and the bytes go into its frame, or it could not be made
resident. -/
theorem writePiece_cases (h : Coherent ⟨s, none⟩) {bytes : Bytes} {r : Except PagerError Unit}
    (run : writePiece id a bytes s = .ok (r, t)) :
    (∃ e, r = .error e ∧ (t = s ∨ claim id a s = .ok (.error e, t))) ∨
      r = .ok () ∧ ∃ f u v w, claim id a s = .ok (.ok f, u) ∧
        Move .mark ⟨u, none⟩ ⟨v, none⟩ ∧ Move (.soil (.of id a)) ⟨v, none⟩ ⟨w, none⟩ ∧
        Move (.store (.of id a) a.pageOffset bytes) ⟨w, none⟩ ⟨t, none⟩ := by
  unfold writePiece at run
  obtain ⟨sp, hs, ⟨p, hp, run⟩ | ⟨-, rfl, rfl⟩⟩ := page_bind_eq_ok.1 run
  · by_cases hwritable : (!p.writable) = true
    · rw [if_pos hwritable] at run
      cases run
      exact .inl ⟨_, rfl, .inl rfl⟩
    · rw [if_neg hwritable] at run
      rcases Action.bind_eq_ok.1 run with ⟨f, u, hclaim, run⟩ | ⟨e, hclaim, rfl⟩
      · obtain ⟨hmoves, hpage⟩ := claim_moves h hclaim
        obtain ⟨p, hp, hf⟩ := hpage f rfl
        obtain ⟨fr, hfr, ho⟩ := Backs.of_page (h.moves hmoves) hp hf
        obtain ⟨sp, hs, -⟩ := exists_space_of_pageAt hp
        have hs : u.spaces.get? id = some sp := hs
        obtain ⟨fr', hfr', run⟩ := addressOfFrame_bind_eq_ok.1 run
        rw [hfr] at hfr'
        cases hfr'
        by_cases hbounds : pageSize < a.pageOffset + bytes.length
        · rw [if_pos hbounds, Action.bug_bind] at run
          cases run
        rw [if_neg hbounds] at run
        rcases Action.bind_eq_ok.1 run with ⟨_, v, hwrite, run⟩ | ⟨e, hwrite, -⟩
        · obtain ⟨pool, hpool, -, rfl⟩ := writeFrame_eq_ok.1 hwrite
          rw [modifyDirectory, modifySpace_apply, Table.modify_eq_insert hs] at run
          cases run
          -- the program stores before it marks, which comes to the same
          have haccessed : Move .mark ⟨u, none⟩ _ :=
            .mark hs a.pageBase .accessed true (by decide) (by decide) (by decide)
          have hdirty : Move (.soil (.of id a)) ⟨{ u with
              spaces := u.spaces.insert id { sp with
                directory := sp.directory.set a.pageBase .accessed true } }, none⟩ _ :=
            .soil (Table.get?_insert_self ..)
          simp only [Place.of, Table.insert_insert] at hdirty
          exact .inr ⟨rfl, f, u, _, _, hclaim, haccessed, hdirty, .store hfr ho hpool⟩
        · obtain ⟨pool, -, hr, -⟩ := writeFrame_eq_ok.1 hwrite
          cases hr
      · exact .inl ⟨e, rfl, .inr hclaim⟩
  · exact .inl ⟨_, rfl, .inl rfl⟩

theorem writePiece_moves (h : Coherent ⟨s, none⟩) {bytes : Bytes} {r : Except PagerError Unit}
    (run : writePiece id a bytes s = .ok (r, t)) :
    (∃ e, r = .error e ∧ Moves (Label.Claims (· = .of id a)) ⟨s, none⟩ ⟨t, none⟩) ∨
      r = .ok () ∧ ∃ u v w, Moves (Label.Claims (· = .of id a)) ⟨s, none⟩ ⟨u, none⟩ ∧
        Move .mark ⟨u, none⟩ ⟨v, none⟩ ∧ Move (.soil (.of id a)) ⟨v, none⟩ ⟨w, none⟩ ∧
        Move (.store (.of id a) a.pageOffset bytes) ⟨w, none⟩ ⟨t, none⟩ := by
  rcases writePiece_cases h run with ⟨e, hr, rfl | hclaim⟩ | ⟨hr, f, u, v, w, hclaim, hmoves⟩
  · exact .inl ⟨e, hr, .refl⟩
  · exact .inl ⟨e, hr, (claim_moves h hclaim).1⟩
  · exact .inr ⟨hr, u, v, w, (claim_moves h hclaim).1, hmoves⟩

theorem growsStack_iff {pointer : VirtualAddress} : growsStack a pointer = true ↔
    userStackTop - maxStackSize ≤ a.value ∧ a.value < userStackTop ∧
      pointer.value - stackSlack ≤ a.value := by
  simp only [growsStack, Bool.and_eq_true, decide_eq_true_eq]
  rw [and_comm (a := a.value < userStackTop), and_assoc]

/-- The stack may grow by the page of a fault: the access lies in the stack's region, and not too
far below the stack pointer that counts. -/
def MayGrow (s : Machine) (id : SpaceId) (fault : PageFault) : Prop :=
  ∃ sp pointer, s.spaces.get? id = some sp ∧ fault.pointer sp = some pointer ∧
    userStackTop - maxStackSize ≤ fault.address.value ∧ fault.address.value < userStackTop ∧
    pointer.value - stackSlack ≤ fault.address.value

/-- The access is legal: a missing page of the user's is registered and may be accessed so, or the
stack may grow by it. -/
def Legal (s : Machine) (id : SpaceId) (fault : PageFault) : Prop :=
  requireUser fault.address = .ok () ∧ fault.notPresent = true ∧
    ((∃ p, Pager.pageAt s.spaces (.of id fault.address) = some p ∧ fault.Permits p) ∨
      Pager.pageAt s.spaces (.of id fault.address) = none ∧ s.MayGrow id fault)

/-- What is wrong with an access that is not legal, and the error that says so. -/
inductive Forbids (s : Machine) (id : SpaceId) (fault : PageFault) : PagerError → Prop
  | null (low : fault.address.value < pageSize) : Forbids s id fault .nullAddress
  | kernel (high : kernelBase ≤ fault.address.value) : Forbids s id fault .kernelAddress
  | present (user : requireUser fault.address = .ok ()) (present : fault.notPresent = false) :
      Forbids s id fault .writeProtected
  | unregistered (user : requireUser fault.address = .ok ()) (missing : fault.notPresent = true)
      (absent : Pager.pageAt s.spaces (.of id fault.address) = none) (far : ¬ s.MayGrow id fault) :
      Forbids s id fault .notMapped
  | readOnly {p : Page} (user : requireUser fault.address = .ok ())
      (missing : fault.notPresent = true)
      (page : Pager.pageAt s.spaces (.of id fault.address) = some p) (kept : ¬ fault.Permits p) :
      Forbids s id fault .readOnly

theorem forbids_of_requireUser {fault : PageFault} {e : PagerError}
    (huser : requireUser fault.address = .error e) : s.Forbids id fault e := by
  rcases requireUser_cases fault.address with ⟨hok, -⟩ | ⟨hnull, hlow⟩ | ⟨hkernel, hhigh⟩
  · cases huser.symm.trans hok
  · cases huser.symm.trans hnull
    exact .null hlow
  · cases huser.symm.trans hkernel
    exact .kernel hhigh

/-- An access that is forbidden is not legal. -/
theorem Forbids.not_legal {fault : PageFault} {e : PagerError} (h : s.Forbids id fault e) :
    ¬ s.Legal id fault := by
  rintro ⟨huser, hmissing, hlegal⟩
  cases h with
  | null hlow => exact absurd (requireUser_eq_ok_iff.1 huser).1 (Nat.not_le.2 hlow)
  | kernel hhigh => exact absurd (requireUser_eq_ok_iff.1 huser).2 (Nat.not_lt.2 hhigh)
  | present _ hpresent => cases hmissing.symm.trans hpresent
  | unregistered _ _ habsent hfar =>
    rcases hlegal with ⟨p, hp, -⟩ | ⟨-, hgrows⟩
    · cases habsent.symm.trans hp
    · exact hfar hgrows
  | readOnly _ _ hp hkept =>
    rcases hlegal with ⟨q, hq, hpermits⟩ | ⟨hnone, -⟩
    · cases hp.symm.trans hq
      exact hkept hpermits
    · cases hnone.symm.trans hp

/-- The stack grows by the page of an access. No page was registered there, and the access lies
close enough to the stack pointer. -/
structure Grows (s : Machine) (id : SpaceId) (a : VirtualAddress)
    (stackPointer : Option VirtualAddress) (t : Machine) : Prop where
  absent : Pager.pageAt s.spaces (.of id a) = none
  near : ∃ pointer, stackPointer = some pointer ∧ growsStack a pointer = true
  adds : Adds id [.ofStack a] s t

/-- The stack grows by one page, unless a page was registered there or the access lies too far
from the stack. -/
theorem growStack_cases {stackPointer : Option VirtualAddress} {r : Except PagerError Unit}
    (run : growStack id a stackPointer s = .ok (r, t)) :
    r = .ok () ∧ ∃ u, (u = s ∧ (Pager.pageAt s.spaces (.of id a) = none →
        ∀ pointer, stackPointer = some pointer → ¬ growsStack a pointer = true) ∨
      Grows s id a stackPointer u) ∧ ∃ events, t = { u with events } := by
  unfold growStack at run
  obtain ⟨sp, hs, run⟩ := space_bind_eq_ok.1 run
  have hpage : Pager.pageAt s.spaces (.of id a) = sp.pages.get? a := pageAt_of_get? hs _
  by_cases hregistered : sp.pages.contains a = true
  · rw [if_pos hregistered] at run
    cases run
    refine ⟨rfl, _, .inl ⟨rfl, fun hnone => ?_⟩, _, rfl⟩
    rw [PageTable.contains, Table.contains] at hregistered
    rw [hpage, PageTable.get?] at hnone
    rw [hnone] at hregistered
    cases hregistered
  · rw [if_neg hregistered] at run
    cases stackPointer with
    | none =>
      cases run
      refine ⟨rfl, _, .inl ⟨rfl, fun _ pointer hpointer => ?_⟩, _, rfl⟩
      cases hpointer
    | some pointer =>
      by_cases hgrows : growsStack a pointer = true
      · simp only [hgrows, if_true] at run
        obtain ⟨w, hadds, hinsert⟩ := insertPages_single (p := .ofStack a) hs hregistered
        rw [Action.bind_of_ok hinsert] at run
        cases run
        have habsent : Pager.pageAt s.spaces (.of id a) = none :=
          hpage.trans (Option.not_isSome_iff_eq_none.1 hregistered)
        exact ⟨rfl, w, .inr ⟨habsent, ⟨pointer, rfl, hgrows⟩, hadds⟩, _, rfl⟩
      · simp only [hgrows] at run
        cases run
        refine ⟨rfl, _, .inl ⟨rfl, fun _ other hother => ?_⟩, _, rfl⟩
        cases hother
        exact hgrows

theorem Adds.coherent {held : Option FrameId} {pages : List Page} (h : Coherent ⟨s, held⟩)
    (hadds : Adds id pages s t) (hp : ∀ p ∈ pages, p.IsNew) : Coherent ⟨t, held⟩ := by
  have hmoves : Moves (fun _ => True) ⟨s, held⟩ ⟨t, held⟩ :=
    .of_trace (hadds.trace fun p hmem => (hp p hmem).toEnters) fun _ _ => trivial
  exact h.moves hmoves

theorem Grows.pageAt_eq {pointer : Option VirtualAddress} (h : Grows s id a pointer t) :
    Pager.pageAt t.spaces =
      Function.update (Pager.pageAt s.spaces) (.of id a) (some (.ofStack a)) := by
  obtain ⟨sp, hs, -, rfl⟩ := h.adds.single
  have hspace : s.spaces.get? (Place.of id a).space = some sp := hs
  exact Coherent.pageAt_put hspace _ rfl

theorem Grows.page {pointer : Option VirtualAddress} (h : Grows s id a pointer t) :
    Pager.pageAt t.spaces (.of id a) = some (.ofStack a) := by
  rw [h.pageAt_eq, Function.update_self]

/-- The stack's region consists of whole pages. -/
theorem Grows.stands {pointer : Option VirtualAddress} (h : Grows s id a pointer t) :
    (Page.ofStack a).Stands := by
  obtain ⟨sp, -, hgrows⟩ := h.near
  intro _
  show _ ≤ a.pageBase.value ∧ a.pageBase.value + _ ≤ _
  rw [growsStack_iff] at hgrows
  rw [Address.pageBase_value]
  simp only [userStackTop, maxStackSize, pageSize] at hgrows ⊢
  omega

theorem Grows.coherent {pointer : Option VirtualAddress} (hgrows : Grows s id a pointer t)
    (h : Coherent ⟨s, none⟩) : Coherent ⟨t, none⟩ := by
  refine hgrows.adds.coherent h fun p hp => ?_
  rw [List.mem_singleton.1 hp]
  exact Page.isNew_ofStack _

/-- The machine in which the page of a legal access is claimed: the page was registered, or the
stack has grown by it. -/
inductive Readies (s : Machine) (id : SpaceId) (fault : PageFault) : Machine → Prop
  | registered {p : Page} (events : List Event)
      (page : Pager.pageAt s.spaces (.of id fault.address) = some p) (permits : fault.Permits p) :
      Readies s id fault { s with events }
  | grown {u : Machine} {sp : Space} (events : List Event) (space : s.spaces.get? id = some sp)
      (grows : Grows s id fault.address (fault.pointer sp) u) : Readies s id fault { u with events }

namespace Readies

variable {fault : PageFault}

theorem page (h : Readies s id fault t) :
    ∃ p, Pager.pageAt t.spaces (.of id fault.address) = some p ∧ fault.Permits p := by
  cases h with
  | registered _ hp hpermits => exact ⟨_, hp, hpermits⟩
  | grown _ _ hgrows => exact ⟨_, hgrows.page, fun _ => rfl⟩

theorem coherent (hready : Readies s id fault t) (h : Coherent ⟨s, none⟩) : Coherent ⟨t, none⟩ := by
  cases hready with
  | registered => exact h.move (.note ..)
  | grown _ _ hgrows => exact (hgrows.coherent h).move (.note ..)

end Readies

/-- What comes of a fault: it is forbidden and nothing has changed, or the page is claimed. -/
inductive Resolved (s : Machine) (id : SpaceId) (fault : PageFault) :
    Except PagerError Unit → Machine → Prop
  | refused {e : PagerError} (events : List Event) (forbids : s.Forbids id fault e) :
      Resolved s id fault (.error e) { s with events }
  | claimed {u t : Machine} {q : Except PagerError FrameId}
      (user : requireUser fault.address = .ok ()) (missing : fault.notPresent = true)
      (ready : Readies s id fault u) (claim : claim id fault.address u = .ok (q, t)) :
      Resolved s id fault (q.map fun _ => ()) t

theorem resolve_cases {fault : PageFault} {r : Except PagerError Unit}
    (run : resolve id fault s = .ok (r, t)) : Resolved s id fault r t := by
  unfold resolve at run
  rcases Action.ofResult_bind_eq_ok.1 run with ⟨_, huser, run⟩ | ⟨e, huser, rfl, rfl⟩
  swap
  · exact .refused _ (forbids_of_requireUser huser)
  by_cases hmissing : (!fault.notPresent) = true
  · rw [if_pos hmissing] at run
    cases run
    exact .refused _ (.present huser (by simpa using hmissing))
  rw [if_neg hmissing] at run
  have hmissing : fault.notPresent = true := by simpa using hmissing
  obtain ⟨sp, hs, run⟩ := space_bind_eq_ok.1 run
  rcases Action.bind_eq_ok.1 run with ⟨_, v, hgrow, run⟩ | ⟨e, hgrow, -⟩
  swap
  · cases (growStack_cases hgrow).1
  obtain ⟨-, u, hu, events, rfl⟩ := growStack_cases hgrow
  obtain ⟨sp', hs', ⟨p, hp, run⟩ | ⟨hnone, rfl, rfl⟩⟩ := page_bind_eq_ok.1 run
  · have hpage : Pager.pageAt u.spaces (.of id fault.address) = some p :=
      (pageAt_of_get? hs' _).trans hp
    by_cases hwrite : (fault.write && !p.writable) = true
    · rw [if_pos hwrite] at run
      cases run
      rcases hu with ⟨rfl, -⟩ | hgrows
      · refine .refused _ (.readOnly huser hmissing hpage fun hpermits => ?_)
        simp only [Bool.and_eq_true, Bool.not_eq_true'] at hwrite
        cases (hpermits hwrite.1).symm.trans hwrite.2
      · rw [hgrows.page] at hpage
        cases hpage
        simp [Page.ofStack, Page.fresh] at hwrite
    · rw [if_neg hwrite] at run
      have hpermits : fault.Permits p := by
        simpa [PageFault.Permits] using hwrite
      have hready : Readies s id fault { u with events } := by
        rcases hu with ⟨rfl, -⟩ | hgrows
        · exact .registered events hpage hpermits
        · exact .grown events hs hgrows
      rcases Action.bind_eq_ok.1 run with ⟨f, w, hclaim, run⟩ | ⟨e, hclaim, rfl⟩
      · cases run
        exact .claimed huser hmissing hready hclaim
      · exact .claimed huser hmissing hready hclaim
  · have habsent : Pager.pageAt u.spaces (.of id fault.address) = none :=
      (pageAt_of_get? hs' _).trans hnone
    rcases hu with ⟨rfl, hfar⟩ | hgrows
    · refine .refused _ (.unregistered huser hmissing habsent ?_)
      rintro ⟨sp', pointer, hs', hpointer, hnear⟩
      cases hs.symm.trans hs'
      exact hfar habsent pointer hpointer (growsStack_iff.2 hnear)
    · rw [hgrows.page] at habsent
      cases habsent

theorem Resolved.moves {fault : PageFault} {r : Except PagerError Unit}
    (hresolved : Resolved s id fault r t) (h : Coherent ⟨s, none⟩) :
    ∃ u, (u = s ∨ ∃ pointer, Grows s id fault.address pointer u) ∧
      Moves (Label.Claims (· = .of id fault.address)) ⟨u, none⟩ ⟨t, none⟩ := by
  cases hresolved with
  | refused events => exact ⟨s, .inl rfl, .single (.note ..) trivial⟩
  | claimed _ _ hready hclaim =>
    have hclaims := (claim_moves (hready.coherent h) hclaim).1
    cases hready with
    | registered events =>
      exact ⟨s, .inl rfl, .trans (.single (.note s.evictions events) trivial) hclaims⟩
    | @grown u _ events _ hgrows =>
      exact ⟨u, .inr ⟨_, hgrows⟩, .trans (.single (.note u.evictions events) trivial) hclaims⟩

/-- How a fault ends is reported. -/
theorem serveFault_cases {fault : PageFault} {r : Except PagerError Unit}
    (run : serveFault id fault s = .ok (r, t)) :
    ∃ u events, Resolved s id fault r u ∧ t = { u with events } := by
  unfold serveFault at run
  obtain ⟨q, u, hresolve, run⟩ := Action.attempt_bind_eq_ok.1 run
  cases q <;> cases run <;> exact ⟨u, _, resolve_cases hresolve, rfl⟩

/-- A fault may add a stack page, and then does no more than a claim. -/
theorem serveFault_moves (h : Coherent ⟨s, none⟩) {fault : PageFault}
    {r : Except PagerError Unit} (run : serveFault id fault s = .ok (r, t)) :
    ∃ u, (u = s ∨ ∃ pointer, Grows s id fault.address pointer u) ∧
      Moves (Label.Claims (· = .of id fault.address)) ⟨u, none⟩ ⟨t, none⟩ := by
  obtain ⟨v, events, hresolved, rfl⟩ := serveFault_cases run
  obtain ⟨u, hu, hmoves⟩ := hresolved.moves h
  exact ⟨u, hu, hmoves.tail (.note ..) trivial⟩

/-- An access to a page that is not present changes nothing, and only a write leaves a trace of
what was stored. -/
theorem touch_cases {write : Bool} {r : Except PagerError Bool}
    (run : touch id a write s = .ok (r, t)) :
    t = s ∨ (∃ sp, s.spaces.get? id = some sp ∧ sp.directory.isPresent a.pageBase = true) ∧
      Moves (fun l => l = .mark ∨ write = true ∧ l = .soil (.of id a)) ⟨s, none⟩ ⟨t, none⟩ := by
  unfold touch at run
  obtain ⟨sp, hs, run⟩ := space_bind_eq_ok.1 run
  by_cases hpresent : (!sp.directory.isPresent a.pageBase) = true
  · rw [if_pos hpresent] at run
    cases run
    exact .inl rfl
  · rw [if_neg hpresent, modifyDirectory, modifySpace_bind, Table.modify_eq_insert hs] at run
    refine .inr ⟨⟨sp, hs, by simpa using hpresent⟩, ?_⟩
    have haccessed : Move .mark ⟨s, none⟩ _ :=
      .mark hs a.pageBase .accessed true (by decide) (by decide) (by decide)
    cases write with
    | false =>
      cases run
      exact .single haccessed (.inl rfl)
    | true =>
      simp only [if_true] at run
      rw [modifyDirectory, modifySpace_bind, Table.modify_insert] at run
      cases run
      have hdirty : Move (.soil (.of id a)) ⟨{ s with
          spaces := s.spaces.insert id { sp with
            directory := sp.directory.set a.pageBase .accessed true } }, none⟩ _ :=
        .soil (Table.get?_insert_self ..)
      simp only [Place.of, Table.insert_insert] at hdirty
      exact (Moves.single haccessed (.inl rfl)).tail hdirty (.inr ⟨rfl, rfl⟩)

theorem touch_moves {write : Bool} {r : Except PagerError Bool}
    (run : touch id a write s = .ok (r, t)) :
    Moves (fun l => l = .mark ∨ l = .soil (.of id a)) ⟨s, none⟩ ⟨t, none⟩ := by
  rcases touch_cases run with rfl | ⟨-, hmoves⟩
  · exact .refl
  · exact hmoves.mono fun l hl => hl.imp_right And.right

theorem claims_in_space (id : SpaceId) (a : VirtualAddress) (l : Label)
    (hl : l.Claims (· = .of id a)) : l.Claims (·.space = id) :=
  hl.mono fun pl hpl => by rw [hpl]; rfl

/-- Pieces are read one after the other, until one of them fails. -/
theorem readPieces_cons {piece : Piece} {rest : List Piece} {r : Except PagerError Bytes}
    (run : readPieces id a (piece :: rest) s = .ok (r, t)) :
    ∃ address, a.add (piece.start - a.value) = .ok address ∧
      ((∃ e, r = .error e ∧ readPiece id address piece.count s = .ok (.error e, t)) ∨
        ∃ bytes q u, readPiece id address piece.count s = .ok (.ok bytes, u) ∧
          readPieces id a rest u = .ok (q, t) ∧ r = q.map (bytes ++ ·)) := by
  unfold readPieces at run
  obtain ⟨address, haddress, run⟩ := Action.liftM_bind_eq_ok.1 run
  refine ⟨address, haddress, ?_⟩
  rcases Action.bind_eq_ok.1 run with ⟨bytes, u, hpiece, run⟩ | ⟨e, hpiece, hr⟩
  · rcases Action.bind_eq_ok.1 run with ⟨others, v, hrest, run⟩ | ⟨e, hrest, hr⟩
    · cases run
      exact .inr ⟨bytes, .ok others, u, hpiece, hrest, rfl⟩
    · exact .inr ⟨bytes, .error e, u, hpiece, hrest, hr⟩
  · exact .inl ⟨e, hr, hpiece⟩

/-- What every piece keeps is kept by all of them. -/
theorem readPieces_keep {P : Machine → Prop} {pieces : List Piece} {r : Except PagerError Bytes}
    (hpiece : ∀ {address count q u v}, P u → readPiece id address count u = .ok (q, v) → P v)
    (hs : P s) (run : readPieces id a pieces s = .ok (r, t)) : P t := by
  induction pieces generalizing s r with
  | nil =>
    cases run
    exact hs
  | cons piece rest ih =>
    obtain ⟨address, -, ⟨e, -, hfails⟩ | ⟨bytes, q, u, hfirst, hrest, -⟩⟩ := readPieces_cons run
    · exact hpiece hs hfails
    · exact ih (hpiece hs hfirst) hrest

theorem readPieces_moves {pieces : List Piece} {r : Except PagerError Bytes}
    (h : Coherent ⟨s, none⟩) (run : readPieces id a pieces s = .ok (r, t)) :
    Moves (Label.Claims (·.space = id)) ⟨s, none⟩ ⟨t, none⟩ := by
  refine readPieces_keep (P := fun u => Moves (Label.Claims (·.space = id)) ⟨s, none⟩ ⟨u, none⟩)
    (fun {address _ _ _ _} hmoves hpiece => ?_) .refl run
  exact hmoves.trans ((readPiece_moves (h.moves hmoves) hpiece).1.mono (claims_in_space id address))

theorem writePiece_copies {bytes : Bytes} {r : Except PagerError Unit} (h : Coherent ⟨s, none⟩)
    (run : writePiece id a bytes s = .ok (r, t)) :
    Moves (Label.Copies id) ⟨s, none⟩ ⟨t, none⟩ := by
  have hcopies : ∀ l : Label, l.Claims (· = .of id a) → l.Copies id :=
    fun l hl => (claims_in_space id a l hl).copies
  rcases writePiece_moves h run with ⟨e, -, hmoves⟩ | ⟨-, u, v, w, hclaim, hmark, hsoil, hstore⟩
  · exact hmoves.mono hcopies
  · have hready := ((hclaim.mono hcopies).tail hmark trivial).tail hsoil rfl
    exact hready.tail hstore rfl

/-- Pieces are stored one after the other, until one of them fails. -/
theorem writePieces_cons {piece : Piece} {rest : List Piece} {bytes : Bytes}
    {r : Except PagerError Unit} (run : writePieces id a bytes (piece :: rest) s = .ok (r, t)) :
    ∃ address, a.add (piece.start - a.value) = .ok address ∧
      ((∃ e, r = .error e ∧
          writePiece id address (bytes.take piece.count) s = .ok (.error e, t)) ∨
        ∃ u, writePiece id address (bytes.take piece.count) s = .ok (.ok (), u) ∧
          writePieces id a (bytes.drop piece.count) rest u = .ok (r, t)) := by
  unfold writePieces at run
  obtain ⟨address, haddress, run⟩ := Action.liftM_bind_eq_ok.1 run
  refine ⟨address, haddress, ?_⟩
  rcases Action.bind_eq_ok.1 run with ⟨_, u, hpiece, hrest⟩ | ⟨e, hpiece, hr⟩
  · exact .inr ⟨u, hpiece, hrest⟩
  · exact .inl ⟨e, hr, hpiece⟩

/-- What every piece keeps is kept by all of them. -/
theorem writePieces_keep {P : Machine → Prop} {pieces : List Piece} {bytes : Bytes}
    {r : Except PagerError Unit}
    (hpiece : ∀ {address part q u v}, P u → writePiece id address part u = .ok (q, v) → P v)
    (hs : P s) (run : writePieces id a bytes pieces s = .ok (r, t)) : P t := by
  induction pieces generalizing s r bytes with
  | nil =>
    cases run
    exact hs
  | cons piece rest ih =>
    obtain ⟨address, -, ⟨e, -, hfails⟩ | ⟨u, hfirst, hrest⟩⟩ := writePieces_cons run
    · exact hpiece hs hfails
    · exact ih (hpiece hs hfirst) hrest

theorem writePieces_moves {pieces : List Piece} {bytes : Bytes} {r : Except PagerError Unit}
    (h : Coherent ⟨s, none⟩) (run : writePieces id a bytes pieces s = .ok (r, t)) :
    Moves (Label.Copies id) ⟨s, none⟩ ⟨t, none⟩ := by
  refine writePieces_keep (P := fun u => Moves (Label.Copies id) ⟨s, none⟩ ⟨u, none⟩)
    (fun hmoves hpiece => ?_) .refl run
  exact hmoves.trans (writePiece_copies (h.moves hmoves) hpiece)

theorem readUser_moves {length : Nat} {r : Except PagerError Bytes} (h : Coherent ⟨s, none⟩)
    (run : readUser id a length s = .ok (r, t)) :
    Moves (Label.Claims (·.space = id)) ⟨s, none⟩ ⟨t, none⟩ := by
  unfold readUser at run
  rcases Action.ofResult_bind_eq_ok.1 run with ⟨_, -, run⟩ | ⟨e, -, rfl, rfl⟩
  · exact readPieces_moves h run
  · exact .refl

theorem writeUser_moves {bytes : Bytes} {r : Except PagerError Unit} (h : Coherent ⟨s, none⟩)
    (run : writeUser id a bytes s = .ok (r, t)) :
    Moves (Label.Copies id) ⟨s, none⟩ ⟨t, none⟩ := by
  unfold writeUser at run
  rcases Action.ofResult_bind_eq_ok.1 run with ⟨_, -, run⟩ | ⟨e, -, rfl, rfl⟩
  · exact writePieces_moves h run
  · exact .refl

end Machine
end Pager
