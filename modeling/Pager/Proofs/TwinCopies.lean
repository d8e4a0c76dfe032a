import Pager.Proofs.Copying
import Pager.Proofs.TwinClaims

/-!
Copies, pins and faults on twins. What both read where it may be seen is the same, since
the page is resident by then and its frame holds what its cell shows. What is stored may
differ where it is hidden and does not go to a file; the page gets the same marks for it.
-/
namespace Pager

theorem Label.Pins.quiet {l : Label} (h : l.Pins) : l.Quiet := by
  cases l with
  | pin => exact quiet_of_place?_eq_none rfl
  | _ => exact h.elim

namespace Machine

variable {hidden : SpaceId → Prop} {s s' t t' : Machine} {pl : Place} {f : FrameId} {p : Page}
  {id : SpaceId} {a : VirtualAddress} {ε α : Type}

/-- Work that looks at no bytes and moves none keeps machines twins. -/
theorem Blind.twins {m : Action Machine ε α} (hblind : Blind m) (h : Twins hidden s s')
    (hmoves : ∀ {u v r}, Coherent ⟨u, none⟩ → u.spaces = s.spaces → m u = .ok (r, v) →
      Moves Label.Quiet ⟨u, none⟩ ⟨v, none⟩) : Mirrors (Twins hidden) Eq (m s) (m s') :=
  (hblind.mirrors h.alike).strengthen fun run run' halike =>
    h.of_quiet (hmoves h.coherent rfl run) (hmoves h.coherent' (spaces_of_alike h.alike) run')
      halike (fun _ hl => hl) fun _ hl => hl

theorem quiet_mark : Label.Quiet .mark := Label.quiet_of_place?_eq_none rfl

/-- A flag of an entry is set or cleared in both machines. -/
theorem mark_twins (h : Twins hidden s s') (id : SpaceId) (a : VirtualAddress) (flag : PageFlag)
    (up : Bool) (hpresent : flag ≠ .present) (hwritable : flag ≠ .writable) (hdirty : flag ≠ .dirty) :
    Mirrors (Twins hidden) Eq (modifyDirectory id (·.set a flag up) s)
      (modifyDirectory id (·.set a flag up) s') := by
  refine (blind_modifySpace id _).twins h ?_
  intro u v r _ _ run
  cases run
  cases hs : u.spaces.get? id with
  | none =>
    show Moves _ _ ⟨{ u with spaces := u.spaces.modify id _ }, none⟩
    rw [Table.modify_of_none hs]
    exact .refl
  | some sp =>
    show Moves _ _ ⟨{ u with spaces := u.spaces.modify id _ }, none⟩
    rw [Table.modify_eq_insert hs]
    exact .single (.mark hs a flag up hpresent hwritable hdirty) quiet_mark

/-- Twins read the same of a page that may be seen. -/
theorem readPiece_twins (h : Twins hidden s s') {count : Nat} :
    Mirrors (Twins hidden) (fun bytes bytes' => ¬ hidden id → bytes' = bytes)
      (readPiece id a count s) (readPiece id a count s') := by
  unfold readPiece
  refine (claim_twins h).bind fun {f f' u u'} hclaim _ heq hu => ?_
  subst heq
  obtain ⟨p, hp, hres⟩ := (claim_cases h.coherent hclaim).page
  refine addressOfFrame_bind_mirrors hu.alike fun {fr} hf => ?_
  refine readFrame_bind_mirrors hu.alike fun {bytes bytes'} hbytes hbytes' _ => ?_
  by_cases hbounds : pageSize < a.pageOffset + count
  · rw [if_pos hbounds, if_pos hbounds]
    exact .bug _
  · rw [if_neg hbounds, if_neg hbounds]
    refine (mark_twins hu id a.pageBase .accessed true (by simp) (by simp) (by simp)).bind
      fun _ _ _ hv => ?_
    refine .done (fun hseen => ?_) hv
    obtain ⟨-, -, rfl⟩ := FramePool.read_eq_ok.1 hbytes
    obtain ⟨-, -, rfl⟩ := FramePool.read_eq_ok.1 hbytes'
    rw [hu.bytesAt_eq hp hres hf (.inl hseen)]

theorem readPieces_twins (h : Twins hidden s s') {source : VirtualAddress} {pieces : List Piece} :
    Mirrors (Twins hidden) (fun bytes bytes' => ¬ hidden id → bytes' = bytes)
      (readPieces id source pieces s) (readPieces id source pieces s') := by
  induction pieces generalizing s s' with
  | nil => exact .done (fun _ => rfl) h
  | cons piece rest ih =>
    unfold readPieces
    refine .liftM_bind fun {address} _ => (readPiece_twins h).bind
      fun {bytes bytes' _ _} _ _ hbytes hu => (ih hu).bind fun _ _ hothers hv => .done ?_ hv
    intro hseen
    rw [hbytes hseen, hothers hseen]

theorem readUser_twins (h : Twins hidden s s') {length : Nat} :
    Mirrors (Twins hidden) (fun bytes bytes' => ¬ hidden id → bytes' = bytes)
      (readUser id a length s) (readUser id a length s') := by
  have hrange : Mirrors (Twins hidden) Eq (Action.ofResult (requireUserRange a length) s)
      (Action.ofResult (requireUserRange a length) s') := .of_result h
  exact hrange.bind fun _ _ _ hu => readPieces_twins hu

/-- A page of a file is registered at the place. -/
def Filed (s : Machine) (pl : Place) : Prop :=
  ∃ p, Pager.pageAt s.spaces pl = some p ∧ p.type = .fileBacked

/-- Pages of files come by registration only. -/
theorem Filed.before {m n : Moment} (hfiled : n.machine.Filed pl) (h : Coherent m)
    {kinds : Label → Prop} (hmoves : Moves kinds m n) (hkinds : ∀ pl p, ¬ kinds (.register pl p)) :
    m.machine.Filed pl := by
  refine h.preserves (P := fun n => n.machine.Filed pl → m.machine.Filed pl) hmoves ?_ id hfiled
  rintro l u v hl hu ih hmove ⟨q, hq, htype⟩
  rcases hu.page_before hmove hq with rfl | ⟨p, hp, hages⟩
  · exact absurd hl (hkinds pl q)
  · exact ih ⟨p, hp, hages.type.symm.trans htype⟩

/-- Storing lays the bytes over what the page's frame held. -/
theorem frameBytes_of_store {m n : Moment} (h : Coherent m) {start : Nat} {bytes : Bytes}
    (hmove : Move (.store pl start bytes) m n) (hp : Pager.pageAt m.machine.spaces pl = some p)
    (hf : p.frame = some f) :
    n.machine.frameBytes f = (m.machine.frameBytes f).overlay start bytes := by
  cases hmove with
  | store hg ho hw =>
    obtain ⟨q, hq, hres⟩ := h.linked.owner_page hg ho
    cases hp.symm.trans hq
    cases hf.symm.trans hres
    refine (congrFun (h.frameBytes_write hg hw) f).trans ?_
    rw [Function.update_self]

/-- The same page gets the same marks, whatever is stored there. -/
theorem writePiece_mirrors (h : Twins hidden s s') {bytes bytes' : Bytes}
    (hlength : bytes'.length = bytes.length) :
    Mirrors (Shares outline) Eq (writePiece id a bytes s) (writePiece id a bytes' s') := by
  unfold writePiece
  refine page_bind_mirrors h.alike h.alike fun {sp p} _ _ => ?_
  by_cases hwritable : (!p.writable) = true
  · rw [if_pos hwritable, if_pos hwritable]
    exact .failed _ h.alike
  · rw [if_neg hwritable, if_neg hwritable]
    refine (claim_mirrors h).bind fun {f f' _ _} _ _ heq hu => ?_
    subst heq
    refine addressOfFrame_bind_mirrors hu fun {fr} _ => ?_
    rw [hlength]
    by_cases hbounds : pageSize < a.pageOffset + bytes.length
    · rw [if_pos hbounds, if_pos hbounds]
      exact .bug _
    · rw [if_neg hbounds, if_neg hbounds]
      exact (writeFrame_mirrors hu fr.address _ bytes bytes').bind fun _ _ _ hv =>
        (blind_modifySpace id _).mirrors hv

/-- Bytes are stored in a page of both machines, the same unless that is hidden. -/
theorem Twins.store (h : Twins hidden s s') {kinds : Label → Prop} {start : Nat}
    {bytes bytes' : Bytes} {u u' : Machine} (hready : Moves kinds ⟨s, none⟩ ⟨u, none⟩)
    (hready' : Moves kinds ⟨s', none⟩ ⟨u', none⟩) (hkinds : ∀ l, kinds l → l.place? = none)
    (hstore : Move (.store pl start bytes) ⟨u, none⟩ ⟨t, none⟩)
    (hstore' : Move (.store pl start bytes') ⟨u', none⟩ ⟨t', none⟩)
    (halike : t'.outline = t.outline)
    (hsecret : bytes' = bytes ∨ hidden pl.space ∧ ¬ s.Filed pl) : Twins hidden t t' := by
  have hcu := h.coherent.moves hready
  have hcu' := h.coherent'.moves hready'
  have hmoves : Moves (fun l => kinds l ∨ l = .store pl start bytes) ⟨s, none⟩ ⟨t, none⟩ :=
    (hready.mono fun _ => .inl).tail hstore (.inr rfl)
  have hmoves' : Moves (fun l => kinds l ∨ l = .store pl start bytes') ⟨s', none⟩ ⟨t', none⟩ :=
    (hready'.mono fun _ => .inl).tail hstore' (.inr rfl)
  have hquiet : ∀ l, kinds l → l.Quiet := fun l hl => Label.quiet_of_place?_eq_none (hkinds l hl)
  refine ⟨h.coherent.moves hmoves, h.coherent'.moves hmoves', halike, ?_, fun other => ?_⟩
  · refine h.oblivious.after h.coherent hmoves ?_
    rintro other p (hl | hl)
    · exact (hquiet _ hl).2 other p rfl
    · cases hl
  by_cases hother : other = pl
  · subst hother
    constructor
    · intro hseen
      have hbytes := hsecret.resolve_right fun hboth => hseen hboth.1
      rw [hcu.flat_store hstore, hcu'.flat_store hstore', Function.update_self,
        Function.update_self, h.coherent.flat_still_moves hready hkinds,
        h.coherent'.flat_still_moves hready' hkinds, (h.matching other).flat hseen, hbytes]
    · intro q g hq htype hg
      have hq' : Pager.pageAt t'.spaces other = some q := spaces_of_alike halike ▸ hq
      obtain ⟨hqu, hbytes⟩ : Pager.pageAt u.spaces other = some q ∧
          t.frameBytes g = (u.frameBytes g).overlay start bytes := by
        rcases hcu.resident_before hstore hq hg with (hl | hl) | hqu
        · cases hl
        · cases hl
        · exact ⟨hqu, frameBytes_of_store hcu hstore hqu hg⟩
      obtain ⟨hqu', hbytes'⟩ : Pager.pageAt u'.spaces other = some q ∧
          t'.frameBytes g = (u'.frameBytes g).overlay start bytes' := by
        rcases hcu'.resident_before hstore' hq' hg with (hl | hl) | hqu'
        · cases hl
        · cases hl
        · exact ⟨hqu', frameBytes_of_store hcu' hstore' hqu' hg⟩
      have hloads : ∀ l, kinds l → ¬ l.Loads other := fun l hl hloads =>
        (hquiet l hl).1 other (.inl hloads)
      obtain ⟨hqs, hkept⟩ := h.coherent.resident_since hready hloads hqu hg htype
      obtain ⟨-, hkept'⟩ := h.coherent'.resident_since hready' hloads hqu' hg htype
      have hsame := hsecret.resolve_right fun hboth => hboth.2 ⟨q, hqs, htype⟩
      rw [hbytes, hbytes', hkept, hkept', (h.matching other).filed hqs htype hg, hsame]
  · refine h.matching_of_moves hmoves hmoves' halike ?_ ?_
    · rintro l (hl | rfl) hbrings
      · exact (hquiet l hl).1 other hbrings
      · rcases hbrings with hloads | hseat
        · exact hother hloads.symm
        · cases hseat
    · rintro l (hl | rfl) hbrings
      · exact (hquiet l hl).1 other hbrings
      · rcases hbrings with hloads | hseat
        · exact hother hloads.symm
        · cases hseat

/-- What is stored at a page differs only where it is hidden and does not go to a file. -/
theorem Twins.writePiece (h : Twins hidden s s') {bytes bytes' : Bytes}
    (hsecret : bytes' = bytes ∨ hidden id ∧ ¬ s.Filed (.of id a)) {r : Except PagerError Unit}
    (run : writePiece id a bytes s = .ok (r, t)) (run' : writePiece id a bytes' s' = .ok (r, t'))
    (halike : t'.outline = t.outline) : Twins hidden t t' := by
  rcases writePiece_cases h.coherent run with ⟨e, rfl, hfailed⟩ |
    ⟨rfl, f, u, v, w, hclaim, hmark, hsoil, hstore⟩
  · rcases writePiece_cases h.coherent' run' with ⟨_, he, hfailed'⟩ | ⟨he, -⟩
    · cases he
      have hquiet : ∀ {x y : Machine}, Coherent ⟨x, none⟩ →
          (y = x ∨ Machine.claim id a x = .ok (.error e, y)) →
          Moves Label.Quiet ⟨x, none⟩ ⟨y, none⟩ := by
        rintro x y hx (rfl | hclaim)
        · exact .refl
        · exact (claim_cases hx hclaim).quiet hx
      exact h.of_quiet (hquiet h.coherent hfailed) (hquiet h.coherent' hfailed') halike
        (fun _ hl => hl) fun _ hl => hl
    · cases he
  · rcases writePiece_cases h.coherent' run' with ⟨_, he, -⟩ |
      ⟨-, f', u', v', w', hclaim', hmark', hsoil', hstore'⟩
    · cases he
    · have hboth : Mirrors (Twins hidden) Eq (Machine.claim id a s) (Machine.claim id a s') :=
        claim_twins h
      rw [hclaim, hclaim'] at hboth
      cases hboth with
      | done heq hu =>
        have hready : ∀ {x y z : Machine}, Move .mark ⟨x, none⟩ ⟨y, none⟩ →
            Move (.soil (.of id a)) ⟨y, none⟩ ⟨z, none⟩ →
            Moves (fun l => l.place? = none) ⟨x, none⟩ ⟨z, none⟩ := fun hmark hsoil =>
          .tail (.single hmark rfl) hsoil rfl
        refine hu.store (hready hmark hsoil) (hready hmark' hsoil') (fun _ hl => hl) hstore hstore'
          halike (hsecret.imp_right fun hboth => ⟨hboth.1, fun hfiled => hboth.2 ?_⟩)
        exact hfiled.before h.coherent (claim_moves h.coherent hclaim).1 fun _ _ hl => hl

theorem writePiece_twins (h : Twins hidden s s') {bytes bytes' : Bytes}
    (hlength : bytes'.length = bytes.length)
    (hsecret : bytes' = bytes ∨ hidden id ∧ ¬ s.Filed (.of id a)) :
    Mirrors (Twins hidden) Eq (writePiece id a bytes s) (writePiece id a bytes' s') :=
  (writePiece_mirrors h hlength).strengthen fun run run' halike =>
    h.writePiece hsecret run run' halike

/-- Two strings to be stored from an address on that differ only in hidden places, not in what
goes to a file. -/
structure Veiled (hidden : SpaceId → Prop) (s : Machine) (id : SpaceId) (start : Nat)
    (bytes bytes' : Bytes) : Prop where
  length : bytes'.length = bytes.length
  secret : ∀ i, bytes'[i]? ≠ bytes[i]? → hidden id ∧ ¬ s.Filed (.containing id (start + i))

namespace Veiled

variable {start count : Nat} {bytes bytes' : Bytes}

theorem refl : Veiled hidden s id start bytes bytes := ⟨rfl, fun _ hne => absurd rfl hne⟩

theorem after (h : Veiled hidden s id start bytes bytes')
    (hfiled : ∀ pl, t.Filed pl → s.Filed pl) : Veiled hidden t id start bytes bytes' :=
  ⟨h.length, fun i hne => ⟨(h.secret i hne).1, fun ht => (h.secret i hne).2 (hfiled _ ht)⟩⟩

theorem drop (h : Veiled hidden s id start bytes bytes') :
    Veiled hidden s id (start + count) (bytes.drop count) (bytes'.drop count) where
  length := by rw [List.length_drop, List.length_drop, h.length]
  secret i hne := by
    rw [List.getElem?_drop, List.getElem?_drop] at hne
    rw [Nat.add_assoc]
    exact h.secret (count + i) hne

/-- The part that lies on the first page is the same, or it may differ as a whole. -/
theorem take (h : Veiled hidden s id start bytes bytes') (hfits : start % pageSize + count ≤ pageSize) :
    bytes'.take count = bytes.take count ∨ hidden id ∧ ¬ s.Filed (.containing id start) := by
  by_cases hsame : bytes'.take count = bytes.take count
  · exact .inl hsame
  · obtain ⟨i, hi⟩ : ∃ i : Nat, (bytes'.take count)[i]? ≠ (bytes.take count)[i]? := by
      by_contra hcon
      exact hsame (List.ext_getElem? fun i => not_not.1 fun hne => hcon ⟨i, hne⟩)
    rw [List.getElem?_take, List.getElem?_take] at hi
    by_cases hlt : i < count
    · rw [if_pos hlt, if_pos hlt] at hi
      obtain ⟨hid, hfile⟩ := h.secret i hi
      rw [(Place.containing_add (by omega)).1] at hfile
      exact .inr ⟨hid, hfile⟩
    · rw [if_neg hlt, if_neg hlt] at hi
      exact absurd rfl hi

end Veiled

theorem writePieces_twins {target : VirtualAddress} {start : Nat} {bytes bytes' : Bytes}
    (h : Twins hidden s s') (hveiled : Veiled hidden s id start bytes bytes')
    (hstart : target.value ≤ start) :
    Mirrors (Twins hidden) Eq (writePieces id target bytes (pieces start bytes.length) s)
      (writePieces id target bytes' (pieces start bytes.length) s') := by
  generalize hlength : bytes.length = length
  induction length using Nat.strongRecOn generalizing s s' start bytes bytes' with
  | ind length ih =>
    by_cases hzero : length = 0
    · subst hzero
      exact .done rfl h
    have hpos := firstPart_pos start (by omega : 0 < length)
    have hfits := firstPart_fits start length
    rw [pieces_cons start (by omega)]
    generalize firstPart start length = count at *
    unfold writePieces
    refine .liftM_bind fun {address} haddress => ?_
    have hvalue : address.value = start := value_of_add_sub hstart haddress
    have hpiece : bytes'.take count = bytes.take count ∨
        hidden id ∧ ¬ s.Filed (.of id address) := by
      rw [Place.of_eq_containing, hvalue]
      exact hveiled.take hfits
    have htake : (bytes'.take count).length = (bytes.take count).length := by
      rw [List.length_take, List.length_take, hveiled.length]
    refine (writePiece_twins h htake hpiece).bind fun {_ _ u _} hrun _ _ hu => ?_
    refine ih (length - count) (by omega) hu (hveiled.drop.after fun pl hfiled => ?_) (by omega) ?_
    · exact hfiled.before h.coherent (writePiece_copies h.coherent hrun) fun _ _ hl => hl
    · rw [List.length_drop, hlength]

/-- Twins may be given different bytes to store where that is hidden. -/
theorem writeUser_twins {bytes bytes' : Bytes} (h : Twins hidden s s')
    (hveiled : Veiled hidden s id a.value bytes bytes') :
    Mirrors (Twins hidden) Eq (writeUser id a bytes s) (writeUser id a bytes' s') := by
  unfold writeUser
  rw [hveiled.length]
  have hrange : Mirrors (Twins hidden) Eq (Action.ofResult (requireUserRange a bytes.length) s)
      (Action.ofResult (requireUserRange a bytes.length) s') := .of_result h
  refine hrange.bind fun {_ _ u _} run _ _ hu => ?_
  obtain rfl : s = u := congrArg Prod.snd (Except.ok.inj run)
  exact writePieces_twins hu hveiled (Nat.le_refl _)

theorem pin_twins (h : Twins hidden s s') : Mirrors (Twins hidden) Eq (pin id a s) (pin id a s') := by
  unfold pin
  refine (claim_twins h).bind fun {f f' u u'} _ _ heq hu => ?_
  subst heq
  refine (blind_onFrames _).twins hu fun _ _ run => ?_
  obtain ⟨_, frames, hbody, -, rfl⟩ := onFrames_eq_ok.1 run
  obtain ⟨frames', hset, hframes⟩ := except_bind_eq_ok.1 hbody
  cases hframes
  obtain ⟨fr, hf, rfl⟩ := FrameTable.setPinned_eq_ok.1 hset
  exact .single (.pin hf true) (Label.Pins.quiet (l := .pin ..) trivial)

theorem report_twins (h : Twins hidden s s') (event : Event) :
    Mirrors (Twins hidden) Eq (report event s) (report event s') := by
  refine (blind_report event).twins h fun _ _ run => ?_
  cases run
  exact .single (.note ..) (Label.quiet_of_place?_eq_none rfl)

/-- The books of a space are changed, but for its pages and mappings. -/
theorem adjust_twins (h : Twins hidden s s') {f : Space → Space}
    (refuses : Space → Option PagerError) (hf : ∀ sp, ∃ stackPointer busy, f sp = { sp with
      stackPointer, refusesEntries := refuses sp, busy }) :
    Mirrors (Twins hidden) Eq (modifySpace id f s) (modifySpace id f s') := by
  refine (blind_modifySpace id f).twins h ?_
  intro u v r _ _ run
  rcases (adjust_moves run refuses hf).2 with rfl | ⟨sp, -, hmove⟩
  · exact .refl
  · exact .single hmove (Label.quiet_of_place?_eq_none rfl)

/-- Pages that were added hold no bytes yet. -/
theorem Adds.quiet {pages : List Page} (hadds : Adds id pages s t)
    (hpages : ∀ p ∈ pages, p.Enters ∧ p.Oblivious) : Moves Label.Quiet ⟨s, none⟩ ⟨t, none⟩ := by
  refine .of_trace (hadds.trace fun p hp => (hpages p hp).1) fun l hl => ?_
  obtain ⟨p, hp, rfl⟩ := List.mem_map.1 hl
  exact Label.quiet_register (hpages p hp).2

theorem growStack_twins (h : Twins hidden s s') (stackPointer : Option VirtualAddress) :
    Mirrors (Twins hidden) Eq (growStack id a stackPointer s) (growStack id a stackPointer s') := by
  refine (blind_growStack id a stackPointer).twins h ?_
  intro u v r _ _ run
  obtain ⟨-, w, hw, events, rfl⟩ := growStack_cases run
  have hnote : Moves Label.Quiet ⟨w, none⟩ ⟨{ w with events }, none⟩ :=
    .single (.note ..) (Label.quiet_of_place?_eq_none rfl)
  rcases hw with ⟨rfl, -⟩ | hgrows
  · exact hnote
  · refine .trans (hgrows.adds.quiet fun p hp => ?_) hnote
    rw [List.mem_singleton.1 hp]
    refine ⟨(Page.isNew_ofStack a).toEnters, fun w hw => ?_⟩
    cases hw
    trivial

/-- A fault is resolved by both or by neither. -/
theorem resolve_twins (h : Twins hidden s s') (fault : PageFault) :
    Mirrors (Twins hidden) Eq (resolve id fault s) (resolve id fault s') := by
  unfold resolve
  have huser : Mirrors (Twins hidden) Eq (Action.ofResult (requireUser fault.address) s)
      (Action.ofResult (requireUser fault.address) s') := .of_result h
  refine huser.bind fun _ _ _ hu => ?_
  by_cases hprotected : (!fault.notPresent) = true
  · rw [if_pos hprotected]
    exact .failed _ hu
  · rw [if_neg hprotected]
    refine space_bind_mirrors hu.alike fun {sp} _ => ?_
    refine (growStack_twins hu _).bind fun _ _ _ hv => ?_
    refine page_bind_mirrors hv.alike hv fun {_ p} _ _ => ?_
    by_cases hreadOnly : (fault.write && !p.writable) = true
    · rw [if_pos hreadOnly]
      exact .failed _ hv
    · rw [if_neg hreadOnly]
      exact (claim_twins hv).bind fun _ _ _ hw => .done rfl hw

theorem serveFault_twins (h : Twins hidden s s') (fault : PageFault) :
    Mirrors (Twins hidden) Eq (serveFault id fault s) (serveFault id fault s') := by
  unfold serveFault
  refine (resolve_twins h fault).attempt_bind fun {q _ _} _ _ hu => ?_
  cases q with
  | ok _ => exact report_twins hu _
  | error e => exact (report_twins hu _).bind fun _ _ _ hv => .failed e hv

end Machine
end Pager
