import Pager.Proofs.Pinning
import Pager.Proofs.Snapshot

/-!
A claim that fails loses nothing. The search for a frame moves out one page at
most, and none if it fails itself; a frame that could not be filled goes back to
the pool, and the page that it was meant for is as it was. So a failure costs at
most one other page its frame, and no page its contents. Only a page that was filled
and whose entry the directory then refuses loses what it was filled with.
-/
namespace Pager

open Function

/-- What an entry says apart from the accessed bit, which a search may clear: the frame, and
whether the page may be written to and was. -/
def PageEntry.lasting (e : PageEntry .emulated) : Option PhysicalAddress × Bool × Bool :=
  (e.frame?, e.flags.has .writable, e.flags.has .dirty)

theorem PageEntry.lasting_setFlags (e : PageEntry .emulated) {flag : PageFlag} (up : Bool)
    (hp : flag ≠ .present) (hw : flag ≠ .writable) (hd : flag ≠ .dirty) :
    (e.setFlags (e.flags.set flag up)).lasting = e.lasting := by
  have hflag : ∀ other, flag ≠ other → (e.flags.set flag up).has other = e.flags.has other :=
    fun other hne => by rw [PageFlags.has_set, if_neg (Ne.symm hne)]
  unfold lasting
  rw [frame?_setFlags (hflag _ hp), has_flags_setFlags, has_flags_setFlags, hflag _ hw, hflag _ hd]

/-- What a search does to the pages that keep their frames. -/
def Label.Passes : Label → Prop
  | note | turn | mark | spare _ => True
  | _ => False

theorem Label.Passes.seeks {l : Label} (h : l.Passes) : l.Seeks := by
  cases l <;> first | exact h.elim | trivial

namespace Machine

variable {s t u : Machine} {pl other : Place} {p : Page} {f : FrameId} {fr : Frame} {id : SpaceId}
  {a : VirtualAddress}

/-- What the directories say of the pages, accessed bits apart. -/
def lasting (s : Machine) : Place → Option (Option PhysicalAddress × Bool × Bool) :=
  fun pl => (Pager.entryAt s.spaces pl).map PageEntry.lasting

/-- Every page keeps its frame, its slot, its translation and its dirty bit. -/
structure Unmoved (s t : Machine) : Prop where
  pages : Pager.pageAt t.spaces = Pager.pageAt s.spaces
  frames : t.frames.get? = s.frames.get?
  entries : t.lasting = s.lasting

/-- The page at `pl` is moved out, and its frame is no longer tracked. The others stay. -/
structure MovedOut (s t : Machine) (pl : Place) : Prop where
  page : ∃ p q, Pager.pageAt s.spaces pl = some p ∧ p.frame.isSome = true ∧ q.frame = none ∧
    q.resting = p.resting ∧ (q.type = .anonymous → q.slot.isSome = true) ∧
    Pager.pageAt t.spaces = update (Pager.pageAt s.spaces) pl (some q)
  frame : ∃ f fr, s.frames.get? f = some fr ∧ fr.owner = some pl.owner ∧
    t.frames.get? = update s.frames.get? f none
  entries : t.lasting = update s.lasting pl none

theorem Unmoved.refl : Unmoved s s := ⟨rfl, rfl, rfl⟩

theorem Unmoved.trans (h : Unmoved s t) (h' : Unmoved t u) : Unmoved s u :=
  ⟨h'.pages.trans h.pages, h'.frames.trans h.frames, h'.entries.trans h.entries⟩

theorem Unmoved.movedOut (h : Unmoved s t) (h' : MovedOut t u pl) : MovedOut s u pl := by
  obtain ⟨⟨p, q, hp, hrest⟩, ⟨f, fr, hf, ho, hframes⟩, hentries⟩ := h'
  rw [h.pages] at hp hrest
  rw [h.frames] at hf hframes
  rw [h.entries] at hentries
  exact ⟨⟨p, q, hp, hrest⟩, ⟨f, fr, hf, ho, hframes⟩, hentries⟩

theorem unmoved_of_move {l : Label} {s t : Machine} {held held' : Option FrameId}
    (hl : l.Passes) (hmove : Move l ⟨s, held⟩ ⟨t, held'⟩) : Unmoved s t := by
  cases hmove with
  | note | spare => exact ⟨rfl, rfl, rfl⟩
  | turn => exact ⟨rfl, FrameTable.get?_advance _, rfl⟩
  | @mark _ _ id sp hs a flag up hp hw hd =>
    refine ⟨pageAt_insert_of_eq hs rfl, rfl, ?_⟩
    have hentries := entryAt_insert (u := { sp with directory := sp.directory.set a flag up })
      (k := a.value)
      (e := (Pager.entryAt s.spaces ⟨id, a.value⟩).map fun e => e.setFlags (e.flags.set flag up))
      hs fun key => ?_
    · funext pl
      unfold lasting
      rw [hentries, update_apply]
      split
      · rename_i hpl
        rw [hpl, Option.map_map]
        exact Option.map_congr fun e _ => e.lasting_setFlags up hp hw hd
      · rfl
    · refine (Table.get?_modify ..).trans ?_
      rw [entryAt_of_get? hs]
      split
      · rename_i hkey
        rw [hkey]
      · rfl
  | _ => exact hl.elim

theorem unmoved_of_moves {held held' : Option FrameId}
    (hmoves : Moves Label.Passes ⟨s, held⟩ ⟨t, held'⟩) : Unmoved s t := by
  have h := hmoves.preserves (P := fun n => Unmoved s n.machine)
    (fun hl hm hmove => hm.trans (unmoved_of_move hl hmove)) .refl
  exact h

/-- How a search comes by a frame: from the pool, or from one page. -/
inductive Found (s : Machine) (f : FrameId) (t : Machine) : Prop
  | taken (move : Move .take ⟨s, none⟩ ⟨t, some f⟩)
  | evicted {pl : Place} {u : Machine} (evictions : Nat) (events : List Event)
      (move : Move (.evict pl) ⟨s, none⟩ ⟨u, some f⟩) (last : t = { u with evictions, events })

theorem scan_found_cases (h : Coherent ⟨s, none⟩) {steps : Nat} {full : Bool}
    {r : Except PagerError FrameId} (run : scan steps full s = .ok (r, t)) :
    (∃ e, r = .error e) ∧ Moves Label.Passes ⟨s, none⟩ ⟨t, none⟩ ∨
      ∃ f u, r = .ok f ∧ Moves Label.Passes ⟨s, none⟩ ⟨u, none⟩ ∧ Found u f t := by
  induction steps generalizing s full with
  | zero =>
    cases run
    exact .inl ⟨⟨_, rfl⟩, .single (.note ..) trivial⟩
  | succ steps ih =>
    have hturn : Moves Label.Passes ⟨s, none⟩ ⟨{ s with frames := s.frames.advance.2 }, none⟩ :=
      .single .turn trivial
    have hturned := h.turn
    -- the rest of the search, after moves that take no frame
    have hrest : ∀ {u : Machine} {full : Bool}, Moves Label.Passes ⟨s, none⟩ ⟨u, none⟩ →
        scan steps full u = .ok (r, t) →
        (∃ e, r = .error e) ∧ Moves Label.Passes ⟨s, none⟩ ⟨t, none⟩ ∨
          ∃ f v, r = .ok f ∧ Moves Label.Passes ⟨s, none⟩ ⟨v, none⟩ ∧ Found v f t := by
      intro u full hu hscan
      rcases ih (h.moves hu) hscan with ⟨he, hmoves⟩ | ⟨f, v, hr, hmoves, hfound⟩
      · exact .inl ⟨he, hu.trans hmoves⟩
      · exact .inr ⟨f, v, hr, hu.trans hmoves, hfound⟩
    cases scan_cases h run with
    | ended events => exact .inl ⟨⟨_, rfl⟩, hturn.tail (.note ..) trivial⟩
    | passed hscan => exact hrest hturn hscan
    | evicted evictions events _ _ _ hmove =>
      exact .inr ⟨_, _, rfl, hturn, .evicted evictions events hmove rfl⟩
    | turned hmove hscan => exact hrest (hturn.tail hmove trivial) hscan
    | spared hmove hscan => exact hrest (hturn.tail hmove trivial) hscan
    | failed hmove => exact .inl ⟨⟨_, rfl⟩, hturn.tail hmove trivial⟩

/-- A search that fails leaves every page in its frame, and any other takes at most one. -/
theorem obtainFrame_found_cases (h : Coherent ⟨s, none⟩) {r : Except PagerError FrameId}
    (run : obtainFrame s = .ok (r, t)) :
    (∃ e, r = .error e) ∧ Moves Label.Passes ⟨s, none⟩ ⟨t, none⟩ ∨
      ∃ f u, r = .ok f ∧ Moves Label.Passes ⟨s, none⟩ ⟨u, none⟩ ∧ Found u f t := by
  rcases obtainFrame_cases run with ⟨f, rfl, hmove⟩ | ⟨steps, hscan⟩
  · exact .inr ⟨f, s, rfl, .refl, .taken hmove⟩
  · exact scan_found_cases h hscan

/-- The frame in hand goes back, and no page has changed. -/
theorem abandons_cases {held : Option FrameId} (h : Coherent ⟨s, some f⟩)
    (hmoves : Moves Label.Abandons ⟨s, some f⟩ ⟨t, held⟩) :
    t.spaces = s.spaces ∧ (held = none → t.frames.get? = update s.frames.get? f none) := by
  have hend := h.preserves (P := fun n => n.machine.spaces = s.spaces ∧
      (n.held = some f ∧ n.machine.frames = s.frames ∨
        n.held = none ∧ n.machine.frames.get? = update s.frames.get? f none)) hmoves
    (fun {l m n} hl hc hm hmove => ?_) ⟨rfl, .inl ⟨rfl, rfl⟩⟩
  · refine ⟨hend.1, fun hheld => ?_⟩
    rcases hend.2 with ⟨hf, -⟩ | ⟨-, hframes⟩
    · cases hheld.symm.trans hf
    · exact hframes
  · obtain ⟨hspaces, hframes⟩ := hm
    cases hmove with
    | request | scribble | attempt => exact ⟨hspaces, hframes⟩
    | giveBack hr =>
      rcases hframes with ⟨⟨⟩, hframes⟩ | ⟨⟨⟩, -⟩
      refine ⟨hspaces, .inr ⟨rfl, ?_⟩⟩
      rw [← hframes]
      exact (FrameTable.remove_spec hc.frames hr).2.1
    | _ => exact hl.elim

/-- If the search took a frame and gave it up, no page has moved but one at most. -/
theorem Found.abandoned (hfound : Found s f t) (h : Coherent ⟨s, none⟩)
    (hspaces : u.spaces = t.spaces) (hframes : u.frames.get? = update t.frames.get? f none) :
    Unmoved s u ∨ ∃ pl, MovedOut s u pl := by
  have hlasting : u.lasting = t.lasting := by
    unfold lasting
    rw [hspaces]
  cases hfound with
  | taken hmove =>
    cases hmove with
    | take hfree =>
      obtain ⟨hnone, hget, -⟩ := FrameTable.insert_spec h.frames _
      refine .inl ⟨congrArg Pager.pageAt hspaces, hframes.trans ?_, hlasting⟩
      funext g
      rw [hget, update_idem, update_apply]
      split
      · rename_i hg
        rw [hg, hnone]
      · rfl
  | @evicted pl v evictions events hmove hlast =>
    subst hlast
    cases hmove with
    | @evict _ _ _ fr sp p out hf ho hs hp hout =>
      have hget := (FrameTable.put_spec h.frames (Option.isSome_of_eq_some hf)
        { fr with owner := none, pinned := false }).1
      have hres := h.resident_of_owner hf ho hs hp
      have hsame : ({ out.page with frame := none } : Page).resting = p.resting ∧
          (({ out.page with frame := none } : Page).type = .anonymous →
            ({ out.page with frame := none } : Page).slot.isSome = true) := by
        cases Transfer.evict_eq_ok hout with
        | parked hkind =>
          have hkind : p.kind = .anonymous none := hkind
          exact ⟨by simp [Page.resting, hkind], fun _ => rfl⟩
        | filed hkind =>
          have hkind : p.kind = .fileBacked _ := hkind
          refine ⟨rfl, fun htype => ?_⟩
          simp [Page.type, hkind] at htype
      refine .inr ⟨pl, ⟨p, { out.page with frame := none }, Coherent.pageAt_eq hs hp, ?_, rfl,
        hsame.1, hsame.2, ?_⟩, ⟨f, fr, hf, ho, ?_⟩, ?_⟩
      · rw [hres]
        rfl
      · rw [hspaces]
        exact Coherent.pageAt_put hs _ rfl
      · rw [hframes, hget, update_idem]
      · rw [hlasting]
        unfold lasting
        funext other
        rw [show Pager.entryAt (s.spaces.insert pl.space _) =
            update (Pager.entryAt s.spaces) pl none from Coherent.entryAt_unmap hs rfl,
          update_apply, update_apply]
        split <;> rfl

/-- What nobody loses when the page at `pl` could not be made resident. -/
structure Preserves (s t : Machine) (pl : Place) : Prop where
  registered : t.roster = s.roster
  target : Pager.pageAt t.spaces pl = Pager.pageAt s.spaces pl
  absent : ∀ p, Pager.pageAt s.spaces pl = some p → p.frame = none
  bound : ∀ f fr, t.frames.get? f = some fr → ∃ other p, fr.owner = some (Place.owner other) ∧
    Pager.pageAt t.spaces other = some p ∧ p.frame = some f
  tracked : ∀ n, t.pool.isTaken n = true →
    ∃ f fr, t.frames.get? f = some fr ∧ fr.address = FramePool.addressOf n
  pins : ∀ f fr, t.frames.get? f = some fr → fr.pinned = true → s.frames.get? f = some fr
  frames : t.frames.live + t.pool.freeCount = s.frames.live + s.pool.freeCount
  contents : ∀ other p q, Pager.pageAt s.spaces other = some p →
    Pager.pageAt t.spaces other = some q → p.type = .anonymous → p.isInitialized = true →
      t.contents q = s.contents p

theorem frameless_of_page (hp : Pager.pageAt s.spaces pl = some p) (habs : p.frame = none) :
    ∀ q, Pager.pageAt s.spaces pl = some q → q.frame = none := by
  intro q hq
  cases hp.symm.trans hq
  exact habs

/-- Frames are searched for and given up. -/
def Forgoes (l : Label) : Prop := l.Seeks ∨ l.Abandons

theorem preserves_of_moves (h : Coherent ⟨s, none⟩) (hmoves : Moves Forgoes ⟨s, none⟩ ⟨t, none⟩)
    (htarget : Pager.pageAt t.spaces pl = Pager.pageAt s.spaces pl)
    (habsent : ∀ p, Pager.pageAt s.spaces pl = some p → p.frame = none) : Preserves s t pl := by
  have ht := h.moves hmoves
  have hforgoes : ∀ l : Label, Forgoes l → l.place? = none ∧ l.enrols? = none ∧ l ≠ .pin := by
    rintro l (hl | hl) <;> cases l <;>
      first
        | exact hl.elim
        | exact ⟨rfl, rfl, by simp⟩
  have hroster : t.roster = s.roster := h.roster_still_moves hmoves fun l hl => (hforgoes l hl).2.1
  have hflat : t.flat = s.flat := h.flat_still_moves hmoves fun l hl => (hforgoes l hl).1
  refine ⟨hroster, htarget, habsent, fun f fr hf => ?_, fun n hn => ht.backed.taken_frame hn,
    h.pins s.loose hmoves fun l hl => (hforgoes l hl).2.2, h.live_add_free_moves hmoves,
    fun other p q hp hq htype hinit => ?_⟩
  · have hbound : fr.owner ≠ none := fun ho => by cases (ht.linked.held_iff hf).1 ho
    obtain ⟨o, ho⟩ := Option.ne_none_iff_exists'.1 hbound
    obtain ⟨p, hp, hres⟩ := ht.linked.owner_page hf ho
    exact ⟨⟨o.space, o.page.value⟩, p, ho, hp, hres⟩
  · exact contents_of_same hp hq (congrFun hflat other) htype hinit

/-- The space's directory refuses entries, for the reason told. -/
def Refuses (s : Machine) (id : SpaceId) (e : PagerError) : Prop :=
  ∃ sp, s.spaces.get? id = some sp ∧ sp.refusesEntries = some e

/-- A frame is found for the page at `pl`, which has none, and filling the page into it comes to
`r`. -/
def Attempts (s : Machine) (pl : Place) (r : Except PagerError Unit) : Prop :=
  ∃ f u p v, obtainFrame s = .ok (.ok f, u) ∧ Pager.pageAt s.spaces pl = some p ∧ p.frame = none ∧
    Transfer.populate ⟨p, u.frameBytes f, u.swap, u.files, []⟩ = .ok (r, v)

/-- The page at `pl` is filled into a frame, and then the directory refuses the entry for it. -/
def Declines (s : Machine) (pl : Place) (e : PagerError) : Prop :=
  s.Attempts pl (.ok ()) ∧ s.Refuses pl.space e

/-- Where a claim of the page at `pl` failed, and what that has cost: nothing, or another page its
frame if one was found but could not be filled. An entry that was refused costs the page itself
what it was filled with. -/
inductive Failed (s t : Machine) (pl : Place) (e : PagerError) : Prop
  | unregistered (absent : Pager.pageAt s.spaces pl = none) (error : e = .notMapped) (same : t = s)
  | frameless (search : obtainFrame s = .ok (.error e, t)) (kept : Unmoved s t)
  | unfilled (attempt : s.Attempts pl (.error e))
      (kept : Unmoved s t ∨ ∃ other, other ≠ pl ∧ MovedOut s t other)
  | declined (declines : s.Declines pl e)

theorem refuses_iff {e : PagerError} :
    s.Refuses id e ↔ (s.books id).bind Space.refusesEntries = some e := by
  unfold Refuses books
  rw [Option.bind_map]
  exact Option.bind_eq_some_iff.symm

/-- The search for a frame does not change what a directory answers. -/
theorem refuses_search (h : Coherent ⟨s, none⟩) {r : Except PagerError FrameId} {u : Machine}
    (hsearch : obtainFrame s = .ok (r, u)) {e : PagerError} : u.Refuses id e ↔ s.Refuses id e := by
  have hbooks : u.books id = s.books id :=
    (obtainFrame_moves h hsearch).books_kept (fun l hl => by
      cases l <;> first | exact hl.elim | trivial) id
  rw [refuses_iff, refuses_iff, hbooks]

/-- A claim whose entry was refused had found a frame and filled the page. -/
theorem declines_of_lose (h : Coherent ⟨s, none⟩) {e : PagerError} {sp : Space} {m : Moment}
    (hp : Pager.pageAt s.spaces pl = some p) (habs : p.frame = none)
    (hsearch : obtainFrame s = .ok (.ok f, u)) (hs : u.spaces.get? pl.space = some sp)
    (hrefuses : sp.refusesEntries = some e) (hlost : Move (.lose pl) ⟨u, some f⟩ m) :
    s.Declines pl e := by
  have hpage := pageAt_of_seeks h (obtainFrame_moves h hsearch) hp habs
  cases hlost with
  | @lose _ _ _ _ _ q v _ _ hf hs' hq _ hfilled =>
    cases hpage.symm.trans (Coherent.pageAt_eq hs' hq)
    rw [← frameBytes_of_get? hf] at hfilled
    exact ⟨⟨f, u, p, v, hsearch, hp, habs, hfilled⟩,
      (refuses_search h hsearch).1 ⟨sp, hs, hrefuses⟩⟩

theorem claim_failed (h : Coherent ⟨s, none⟩) {e : PagerError}
    (run : claim id a s = .ok (.error e, t)) :
    (¬ s.Declines (.of id a) e → Preserves s t (.of id a)) ∧ Failed s t (.of id a) e := by
  have hseeks : ∀ l : Label, l.Seeks → Forgoes l := fun l => .inl
  cases claim_cases h run with
  | unregistered hnone =>
    refine ⟨fun _ => preserves_of_moves h .refl rfl fun p hp => ?_, .unregistered hnone rfl rfl⟩
    cases hnone.symm.trans hp
  | @frameless p _ _ hp habs hsearch =>
    have habsent := frameless_of_page hp habs
    obtain ⟨-, hmoves⟩ | ⟨f, u, hr, -⟩ := obtainFrame_found_cases h hsearch
    · have hkept := unmoved_of_moves hmoves
      refine ⟨fun _ => preserves_of_moves h (hmoves.mono fun l hl => .inl hl.seeks) ?_ habsent,
        .frameless hsearch hkept⟩
      rw [hkept.pages]
    · cases hr
  | @abandoned p f fr _ u _ v hp habs hsearch hf hfails _ hmoves =>
    have habsent := frameless_of_page hp habs
    have hfirst := obtainFrame_moves h hsearch
    have hall : Moves Forgoes ⟨s, none⟩ ⟨t, none⟩ :=
      (hfirst.mono hseeks).trans (hmoves.mono fun l hl => .inr hl)
    obtain ⟨hspaces, hframes⟩ := abandons_cases (h.moves hfirst) hmoves
    have htarget : Pager.pageAt t.spaces (.of id a) = Pager.pageAt s.spaces (.of id a) := by
      rw [hspaces, pageAt_of_seeks h hfirst hp habs, hp]
    rw [← frameBytes_of_get? hf] at hfails
    refine ⟨fun _ => preserves_of_moves h hall htarget habsent,
      .unfilled ⟨f, u, p, v, hsearch, hp, habs, hfails⟩ ?_⟩
    obtain ⟨⟨e', hr⟩, -⟩ | ⟨g, v, hr, hpasses, hfound⟩ := obtainFrame_found_cases h hsearch
    · cases hr
    · cases hr
      have hv := h.moves hpasses
      have hunmoved := unmoved_of_moves hpasses
      rcases hfound.abandoned hv hspaces (hframes rfl) with hkept | ⟨other, hout⟩
      · exact .inl (hunmoved.trans hkept)
      · have hout := hunmoved.movedOut hout
        refine .inr ⟨other, ?_, hout⟩
        rintro rfl
        obtain ⟨q, -, hq, hres, -⟩ := hout.page
        rw [habsent q hq] at hres
        cases hres
  | refused hp habs hsearch hs hrefuses _ hlost =>
    obtain ⟨m, hlost⟩ := hlost
    have hdeclines := declines_of_lose h hp habs hsearch hs hrefuses hlost
    exact ⟨fun hnot => absurd hdeclines hnot, .declined hdeclines⟩

/-- A claim or pin that fails loses nothing, whatever it failed for: that no page is registered,
that no frame can be had, an initializer or a device. What the space's own directory refuses once
the page was filled is another matter. -/
theorem Reachable.failed_claim (hs : Reachable s) {address : Nat} {op : SpaceOp}
    (hop : op = .claim ∨ op = .pin) {e : PagerError}
    (run : step (.onSpace id address op) s = .ok (.error (.pager e), t)) :
    (¬ s.Declines (.of id ⟨address⟩) e → Preserves s t (.of id ⟨address⟩)) ∧
      Failed s t (.of id ⟨address⟩) e := by
  have h := hs.coherent
  rcases requireIdle_cases run with ⟨sp, -, -, hrun⟩ | ⟨⟨reason, hr⟩, -⟩
  · obtain ⟨b, hb, hrun⟩ := Action.liftM_bind_eq_ok.1 hrun
    obtain ⟨-, rfl⟩ := Address.make_eq_ok.1 hb
    rcases hop with rfl | rfl
    · obtain ⟨q, hq, hr⟩ := liftPager_eq_ok.1 hrun
      cases q with
      | ok f => cases hr
      | error e' =>
        cases hr
        exact claim_failed h hq
    · obtain ⟨q, hq, hr⟩ := liftPager_eq_ok.1 hrun
      cases q with
      | ok => cases hr
      | error e' =>
        cases hr
        rcases pin_cases hq with ⟨e', hr, hclaim⟩ | ⟨hr, -⟩
        · cases hr
          exact claim_failed h hclaim
        · cases hr
  · cases hr

/-- On a machine of one frame one space stores to a page, and another has a page of a file that can
no longer be read. -/
def unreadable : List Op := [.createSpace, .createSpace,
  .onSpace 1 0x10000 (.registerAnonymous true), .onSpace 2 0x20000 (.register false .fileBacked none
    { file := some (FileStore.firstHandle 0), readBytes := 1, zeroBytes := 4095 }),
  .onSpace 1 0x10000 (.copyTo [7]),
  .switchFile (FileStore.firstHandle 0) { failReads := some fun _ => true }]

/-- The other space's page is moved out in vain, and still holds what was stored. -/
theorem failed_claim_of_unreadable : ∃ s t p q, Reachable s ∧
    step (.onSpace 2 0x20000 .pin) s = .ok (.error (.pager (.store .device)), t) ∧
    Preserves s t (.of 2 ⟨0x20000⟩) ∧ MovedOut s t (.of 1 ⟨0x10000⟩) ∧
    s.page? 1 ⟨0x10000⟩ = some p ∧ t.page? 1 ⟨0x10000⟩ = some q ∧
    t.contents q = s.contents p ∧ (s.contents p).take 1 = [7] := by
  have hend : (boot 1 64 [[5]] >>= fun start => run unreadable start >>= fun last =>
      step (.onSpace 2 0x20000 .pin) last.2 >>= fun claimed =>
        .ok (decide (claimed.1.map (fun _ => ()) = .error (.pager (.store .device))),
          ((last.2.spaces.get? 2).bind Space.refusesEntries).isSome,
          (last.2.page? 1 ⟨0x10000⟩).map (fun p =>
            if p.frame = some 0 ∧ p.type = .anonymous ∧ p.isInitialized = true
              then (last.2.contents p).take 1 else []),
          (claimed.2.page? 1 ⟨0x10000⟩).map Page.frame)) =
      .ok (true, false, some [7], some none) := by decide +kernel
  obtain ⟨start, hboot, hend⟩ := except_bind_eq_ok.1 hend
  obtain ⟨⟨results, s⟩, hrun, hend⟩ := except_bind_eq_ok.1 hend
  obtain ⟨⟨r, t⟩, hpin, hend⟩ := except_bind_eq_ok.1 hend
  obtain ⟨hr, hrest⟩ := Prod.mk.inj (Except.ok.inj hend)
  obtain ⟨hanswer, hrest⟩ := Prod.mk.inj hrest
  obtain ⟨hbefore, hafter⟩ := Prod.mk.inj hrest
  obtain ⟨p, hp, hbefore⟩ := Option.map_eq_some_iff.1 hbefore
  obtain ⟨q, hq, hout⟩ := Option.map_eq_some_iff.1 hafter
  rw [ite_eq_iff] at hbefore
  obtain ⟨⟨hin, htype, hinit⟩, hbytes⟩ | ⟨-, hnil⟩ := hbefore
  swap
  · cases hnil
  obtain rfl : r = .error (.pager (.store .device)) := by
    cases r with
    | ok v => cases of_decide_eq_true hr
    | error e => exact congrArg Except.error (Except.error.inj (of_decide_eq_true hr))
  have hs : Reachable s := ⟨1, 64, [[5]], unreadable, start, results, hboot, hrun⟩
  have hwilling : ¬ s.Declines (.of 2 ⟨0x20000⟩) (.store .device) := by
    rintro ⟨-, sp, hsp, hrefuses⟩
    have hsp : s.spaces.get? 2 = some sp := hsp
    dsimp only at hanswer
    rw [hsp, Option.bind_some, hrefuses] at hanswer
    cases hanswer
  obtain ⟨hpreserves, hfailed⟩ := hs.failed_claim (.inr rfl) hpin
  have hkept := hpreserves hwilling
  have hpage : Pager.pageAt s.spaces (.of 1 ⟨0x10000⟩) = some p := hp
  have hpage' : Pager.pageAt t.spaces (.of 1 ⟨0x10000⟩) = some q := hq
  -- the page has left its frame, so it is the one that was moved out
  have hmoved : Pager.pageAt t.spaces (.of 1 ⟨0x10000⟩) ≠
      Pager.pageAt s.spaces (.of 1 ⟨0x10000⟩) := by
    rw [hpage, hpage']
    rintro ⟨⟩
    cases hin.symm.trans hout
  refine ⟨s, t, p, q, hs, hpin, hkept, ?_, hp, hq,
    hkept.contents _ p q hpage hpage' htype hinit, hbytes⟩
  cases hfailed with
  | unregistered _ he => cases he
  | frameless _ hunmoved => exact absurd (congrFun hunmoved.pages _) hmoved
  | declined hdeclines => exact absurd hdeclines hwilling
  | unfilled _ hcase =>
    rcases hcase with hunmoved | ⟨other, -, hother⟩
    · exact absurd (congrFun hunmoved.pages _) hmoved
    · by_cases heq : Place.of 1 ⟨0x10000⟩ = other
      · rw [heq]
        exact hother
      · obtain ⟨p', q', -, -, -, -, -, hpages⟩ := hother.page
        refine absurd ?_ hmoved
        rw [hpages, update_of_ne heq]

end Machine
end Pager
