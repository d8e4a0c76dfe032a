import Pager.Proofs.Agreement
import Pager.Proofs.Duplication

/-!
A copy of a space is a snapshot of its anonymous memory, or it is nothing. The pages
that the child gets rest as the parent's do and hold what they hold, and nothing else
of any space has changed but where its pages lie, although the search for the child's
frames moves pages of both out while they are copied.
-/
namespace Pager

open Function

namespace Label

theorem Inherits.enrols?_ne {l : Label} {id : SpaceId} (h : l.Inherits id) {pl : Place}
    (hne : pl.space ≠ id) : l.enrols? ≠ some pl := by
  intro hl
  cases l with
  | register other _ =>
    cases hl
    exact hne h.1
  | _ => cases hl <;> cases h

theorem Clears.enrols?_ne {l : Label} {id : SpaceId} (h : l.Clears id) {pl : Place}
    (hne : pl.space ≠ id) : l.enrols? ≠ some pl := by
  intro hl
  cases l with
  | remove other _ =>
    cases hl
    exact hne h
  | _ => cases hl <;> cases h

end Label

namespace Machine

variable {s t : Machine} {parent child : SpaceId} {refuses : Option PagerError}
  {r : Except PagerError SpaceId}

/-- Every space but the child has the pages it had, and they hold what they held. -/
structure Undisturbed (s t : Machine) (child : SpaceId) : Prop where
  registered : ∀ pl : Place, pl.space ≠ child → t.roster pl = s.roster pl
  contents : ∀ (pl : Place) p q, pl.space ≠ child → Pager.pageAt s.spaces pl = some p →
    Pager.pageAt t.spaces pl = some q → p.type = .anonymous → p.isInitialized = true →
      q.isInitialized = true ∧ t.contents q = s.contents p

/-- The child in `t` is a copy of the anonymous memory of the parent in `s`. -/
structure Copied (s t : Machine) (parent child : SpaceId) : Prop where
  fresh : s.spaces.get? child = none
  /-- The child has no mappings, and the user's stack pointer as the parent has it. -/
  space : ∃ sp sc, s.spaces.get? parent = some sp ∧ t.spaces.get? child = some sc ∧
    sc.mappings = .empty ∧ sc.stackPointer = sp.stackPointer
  registered : ∀ key, (Pager.pageAt t.spaces ⟨child, key⟩).isSome = true ↔
    ∃ p, Pager.pageAt s.spaces ⟨parent, key⟩ = some p ∧ p.type = .anonymous
  alike : ∀ key p q, Pager.pageAt s.spaces ⟨parent, key⟩ = some p →
    Pager.pageAt t.spaces ⟨child, key⟩ = some q →
      q.address = p.address ∧ q.writable = p.writable ∧ q.stack = p.stack ∧
        q.type = p.type ∧ q.mapping = none ∧ q.isInitialized = p.isInitialized ∧
          (q.isInitialized = true → t.contents q = s.contents p)
  apart : ∀ key key' p q, Pager.pageAt t.spaces ⟨parent, key⟩ = some p →
    Pager.pageAt t.spaces ⟨child, key'⟩ = some q →
      (∀ f, p.frame = some f → q.frame ≠ some f) ∧ ∀ n, p.slot = some n → q.slot ≠ some n

/-- No frame and no slot is owned by the child, which does not exist. -/
structure Vanished (t : Machine) (child : SpaceId) : Prop where
  gone : t.spaces.get? child = none
  frames : ∀ f fr, t.frames.get? f = some fr → ∃ pl p, fr.owner = some (Place.owner pl) ∧
    pl.space ≠ child ∧ Pager.pageAt t.spaces pl = some p ∧ p.frame = some f
  slots : ∀ n, t.swap.isUsed n = true → ∃ pl p, pl.space ≠ child ∧
    Pager.pageAt t.spaces pl = some p ∧ p.slot = some n

/-- On the roster the child has the parent's anonymous pages, and if it failed, none. -/
theorem duplicate_roster (h : Coherent ⟨s, none⟩)
    (run : duplicate parent refuses s = .ok (r, t)) :
    (∀ pl : Place, pl.space ≠ s.nextSpace → t.roster pl = s.roster pl) ∧
      (r = .ok s.nextSpace → ∀ key,
        t.roster ⟨s.nextSpace, key⟩ = anonymousOf (s.roster ⟨parent, key⟩)) := by
  have hfresh := h.fresh s.nextSpace (Nat.le_refl _)
  have hvacant : ∀ pl : Place, pl.space = s.nextSpace → s.roster pl = none := by
    intro pl hpl
    refine roster_of_none ?_
    rw [Pager.pageAt, hpl, hfresh, Option.bind_none]
  obtain ⟨sp, v, w, hs, htrace, -, hcase⟩ := duplicate_cases h run
  have hne : parent ≠ s.nextSpace := by
    rintro rfl
    rw [hfresh] at hs
    cases hs
  have hprepared : Moves (fun l => l.enrols? = none) ⟨s, none⟩ ⟨v, none⟩ :=
    .of_trace htrace (by simp [Label.enrols?])
  have hroster : v.roster = s.roster := h.roster_still_moves hprepared fun l hl => hl
  have hv := h.moves hprepared
  have haligned := aligned_addresses h hs
  have helsewhere : ∀ {q}, duplicatePages parent s.nextSpace sp.pages.addresses v = .ok (q, w) →
      ∀ pl : Place, pl.space ≠ s.nextSpace → w.roster pl = s.roster pl := by
    intro q hpages pl hpl
    rw [← congrFun hroster]
    exact hv.roster_elsewhere_moves (duplicatePages_moves hv haligned hpages)
      fun l hl => hl.enrols?_ne hpl
  rcases hcase with ⟨rfl, hpages, hlast, -⟩ | ⟨e, rfl, hpages, hteardown⟩
  · have hw := hv.moves (duplicatePages_moves hv haligned hpages)
    have hreported : t.roster = w.roster := hw.roster_still_moves (.of_trace hlast (by
      simp [Label.enrols?]) : Moves (fun l => l.enrols? = none) _ _) fun l hl => hl
    refine ⟨fun pl hpl => by rw [hreported, helsewhere hpages pl hpl], fun _ key => ?_⟩
    have hcopied := duplicatePages_shows roster anonymousOf hne
      (fun hc hk _ hnone hrun => duplicatePage_roster hc hk hnone hrun)
      hv haligned (by
        rw [value_addresses]
        exact (Table.sorted_keys _).imp Nat.ne_of_lt) (fun a _ => by
          rw [hroster]
          exact hvacant _ rfl) hpages
    rw [hreported, hcopied, hroster]
    dsimp only
    split
    · rfl
    · rename_i hkey
      have hnone : Pager.pageAt s.spaces ⟨parent, key⟩ = none := by
        refine (pageAt_of_get? hs _).trans ?_
        rw [Table.get?_eq_none_iff, ← value_addresses]
        exact fun hmem => hkey ⟨rfl, hmem⟩
      rw [hvacant _ rfl, roster_of_none hnone]
      rfl
  · have hw := hv.moves (duplicatePages_moves hv haligned hpages)
    obtain ⟨-, hclear, -⟩ := teardown_moves hw hteardown
    refine ⟨fun pl hpl => ?_, fun hr => by cases hr⟩
    rw [← helsewhere hpages pl hpl]
    exact hw.roster_elsewhere_moves hclear fun l hl => hl.enrols?_ne hpl

/-- The books of the child are new, apart from the stack pointer. -/
theorem duplicate_space (h : Coherent ⟨s, none⟩)
    (run : duplicate parent refuses s = .ok (.ok s.nextSpace, t)) :
    ∃ sp sc, s.spaces.get? parent = some sp ∧ t.spaces.get? s.nextSpace = some sc ∧
      sc.mappings = .empty ∧ sc.stackPointer = sp.stackPointer := by
  obtain ⟨sp, v, w, hs, htrace, hv, ⟨-, hpages, -, ht⟩ | ⟨e, hr, -⟩⟩ := duplicate_cases h run
  · have hcoherent := h.moves (.of_trace htrace fun l _ => (trivial : (fun _ => True) l))
    have hbooks : w.books s.nextSpace = v.books s.nextSpace :=
      (duplicatePages_moves hcoherent (aligned_addresses h hs) hpages).books_kept
        (fun l hl => hl.bookless) s.nextSpace
    have hchild : v.books s.nextSpace =
        some { stackPointer := sp.stackPointer, refusesEntries := refuses } := by
      rw [books, hv, Table.get?_insert_self]
      rfl
    rw [hchild] at hbooks
    obtain ⟨sc, hsc, hsame⟩ := Option.map_eq_some_iff.1 hbooks
    have hmappings := congrArg Space.mappings hsame
    have hstack := congrArg Space.stackPointer hsame
    refine ⟨sp, { sc with refusesEntries := none }, hs, ?_, hmappings, hstack⟩
    rw [ht, Table.get?_modify, if_pos rfl, hsc]
    rfl
  · cases hr

/-- Pages of two spaces share nothing. -/
theorem apart_of_ne (h : Coherent ⟨s, none⟩) {pl pl' : Place} (hne : pl ≠ pl') {p q : Page}
    (hp : Pager.pageAt s.spaces pl = some p) (hq : Pager.pageAt s.spaces pl' = some q) :
    (∀ f, p.frame = some f → q.frame ≠ some f) ∧ ∀ n, p.slot = some n → q.slot ≠ some n := by
  constructor
  · intro f hf hf'
    exact hne (h.linked.place_unique hp hf hq hf')
  · intro n hn hn'
    refine hne (h.parked.unique (n := n) ?_ ?_)
    · rw [slotsOf, show Pager.pageAt s.spaces pl = some p from hp, Option.bind_some, hn]
    · rw [slotsOf, show Pager.pageAt s.spaces pl' = some q from hq, Option.bind_some, hn']

/-- What is left of a populated anonymous page where its cell and its registration are the same. -/
theorem contents_of_same {pl pl' : Place} {p q : Page} (hp : Pager.pageAt s.spaces pl = some p)
    (hq : Pager.pageAt t.spaces pl' = some q) (hflat : t.flat pl' = s.flat pl)
    (htype : p.type = .anonymous) (hinit : p.isInitialized = true) :
    t.contents q = s.contents p := by
  have hcell : s.cell p = some (.holding (s.contents p)) := by
    cases hkind : p.kind with
    | unpopulated u => simp [Page.isInitialized, hkind] at hinit
    | anonymous slot => exact cell_of_anonymous hkind
    | fileBacked file => simp [Page.type, hkind] at htype
  apply contents_of_cell
  rw [← flat_of_page hq, hflat, flat_of_page hp, hcell]

theorem duplicate_undisturbed (h : Coherent ⟨s, none⟩)
    (run : duplicate parent refuses s = .ok (r, t)) : Undisturbed s t s.nextSpace := by
  have hroster := (duplicate_roster h run).1
  have hflat : ∀ pl : Place, pl.space ≠ s.nextSpace → t.flat pl = s.flat pl := by
    intro pl hpl
    obtain ⟨w, -, ⟨-, -, hflat⟩ | ⟨-, -, -, hflat⟩⟩ := duplicate_moves h run
    · rw [hflat]
      exact if_neg hpl
    · rw [hflat]
  refine ⟨hroster, fun pl p q hpl hp hq htype hinit => ⟨?_, ?_⟩⟩
  · have hsame := hroster pl hpl
    rw [roster_of_page hp, roster_of_page hq] at hsame
    rw [← Page.isInitialized_resting, Option.some.inj hsame, Page.isInitialized_resting, hinit]
  · exact contents_of_same hp hq (hflat pl hpl) htype hinit

theorem duplicate_copied (h : Coherent ⟨s, none⟩)
    (run : duplicate parent refuses s = .ok (.ok s.nextSpace, t)) :
    Copied s t parent s.nextSpace := by
  have ht : Coherent ⟨t, none⟩ := by
    obtain ⟨w, hmoves, ⟨-, rfl, -⟩ | ⟨⟨e, hr⟩, -⟩⟩ := duplicate_moves h run
    · exact h.moves hmoves
    · cases hr
  have hflat : ∀ key, t.flat ⟨s.nextSpace, key⟩ = s.flat ⟨parent, key⟩ := by
    obtain ⟨w, -, ⟨-, -, hflat⟩ | ⟨⟨e, hr⟩, -⟩⟩ := duplicate_moves h run
    · intro key
      rw [hflat]
      exact if_pos rfl
    · cases hr
  have hroster := (duplicate_roster h run).2 rfl
  have hsource : ∀ {key q}, Pager.pageAt t.spaces ⟨s.nextSpace, key⟩ = some q →
      ∃ p, Pager.pageAt s.spaces ⟨parent, key⟩ = some p ∧ p.type = .anonymous ∧
        q.resting = p.resting := by
    intro key q hq
    have hsame := hroster key
    rw [roster_of_page hq, anonymousOf, eq_comm, Option.filter_eq_some_iff] at hsame
    obtain ⟨hparent, htype⟩ := hsame
    obtain ⟨p, hp, hpq⟩ := roster_eq_some_iff.1 hparent
    refine ⟨p, hp, ?_, hpq.symm⟩
    rw [← Page.type_resting, hpq]
    simpa using htype
  refine ⟨h.fresh _ (Nat.le_refl _), duplicate_space h run, fun key => ⟨fun hsome => ?_, ?_⟩, ?_, ?_⟩
  · obtain ⟨q, hq⟩ := Option.isSome_iff_exists.1 hsome
    obtain ⟨p, hp, htype, -⟩ := hsource hq
    exact ⟨p, hp, htype⟩
  · rintro ⟨p, hp, htype⟩
    have hsame := hroster key
    rw [roster_of_page hp, anonymousOf, Option.filter_some, if_pos (by simp [htype])] at hsame
    obtain ⟨q, hq, -⟩ := roster_eq_some_iff.1 hsame
    rw [hq]
    rfl
  · intro key p q hp hq
    obtain ⟨p', hp', htype, hsame⟩ := hsource hq
    rw [hp] at hp'
    cases hp'
    have hmapping : p.mapping = none := by
      cases hm : p.mapping with
      | none => rfl
      | some mapping =>
        have hfile := h.typed _ _ hp (by rw [hm]; rfl)
        rw [htype] at hfile
        cases hfile
    have hinit : q.isInitialized = p.isInitialized := by
      rw [← Page.isInitialized_resting, hsame, Page.isInitialized_resting]
    refine ⟨?_, ?_, ?_, ?_, ?_, hinit,
      fun hq' => contents_of_same hp hq (hflat key) htype (hinit ▸ hq')⟩
    · rw [← Page.address_resting, hsame, Page.address_resting]
    · rw [← Page.writable_resting, hsame, Page.writable_resting]
    · rw [← Page.stack_resting, hsame, Page.stack_resting]
    · rw [← Page.type_resting, hsame, Page.type_resting]
    · rw [← Page.mapping_resting, hsame, Page.mapping_resting, hmapping]
  · intro key key' p q hp hq
    refine apart_of_ne ht (fun he => ?_) hp hq
    obtain ⟨sp, -, hs, -⟩ := duplicate_space h run
    have hparent : parent = s.nextSpace := congrArg Place.space he
    rw [hparent, h.fresh _ (Nat.le_refl _)] at hs
    cases hs

theorem duplicate_vanished (h : Coherent ⟨s, none⟩) {e : PagerError}
    (run : duplicate parent refuses s = .ok (.error e, t)) : Vanished t s.nextSpace := by
  obtain ⟨w, hfound, ⟨hr, -⟩ | ⟨-, hclear, hspaces, -⟩⟩ := duplicate_moves h run
  · cases hr
  · have ht := (h.moves hfound).moves hclear
    have hgone : t.spaces.get? s.nextSpace = none := by
      rw [hspaces, Table.get?_erase, if_pos rfl]
    have hne : ∀ {pl p}, Pager.pageAt t.spaces pl = some p → pl.space ≠ s.nextSpace := by
      intro pl p hp hpl
      rw [Pager.pageAt, hpl, hgone] at hp
      cases hp
    refine ⟨hgone, fun f fr hf => ?_, fun n hn => ?_⟩
    · have hbound : fr.owner ≠ none := by
        intro ho
        cases (ht.linked.held_iff hf).1 ho
      obtain ⟨o, ho⟩ := Option.ne_none_iff_exists'.1 hbound
      obtain ⟨p, hp, hres⟩ := ht.linked.owner_page hf ho
      exact ⟨⟨o.space, o.page.value⟩, p, ho, hne hp, hp, hres⟩
    · obtain ⟨pl, hslot⟩ := (ht.parked.used_iff n).1 hn
      obtain ⟨p, hp, hn⟩ := Option.bind_eq_some_iff.1 hslot
      exact ⟨pl, p, hne hp, hp, hn⟩

/-- A copy is exact, or it leaves nothing behind, and in both cases it disturbs nobody. -/
theorem Reachable.duplicate_snapshot (hs : Reachable s)
    (run : duplicate parent refuses s = .ok (r, t)) :
    Undisturbed s t s.nextSpace ∧
      ((r = .ok s.nextSpace ∧ Copied s t parent s.nextSpace) ∨
        (∃ e, r = .error e) ∧ Vanished t s.nextSpace) := by
  have h := hs.coherent
  refine ⟨duplicate_undisturbed h run, ?_⟩
  cases r with
  | ok child =>
    obtain ⟨w, -, ⟨hr, -⟩ | ⟨⟨e, hr⟩, -⟩⟩ := duplicate_moves h run
    · cases hr
      exact .inl ⟨rfl, duplicate_copied h run⟩
    · cases hr
  | error e => exact .inr ⟨⟨e, rfl⟩, duplicate_vanished h run⟩

/-- Three pages are registered on a machine of one frame, and two of them are stored to. -/
def crowding : List Op := [.createSpace, .onSpace 1 0x10000 (.registerAnonymous true),
  .onSpace 1 0x11000 (.registerAnonymous true), .onSpace 1 0x12000 (.registerAnonymous false),
  .onSpace 1 0x10000 (.copyTo [7]), .onSpace 1 0x11000 (.copyTo [8])]

/-- One page of the parent is in a slot and one is moved out to make room for the child. -/
theorem duplicate_snapshot_of_crowding : ∃ s t, Reachable s ∧
    duplicate 1 none s = .ok (.ok 2, t) ∧ t.evictions = 3 ∧
    ((t.page? 2 ⟨0x10000⟩).map fun q => (t.contents q).take 1) = some [7] ∧
    ((t.page? 2 ⟨0x11000⟩).map fun q => (t.contents q).take 1) = some [8] ∧
    Undisturbed s t 2 ∧ Copied s t 1 2 := by
  have hend : (boot 1 64 [] >>= fun start => run crowding start >>= fun last =>
      duplicate 1 none last.2 >>= fun copy =>
        .ok (match copy.1 with
          | .ok child => some child
          | .error _ => none, copy.2.evictions,
          (copy.2.page? 2 ⟨0x10000⟩).map fun q => (copy.2.contents q).take 1,
          (copy.2.page? 2 ⟨0x11000⟩).map fun q => (copy.2.contents q).take 1)) =
      .ok (some 2, 3, some [7], some [8]) := by decide +kernel
  obtain ⟨start, hboot, hend⟩ := except_bind_eq_ok.1 hend
  obtain ⟨⟨results, s⟩, hrun, hend⟩ := except_bind_eq_ok.1 hend
  obtain ⟨⟨r, t⟩, hcopy, hend⟩ := except_bind_eq_ok.1 hend
  have hs : Reachable s := ⟨1, 64, [], _, start, results, hboot, hrun⟩
  obtain ⟨hr, hrest⟩ := Prod.mk.inj (Except.ok.inj hend)
  obtain ⟨hevictions, hrest⟩ := Prod.mk.inj hrest
  obtain ⟨hfirst, hsecond⟩ := Prod.mk.inj hrest
  obtain ⟨hundisturbed, ⟨rfl, hcopied⟩ | ⟨⟨e, rfl⟩, -⟩⟩ := hs.duplicate_snapshot hcopy
  · have hchild : s.nextSpace = 2 := Option.some.inj hr
    rw [hchild] at hcopy hundisturbed hcopied
    exact ⟨s, t, hs, hcopy, hevictions, hfirst, hsecond, hundisturbed, hcopied⟩
  · cases hr

end Machine
end Pager
