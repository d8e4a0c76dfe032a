import Pager.Proofs.Admission
import Pager.Proofs.Resolution
import Pager.Proofs.Simulation
import Pager.Proofs.Stores

/-!
Copies between the kernel and anonymous memory, to the byte. A copy to user memory that fails
is the same as a copy of the bytes before some page boundary that succeeds, and then a page that
cannot be stored to. What was stored stays where it is, in whatever frame or slot it lies in the
end, and everything else holds what it held.
-/
namespace Pager

open Function Machine

/-- A byte of a populated page of anonymous memory. -/
def Flat.HasByte (memory : Flat) (id : SpaceId) (x : Nat) (byte : UInt8) : Prop :=
  ∃ held, memory (.containing id x) = some (.holding held) ∧ held[x % pageSize]? = some byte

/-- The page at a place is registered, and dirty if it lies in a frame. -/
def Machine.Stamped (s : Machine) (pl : Place) : Prop :=
  ∃ p, Pager.pageAt s.spaces pl = some p ∧ (p.frame.isSome = true → s.Dirty pl)

/-- A range that is met on its first page or later. -/
theorem Ideal.meets_iff {id : SpaceId} {start length : Nat} {pl : Place} (hpos : 0 < length) :
    Ideal.Meets id start length pl ↔ pl = .containing id start ∨
      Ideal.Meets id (start + firstPart start length) (length - firstPart start length) pl := by
  have hle := firstPart_le start length
  have hfits := firstPart_fits start length
  constructor
  · rintro ⟨i, hi, rfl⟩
    by_cases hfirst : i < firstPart start length
    · exact .inl (Place.containing_add (by omega)).1
    · refine .inr ⟨i - firstPart start length, by omega, ?_⟩
      congr 1
      omega
  · rintro (rfl | hlater)
    · exact .first hpos
    · exact hlater.later hle

/-- The first page of a range is not met again. -/
theorem Ideal.not_meets_first {id : SpaceId} {start length : Nat} :
    ¬ Ideal.Meets id (start + firstPart start length) (length - firstPart start length)
      (.containing id start) := by
  rintro ⟨i, hi, hplace⟩
  have hkey : start / pageSize * pageSize =
      (start + firstPart start length + i) / pageSize * pageSize := congrArg Place.key hplace
  unfold firstPart pageSize at *
  omega

section

variable {m n : Moment} {l : Label} {pl : Place} {id : SpaceId}

/-- While pages are made resident and stored to, a page that was stored to stays marked as that. -/
theorem Coherent.stamped_kept (h : Coherent m) (hmove : Move l m n) (hl : l.Copies id)
    (hpopulate : l ≠ .populate pl) (hm : m.machine.Stamped pl) : n.machine.Stamped pl := by
  obtain ⟨p, hp, hdirty⟩ := hm
  rcases h.page_after hmove hp with rfl | ⟨q, hq, -⟩
  · cases hl
  refine ⟨q, hq, fun hresident => ?_⟩
  obtain ⟨f, hf⟩ := Option.isSome_iff_exists.1 hresident
  rcases h.resident_before hmove hq hf with (rfl | rfl) | hbefore
  · exact absurd rfl hpopulate
  · cases hl
  · rw [hp] at hbefore
    cases hbefore
    obtain ⟨e, he, hd⟩ := hdirty hresident
    refine h.dirty_kept hmove hp hf ?_ ?_ he hd
    · rintro rfl
      cases hmove with
      | evict _ _ hs =>
        rw [Coherent.pageAt_put hs _ rfl, update_self] at hq
        cases hq
        cases hf
    · rintro rfl
      cases hl

theorem Coherent.stamped_moves {kinds : Label → Prop} (h : Coherent m) (hmoves : Moves kinds m n)
    (hl : ∀ l, kinds l → l.Copies id ∧ l ≠ .populate pl) (hm : m.machine.Stamped pl) :
    n.machine.Stamped pl :=
  h.preserves (P := fun n => n.machine.Stamped pl) hmoves
    (fun hkind ho hstamped hmove =>
      ho.stamped_kept hmove (hl _ hkind).1 (hl _ hkind).2 hstamped) hm

end

namespace Machine

variable {s t : Machine} {id : SpaceId} {a target : VirtualAddress} {start : Nat} {bytes : Bytes}

/-- What is marked as stored to by a piece, and stays so. -/
theorem writePiece_stamps (h : Coherent ⟨s, none⟩) {r : Except PagerError Unit}
    (run : writePiece id a bytes s = .ok (r, t)) :
    (∀ pl, pl ≠ .of id a → s.Stamped pl → t.Stamped pl) ∧ (r = .ok () → t.Stamped (.of id a)) := by
  have hcopies : ∀ {pl}, pl ≠ .of id a → ∀ l : Label, l.Claims (· = .of id a) →
      l.Copies id ∧ l ≠ .populate pl := by
    intro pl hpl l hl
    refine ⟨(claims_in_space id a l hl).copies, ?_⟩
    rintro rfl
    exact hpl hl
  rcases writePiece_moves h run with ⟨e, rfl, hmoves⟩ |
    ⟨rfl, u, v, w, hclaim, hmark, hsoil, hstore⟩
  · exact ⟨fun pl hpl => h.stamped_moves hmoves (hcopies hpl), fun hr => by cases hr⟩
  · have hu := h.moves hclaim
    have hw := (hu.move hmark).move hsoil
    refine ⟨fun pl hpl hs => ?_, fun _ => ?_⟩
    · have hclaimed := h.stamped_moves hclaim (hcopies hpl) hs
      have hmark' : Label.mark.Copies id := trivial
      have hmarked := hu.stamped_kept hmark hmark' (by rintro ⟨⟩) hclaimed
      have hsoiled := (hu.move hmark).stamped_kept hsoil rfl (by rintro ⟨⟩) hmarked
      exact hw.stamped_kept hstore rfl (by rintro ⟨⟩) hsoiled
    · have hdirty := Window.dirty_of_soil hw hsoil hstore
      obtain ⟨p, f, hp, -⟩ := hw.resident_of_dirty hdirty
      have hstamped : w.Stamped (.of id a) := ⟨p, hp, fun _ => hdirty⟩
      exact hw.stamped_kept hstore rfl (by rintro ⟨⟩) hstamped

/-- A copy that fails has stored the bytes before some page boundary and no others: it comes to a
copy of those bytes, and a piece that starts there and is not stored. -/
theorem writePieces_stops {r : Except PagerError Unit} (hstart : target.value ≤ start)
    (run : writePieces id target bytes (pieces start bytes.length) s = .ok (r, t)) :
    r = .ok () ∨ ∃ k u e piece, r = .error e ∧ k < bytes.length ∧
      (k = 0 ∨ (start + k) % pageSize = 0) ∧
      writePieces id target (bytes.take k) (pieces start k) s = .ok (.ok (), u) ∧
      writePiece id ⟨start + k⟩ piece u = .ok (.error e, t) := by
  generalize hlength : bytes.length = length at run
  induction length using Nat.strongRecOn generalizing s start r bytes with
  | ind length ih =>
    by_cases hzero : length = 0
    · subst hzero
      cases run
      exact .inl rfl
    have hpos := firstPart_pos start (by omega : 0 < length)
    have hle := firstPart_le start length
    rw [pieces_cons start (by omega)] at run
    obtain ⟨address, haddress, hrun⟩ := writePieces_cons run
    obtain rfl : address = ⟨start⟩ := Address.ext (value_of_add_sub hstart haddress)
    dsimp only at haddress hrun
    rcases hrun with ⟨e, rfl, hpiece⟩ | ⟨u, hpiece, hrest⟩
    · exact .inr ⟨0, s, e, _, rfl, by omega, .inl rfl, rfl, hpiece⟩
    · have hdrop : (bytes.drop (firstPart start length)).length = length - firstPart start length := by
        rw [List.length_drop, hlength]
      rcases ih (length - firstPart start length) (by omega) (by omega) hdrop hrest with
        hr | ⟨k, v, e, piece, hr, hk, hboundary, hstored, hfails⟩
      · exact .inl hr
      · -- something is left behind the first page, so the first part ends where the page does
        have hsame : firstPart start (firstPart start length + k) = firstPart start length := by
          unfold firstPart at *
          omega
        have hends : (start + firstPart start length) % pageSize = 0 := by
          unfold firstPart pageSize at *
          omega
        refine .inr ⟨firstPart start length + k, v, e, piece, hr, by omega, .inr ?_, ?_, ?_⟩
        · rw [← Nat.add_assoc]
          rcases hboundary with rfl | hboundary
          · exact hends
          · exact hboundary
        · rw [pieces_cons start (by omega), hsame, Nat.add_sub_cancel_left]
          unfold writePieces
          dsimp only
          rw [haddress, List.take_take, Nat.min_eq_left (Nat.le_add_right ..), List.drop_take,
            Nat.add_sub_cancel_left]
          apply Action.liftM_bind_eq_ok.2
          exact ⟨_, rfl, (Action.bind_of_ok hpiece).trans hstored⟩
        · rw [← Nat.add_assoc]
          exact hfails

/-- The pages of a range that was stored to are marked as that. -/
theorem writePieces_stamps {r : Except PagerError Unit} (h : Coherent ⟨s, none⟩)
    (hstart : target.value ≤ start)
    (run : writePieces id target bytes (pieces start bytes.length) s = .ok (r, t)) :
    (∀ pl, ¬ Ideal.Meets id start bytes.length pl → s.Stamped pl → t.Stamped pl) ∧
      (r = .ok () → ∀ pl, Ideal.Meets id start bytes.length pl → t.Stamped pl) := by
  generalize hlength : bytes.length = length at run ⊢
  induction length using Nat.strongRecOn generalizing s start r bytes with
  | ind length ih =>
    by_cases hzero : length = 0
    · subst hzero
      cases run
      refine ⟨fun _ _ hs => hs, fun _ pl hpl => ?_⟩
      obtain ⟨i, hi, -⟩ := hpl
      cases hi
    have hpos := firstPart_pos start (by omega : 0 < length)
    have hle := firstPart_le start length
    have hmeets : ∀ {pl}, Ideal.Meets id start length pl ↔ pl = .containing id start ∨
        Ideal.Meets id (start + firstPart start length) (length - firstPart start length) pl :=
      Ideal.meets_iff (by omega)
    have hfirst : ¬ Ideal.Meets id (start + firstPart start length)
        (length - firstPart start length) (.containing id start) := Ideal.not_meets_first
    rw [pieces_cons start (by omega)] at run
    generalize firstPart start length = count at *
    obtain ⟨address, haddress, hrun⟩ := writePieces_cons run
    obtain rfl : address = ⟨start⟩ := Address.ext (value_of_add_sub hstart haddress)
    have hplace : Place.of id (⟨start⟩ : VirtualAddress) = .containing id start :=
      Place.of_eq_containing ..
    dsimp only at hrun
    rcases hrun with ⟨e, rfl, hpiece⟩ | ⟨u, hpiece, hrest⟩
    · obtain ⟨hothers, -⟩ := writePiece_stamps h hpiece
      rw [hplace] at hothers
      refine ⟨fun pl hpl => hothers pl ?_, fun hr => by cases hr⟩
      rw [hmeets, not_or] at hpl
      exact hpl.1
    · have hdrop : (bytes.drop count).length = length - count := by rw [List.length_drop, hlength]
      obtain ⟨hothers, hself⟩ := writePiece_stamps h hpiece
      rw [hplace] at hothers hself
      obtain ⟨hkept, hlater⟩ := ih (length - count) (by omega)
        (h.moves (writePiece_copies h hpiece)) (by omega) hdrop hrest
      constructor
      · intro pl hpl hs
        rw [hmeets, not_or] at hpl
        exact hkept pl hpl.2 (hothers pl hpl.1 hs)
      · intro hr pl hpl
        rcases hmeets.1 hpl with rfl | hpl
        · exact hkept _ hfirst (hself rfl)
        · exact hlater hr pl hpl

/-- What is read of a range lies on pages that are registered. -/
theorem readPieces_registered {length : Nat} {source : VirtualAddress} {read : Bytes}
    (h : Coherent ⟨s, none⟩) (hstart : source.value ≤ start)
    (run : readPieces id source (pieces start length) s = .ok (.ok read, t)) {pl : Place}
    (hpl : Ideal.Meets id start length pl) : Pager.pageAt s.spaces pl ≠ none := by
  induction length using Nat.strongRecOn generalizing s start read with
  | ind length ih =>
    have hmet := hpl
    obtain ⟨i, hi, -⟩ := hmet
    have hpos := firstPart_pos start (by omega : 0 < length)
    have hmeets : Ideal.Meets id start length pl ↔ pl = .containing id start ∨
        Ideal.Meets id (start + firstPart start length) (length - firstPart start length) pl :=
      Ideal.meets_iff (by omega)
    rw [pieces_cons start (by omega)] at run
    generalize firstPart start length = count at *
    obtain ⟨address, haddress, hrun⟩ := readPieces_cons run
    obtain rfl : address = ⟨start⟩ := Address.ext (value_of_add_sub hstart haddress)
    dsimp only at hrun
    rcases hrun with ⟨e, hr, -⟩ | ⟨bytes, q, u, hpiece, hrest, hr⟩
    · cases hr
    · have hmoves := (readPiece_moves h hpiece).1
      have hkept : Pager.pageAt s.spaces pl = none → Pager.pageAt u.spaces pl = none :=
        h.absent_moves hmoves fun l hl page hlabel => by rw [hlabel] at hl; cases hl
      rcases hmeets.1 hpl with rfl | hlater
      · rcases readPiece_cases h hpiece with ⟨e, hr, -⟩ | ⟨f, v, fr, hclaim, -⟩
        · cases hr
        · intro hnone
          have hclaimed := claim_cases h hclaim
          rw [Place.of_eq_containing] at hclaimed
          cases hclaimed with
          | resident hp => cases hp.symm.trans hnone
          | seated hp => cases hp.symm.trans hnone
      · cases q with
        | error e => cases hr
        | ok others =>
          exact fun hnone => ih (length - count) (by omega) (h.moves hmoves) (by omega) hrest hlater
            (hkept hnone)

/-- No directory is told to refuse anything by pages being made resident and stored to. -/
theorem Willing.copies {held held' : Option FrameId} (hw : s.Willing)
    (hmoves : Moves (Label.Copies id) ⟨s, held⟩ ⟨t, held'⟩) : t.Willing := by
  refine hmoves.preserves (P := fun n => n.machine.Willing) (fun hkind hm hmove => ?_) hw
  refine hmove.willing hm ?_
  rintro refuses rfl
  cases hkind

/-- An anonymous page has a cell. -/
theorem flat_of_anonymous {pl : Place} {p : Page} (hp : Pager.pageAt s.spaces pl = some p)
    (htype : p.type = .anonymous) : s.flat pl ≠ none := by
  rw [flat_of_page hp, cell]
  cases hk : p.kind with
  | unpopulated u =>
    have htarget : u.target = .anonymous := by rwa [Page.type, hk] at htype
    simp [htarget]
  | anonymous slot => simp
  | fileBacked file => simp [Page.type, hk] at htype

theorem length_held (h : Coherent ⟨s, none⟩) {pl : Place} {held : Bytes}
    (hcell : s.flat pl = some (.holding held)) : held.length = pageSize := by
  obtain ⟨p, hp, hcell⟩ := Option.bind_eq_some_iff.1 hcell
  rw [← contents_of_cell hcell]
  exact h.length_contents hp

/-- Bytes were stored from an address on, and pages among those told were populated. All that pages
held otherwise they still hold, and what was populated holds what its initializer leaves. -/
structure Receives (s t : Machine) (among : Place → Prop) (id : SpaceId) (start : Nat)
    (bytes : Bytes) : Prop where
  held : ∀ {pl held}, s.flat pl = some (.holding held) →
    t.flat pl = some (.holding (held.mapIdx (pl.receives id start bytes)))
  waiting : ∀ {pl u}, s.flat pl = some (.waiting u) → t.flat pl = some (.waiting u) ∨
    among pl ∧ ∃ store filled, s.files.Traffic store ∧ u.Fills store filled ∧
      t.flat pl = some (.holding (filled.mapIdx (pl.receives id start bytes)))
  vacant : ∀ {pl}, s.flat pl = none → t.flat pl = none

section

variable {among : Place → Prop}

theorem Receives.of_stores (h : s.ideal.Stores among id start bytes t.ideal) :
    s.Receives t among id start bytes := by
  obtain ⟨populated, htouches, -, hmemory⟩ := h
  have hflat : ∀ pl, t.flat pl = (populated pl).map (Cell.mapBytes (pl.receives id start bytes)) :=
    congrFun hmemory
  refine ⟨fun {pl held} hcell => ?_, fun {pl u} hcell => ?_, fun {pl} hcell => ?_⟩
  · have hsame : populated pl = some (.holding held) := by
      refine (htouches.settled ?_).trans hcell
      rintro ⟨u, hu⟩
      cases hu.symm.trans hcell
    rw [hflat, hsame]
    rfl
  · have hsettles : Settles _ _ (s.flat pl) (populated pl) := htouches.cells pl
    rw [hflat]
    rw [hcell] at hsettles
    by_cases hstill : populated pl = some (.waiting u)
    · rw [hstill]
      exact .inl rfl
    · have hamong : among pl := by
        by_contra hout
        exact hstill ((htouches.elsewhere pl hout).trans hcell)
      generalize populated pl = c at hsettles hstill
      cases hsettles with
      | still => exact absurd rfl hstill
      | filled earlier fills => exact .inr ⟨hamong, _, _, earlier, fills, rfl⟩
  · have hsettles : Settles _ _ (s.flat pl) (populated pl) := htouches.cells pl
    rw [hflat]
    rw [hcell] at hsettles
    generalize populated pl = c at hsettles
    cases hsettles with
    | still => rfl

/-- A byte that was stored on a page of anonymous memory is there. -/
theorem hasByte_of_stores (ht : Coherent ⟨t, none⟩) (h : s.ideal.Stores among id start bytes t.ideal)
    {i : Nat} {byte : UInt8} (hcell : s.flat (.containing id (start + i)) ≠ none)
    (hbyte : bytes[i]? = some byte) : t.flat.HasByte id (start + i) byte := by
  obtain ⟨hi, hget⟩ := List.getElem?_eq_some_iff.1 hbyte
  have hreceives := Receives.of_stores h
  obtain ⟨populated, -, hready, hmemory⟩ := h
  have hpopulated : ¬ t.flat.Waits (.containing id (start + i)) := by
    intro hwaits
    have hmemory : t.flat = _ := hmemory
    rw [hmemory, Flat.waits_stored] at hwaits
    exact hready i hi hwaits
  have hholds : ∃ filled : Bytes, t.flat (.containing id (start + i)) =
      some (.holding (filled.mapIdx ((Place.containing id (start + i)).receives id start bytes))) := by
    cases hs : s.flat (.containing id (start + i)) with
    | none => exact absurd hs hcell
    | some c =>
      cases c with
      | holding held => exact ⟨held, hreceives.held hs⟩
      | waiting u =>
        rcases hreceives.waiting hs with hwaits | ⟨-, store, filled, -, -, hfilled⟩
        · exact absurd ⟨u, hwaits⟩ hpopulated
        · exact ⟨filled, hfilled⟩
  obtain ⟨filled, hfilled⟩ := hholds
  refine ⟨_, hfilled, ?_⟩
  have hlength := length_held ht hfilled
  have hoffset : (start + i) % pageSize < pageSize := Nat.mod_lt _ pageSize_pos
  rw [List.length_mapIdx] at hlength
  have hkey : (Place.containing id (start + i)).key + (start + i) % pageSize = start + i :=
    Nat.div_add_mod' (start + i) pageSize
  rw [List.getElem?_mapIdx, List.getElem?_eq_getElem (by omega), Option.map_some, Place.receives,
    hkey, if_pos ⟨rfl, Nat.le_add_right ..⟩, Nat.add_sub_cancel_left, hbyte, Option.getD_some]

end

/-- All registered pages of a range are anonymous. -/
def Anonymous (s : Machine) (id : SpaceId) (start length : Nat) : Prop :=
  ∀ {pl p}, Ideal.Meets id start length pl → Pager.pageAt s.spaces pl = some p →
    p.type = .anonymous

theorem anonymous_of_all {sp : Space} (hs : s.spaces.get? id = some sp)
    (hall : sp.pages.pages.values.all (·.type = .anonymous) = true) (start length : Nat) :
    s.Anonymous id start length := by
  rintro pl p ⟨i, -, rfl⟩ hp
  rw [Pager.pageAt, show s.spaces.get? (Place.containing id (start + i)).space = some sp from hs,
    Option.bind_some] at hp
  have hmem : p ∈ sp.pages.pages.values :=
    List.mem_map.2 ⟨_, (Table.get?_eq_some_iff _).1 hp, rfl⟩
  simpa using List.all_eq_true.1 hall p hmem

/-- The page at `x` stops a copy to it: it is not registered, it is read-only, or the claim of it
fails, which leads from `u` to `t`. -/
inductive Stops (s : Machine) (id : SpaceId) (x : Nat) (u : Machine) : PagerError → Machine → Prop
  | unregistered (absent : Pager.pageAt s.spaces (.containing id x) = none) :
      Stops s id x u .notMapped u
  | readOnly {p : Page} (page : Pager.pageAt s.spaces (.containing id x) = some p)
      (kept : p.writable = false) : Stops s id x u .readOnly u
  | unclaimed {p : Page} {e : PagerError} {t : Machine}
      (page : Pager.pageAt s.spaces (.containing id x) = some p) (writable : p.writable = true)
      (claims : claim id ⟨x⟩ u = .ok (.error e, t)) : Stops s id x u e t

/-- A piece that is not stored is stopped by its page. -/
theorem writePiece_stops {e : PagerError} {x : Nat}
    (run : writePiece id ⟨x⟩ bytes s = .ok (.error e, t)) : s.Stops id x s e t := by
  unfold writePiece at run
  obtain ⟨sp, hs, ⟨p, hp, run⟩ | ⟨hnone, he, ht⟩⟩ := page_bind_eq_ok.1 run
  · have hpage : Pager.pageAt s.spaces (.of id ⟨x⟩) = some p := (pageAt_of_get? hs _).trans hp
    rw [Place.of_eq_containing] at hpage
    cases hwritable : p.writable with
    | false =>
      rw [hwritable] at run
      cases run
      exact .readOnly hpage hwritable
    | true =>
      rw [hwritable, if_neg (by decide)] at run
      rcases Action.bind_eq_ok.1 run with ⟨f, u, -, run⟩ | ⟨e', hclaim, he⟩
      · obtain ⟨fr, -, run⟩ := addressOfFrame_bind_eq_ok.1 run
        by_cases hbounds : pageSize < (⟨x⟩ : VirtualAddress).pageOffset + bytes.length
        · rw [if_pos hbounds, Action.bug_bind] at run
          cases run
        · rw [if_neg hbounds] at run
          rcases Action.bind_eq_ok.1 run with ⟨_, v, -, run⟩ | ⟨e', hwrite, -⟩
          · cases run
          · obtain ⟨pool, -, hr, -⟩ := writeFrame_eq_ok.1 hwrite
            cases hr
      · cases he
        exact .unclaimed hpage hwritable hclaim
  · have habsent : Pager.pageAt s.spaces (.of id ⟨x⟩) = none := (pageAt_of_get? hs _).trans hnone
    rw [Place.of_eq_containing] at habsent
    cases he
    subst ht
    exact .unregistered habsent

namespace Stops

variable {u : Machine} {x : Nat} {e : PagerError}

/-- A page that stops a copy stops it from the start: the copying before it neither registers the
page nor makes it writable. -/
theorem of_copies (h : Coherent ⟨s, none⟩) (hmoves : Moves (Label.Copies id) ⟨s, none⟩ ⟨u, none⟩)
    (hstops : u.Stops id x u e t) : s.Stops id x u e t := by
  have hregistered : ∀ l, Label.Copies id l → ∀ page,
      l ≠ .register (.containing id x) page ∧ l ≠ .remove (.containing id x) page := by
    intro l hl page
    constructor <;> rintro rfl <;> cases hl
  have habsent : Pager.pageAt s.spaces (.containing id x) = none →
      Pager.pageAt u.spaces (.containing id x) = none :=
    h.absent_moves hmoves fun l hl page => (hregistered l hl page).1
  cases hs : Pager.pageAt s.spaces (.containing id x) with
  | none =>
    cases hstops with
    | unregistered => exact .unregistered hs
    | readOnly hp => cases hp.symm.trans (habsent hs)
    | unclaimed hp => cases hp.symm.trans (habsent hs)
  | some p =>
    obtain ⟨q, hq, hwritable, -⟩ := h.flags_moves hmoves hregistered hs
    cases hstops with
    | unregistered hnone => cases hq.symm.trans hnone
    | readOnly hp hkept =>
      cases hq.symm.trans hp
      exact .readOnly hs (hwritable ▸ hkept)
    | unclaimed hp hmay hclaim =>
      cases hq.symm.trans hp
      exact .unclaimed hs (hwritable ▸ hmay) hclaim

/-- The page that stops a copy may have been claimed in vain. -/
theorem touches (hu : Coherent ⟨u, none⟩) (hw : u.Willing) (hstops : s.Stops id x u e t) :
    u.ideal.Touches (· = .containing id x) t.ideal := by
  cases hstops with
  | unregistered => exact .refl
  | readOnly => exact .refl
  | unclaimed _ _ hclaim =>
    have hclaims := (claim_moves hu hclaim).1
    rw [Place.of_eq_containing] at hclaims
    exact (hu.touches_moves hw hclaims fun l hl => hl.settles).1

end Stops

/-- A copy to user memory that failed after `k` bytes: a copy of these bytes alone would have
succeeded, they are there, and the page behind them stops the copy. -/
structure StopsAt (s : Machine) (id : SpaceId) (a : VirtualAddress) (bytes : Bytes) (k : Nat)
    (e : PagerError) (t : Machine) : Prop where
  boundary : k = 0 ∨ (a.value + k) % pageSize = 0
  receives : s.Receives t (Ideal.Meets id a.value bytes.length) id a.value (bytes.take k)
  shows : ∀ {i byte}, (bytes.take k)[i]? = some byte → t.flat.HasByte id (a.value + i) byte
  stops : ∃ u, writeUser id a (bytes.take k) s = .ok (.ok (), u) ∧ s.Stops id (a.value + k) u e t

/-- What comes of a copy to user memory. -/
inductive Writes (s : Machine) (id : SpaceId) (a : VirtualAddress) (bytes : Bytes) :
    Except PagerError Unit → Machine → Prop
  | whole {t : Machine}
      (receives : s.Receives t (Ideal.Meets id a.value bytes.length) id a.value bytes)
      (shows : ∀ {i byte}, bytes[i]? = some byte → t.flat.HasByte id (a.value + i) byte)
      (stamped : ∀ {pl}, Ideal.Meets id a.value bytes.length pl → t.Stamped pl) :
      Writes s id a bytes (.ok ()) t
  | outside {e : PagerError} (refused : requireUserRange a bytes.length = .error e) :
      Writes s id a bytes (.error e) s
  | stopped {k : Nat} {e : PagerError} {t : Machine} (inside : k < bytes.length)
      (at_boundary : s.StopsAt id a bytes k e t) : Writes s id a bytes (.error e) t

/-- What comes of a copy from user memory: pages may be populated, and nothing is stored. -/
structure Reads (s : Machine) (id : SpaceId) (a : VirtualAddress) (length : Nat)
    (r : Except PagerError Bytes) (t : Machine) : Prop where
  held : ∀ {pl held}, s.flat pl = some (.holding held) → t.flat pl = some (.holding held)
  waiting : ∀ {pl u}, s.flat pl = some (.waiting u) → t.flat pl = some (.waiting u) ∨
    Ideal.Meets id a.value length pl ∧ ∃ store filled, s.files.Traffic store ∧
      u.Fills store filled ∧ t.flat pl = some (.holding filled)
  clean : ∀ {pl}, t.Dirty pl → s.Dirty pl
  shows : ∀ {bytes}, r = .ok bytes → bytes.length = length ∧
    ∀ {i byte}, bytes[i]? = some byte → t.flat.HasByte id (a.value + i) byte

/-- A page of a copied range was registered, so that it has a cell. -/
theorem Anonymous.flat_ne_none {length : Nat} {pl : Place} {held held' : Option FrameId}
    (hrange : s.Anonymous id start length) (h : Coherent ⟨s, held⟩)
    (hmoves : Moves (Label.Copies id) ⟨s, held⟩ ⟨t, held'⟩)
    (hpl : Ideal.Meets id start length pl) (ht : t.Stamped pl) : s.flat pl ≠ none := by
  obtain ⟨q, hq, -⟩ := ht
  cases hp : Pager.pageAt s.spaces pl with
  | none =>
    have hnone : Pager.pageAt t.spaces pl = none := h.absent_moves hmoves
      (fun l hl page hlabel => by rw [hlabel] at hl; cases hl) hp
    cases hq.symm.trans hnone
  | some p => exact flat_of_anonymous hp (hrange hpl hp)

/-- A copy to pages of anonymous memory that succeeds. -/
theorem writePieces_whole (h : Coherent ⟨s, none⟩) (hw : s.Willing)
    (hrange : s.Anonymous id a.value bytes.length)
    (run : writePieces id a bytes (pieces a.value bytes.length) s = .ok (.ok (), t)) :
    s.ideal.Stores (Ideal.Meets id a.value bytes.length) id a.value bytes t.ideal ∧
      (∀ {pl}, Ideal.Meets id a.value bytes.length pl → t.Stamped pl) ∧
      ∀ {i}, i < bytes.length → s.flat (.containing id (a.value + i)) ≠ none := by
  have hmoves := writePieces_moves h run
  have hstamped := (writePieces_stamps h (Nat.le_refl _) run).2 rfl
  refine ⟨?_, fun {pl} => hstamped pl, fun {i} hi => ?_⟩
  · obtain ⟨hall, hstores⟩ := writePieces_stores h hw (Nat.le_refl _) run
    rwa [hall rfl, List.take_length] at hstores
  · exact hrange.flat_ne_none h hmoves ⟨i, hi, rfl⟩ (hstamped _ ⟨i, hi, rfl⟩)

theorem writeUser_writes {r : Except PagerError Unit} (h : Coherent ⟨s, none⟩) (hw : s.Willing)
    (hrange : s.Anonymous id a.value bytes.length) (run : writeUser id a bytes s = .ok (r, t)) :
    s.Writes id a bytes r t := by
  have ht := h.moves (writeUser_moves h run)
  unfold writeUser at run
  rcases Action.ofResult_bind_eq_ok.1 run with ⟨_, huser, run⟩ | ⟨e, huser, rfl, rfl⟩
  swap
  · exact .outside huser
  rcases writePieces_stops (Nat.le_refl _) run with
    rfl | ⟨k, u, e, piece, rfl, hinside, hboundary, hbefore, hpiece⟩
  · obtain ⟨hstores, hstamped, hcells⟩ := writePieces_whole h hw hrange run
    refine .whole (.of_stores hstores) (fun {i byte} hbyte => ?_) hstamped
    have hi := (List.getElem?_eq_some_iff.1 hbyte).1
    exact hasByte_of_stores ht hstores (hcells hi) hbyte
  · have htake : (bytes.take k).length = k := by
      rw [List.length_take]
      omega
    have hmeets : ∀ {pl}, Ideal.Meets id a.value (bytes.take k).length pl →
        Ideal.Meets id a.value bytes.length pl := by
      rintro pl ⟨i, hi, rfl⟩
      exact ⟨i, by omega, rfl⟩
    have hbefore : writePieces id a (bytes.take k) (pieces a.value (bytes.take k).length) s =
        .ok (.ok (), u) := by
      rw [htake]
      exact hbefore
    obtain ⟨hstores, -, hcells⟩ := writePieces_whole h hw (fun hpl => hrange (hmeets hpl)) hbefore
    have hmoves := writePieces_moves h hbefore
    have hu := h.moves hmoves
    have hstops := writePiece_stops hpiece
    have hstored : s.ideal.Stores (Ideal.Meets id a.value bytes.length) id a.value
        (bytes.take k) t.ideal := by
      have htouches : u.ideal.Touches (Ideal.Meets id a.value bytes.length) t.ideal := by
        refine (hstops.touches hu (Willing.copies hw hmoves)).mono ?_
        rintro pl rfl
        exact ⟨k, hinside, rfl⟩
      have hall := (hstores.mono fun pl hpl => hmeets hpl).append htouches.stores_nil
      rwa [List.append_nil] at hall
    refine .stopped hinside
      ⟨hboundary, .of_stores hstored, fun {i byte} hbyte => ?_, u, ?_, hstops.of_copies h hmoves⟩
    · have hi := (List.getElem?_eq_some_iff.1 hbyte).1
      exact hasByte_of_stores ht hstored (hcells hi) hbyte
    · have hshorter : requireUserRange a (bytes.take k).length = .ok () := by
        have huser := requireUserRange_eq_ok_iff.1 huser
        apply requireUserRange_eq_ok_iff.2
        omega
      unfold writeUser
      rw [hshorter]
      exact hbefore

theorem readUser_reads {length : Nat} {r : Except PagerError Bytes} (h : Coherent ⟨s, none⟩)
    (hw : s.Willing) (hrange : s.Anonymous id a.value length)
    (run : readUser id a length s = .ok (r, t)) : s.Reads id a length r t := by
  have hmoves := readUser_moves h run
  obtain ⟨htouches, hyields⟩ := readUser_yields h hw run
  have hreceives : s.Receives t (Ideal.Meets id a.value length) id a.value [] :=
    .of_stores htouches.stores_nil
  have hsame : ∀ {pl : Place} {held : Bytes}, held.mapIdx (pl.receives id a.value []) = held := by
    intro pl held
    have hcell := Cell.mapBytes_of_same (f := pl.receives id a.value []) Flat.receives_nil
      (.holding held)
    exact Cell.holding.inj hcell
  refine ⟨fun hcell => ?_, fun hcell => ?_, fun {pl} hdirty => ?_, fun {bytes} hr => ?_⟩
  · have hkept := hreceives.held hcell
    rwa [hsame] at hkept
  · rcases hreceives.waiting hcell with hstill | ⟨hmeets, store, filled, hbefore, hfills, hfilled⟩
    · exact .inl hstill
    · rw [hsame] at hfilled
      exact .inr ⟨hmeets, store, filled, hbefore, hfills, hfilled⟩
  · have hback := h.preserves (P := fun n => n.machine.Dirty pl → s.Dirty pl) hmoves
      (fun hkind ho hn hmove hd => ?_) fun hd => hd
    · exact hback hdirty
    · rcases ho.dirty_before hmove hd with hd | rfl | rfl
      · exact hn hd
      · cases hkind
      · cases hkind
  · obtain ⟨hlength, hbytes⟩ := hyields bytes hr
    refine ⟨hlength, fun {i byte} hbyte => ?_⟩
    have hi : i < length := hlength ▸ (List.getElem?_eq_some_iff.1 hbyte).1
    have hmeets : Ideal.Meets id a.value length (.containing id (a.value + i)) := ⟨i, hi, rfl⟩
    have hregistered : Pager.pageAt s.spaces (.containing id (a.value + i)) ≠ none := by
      subst hr
      unfold readUser at run
      rcases Action.ofResult_bind_eq_ok.1 run with ⟨_, -, run⟩ | ⟨e, -, hr, -⟩
      · exact readPieces_registered h (Nat.le_refl _) run hmeets
      · cases hr
    obtain ⟨p, hp⟩ := Option.ne_none_iff_exists'.1 hregistered
    have hcell := flat_of_anonymous hp (hrange hmeets hp)
    have hyield := hbytes i byte hbyte
    unfold Flat.Yields at hyield
    cases ht : t.flat (.containing id (a.value + i)) with
    | none =>
      cases hs : s.flat (.containing id (a.value + i)) with
      | none => exact absurd hs hcell
      | some c =>
        cases c with
        | holding held => cases ht.symm.trans (hreceives.held hs)
        | waiting u =>
          rcases hreceives.waiting hs with hstill | ⟨-, _, _, -, -, hfilled⟩
          · cases ht.symm.trans hstill
          · cases ht.symm.trans hfilled
    | some c =>
      rw [ht] at hyield
      cases c with
      | waiting u => exact hyield.elim
      | holding held => exact ⟨held, ht, hyield⟩

/-- User copies over anonymous memory are exact to the byte, and stop at page boundaries. -/
theorem Reachable.user_copies_exact (hs : Reachable s) (hw : s.Willing) :
    (∀ {id a bytes r t}, s.Anonymous id a.value bytes.length →
      writeUser id a bytes s = .ok (r, t) → s.Writes id a bytes r t) ∧
    ∀ {id a length r t}, s.Anonymous id a.value length →
      readUser id a length s = .ok (r, t) → s.Reads id a length r t :=
  ⟨fun hrange run => writeUser_writes hs.coherent hw hrange run,
    fun hrange run => readUser_reads hs.coherent hw hrange run⟩

/-- Three pages in a row, the last of them read-only. -/
def threeInARow : List Op := [.createSpace, .onSpace 1 0x10000 (.registerAnonymous true),
  .onSpace 1 0x11000 (.registerAnonymous true), .onSpace 1 0x12000 (.registerAnonymous false)]

/-- With a single frame a copy gets as far as the read-only page. The page it started on was moved
out by then. -/
theorem user_copies_exact_of_threeInARow : ∃ s t, Reachable s ∧ s.Willing ∧
    writeUser 1 ⟨0x10fff⟩ (List.replicate 4100 7) s = .ok (.error .readOnly, t) ∧
    s.Writes 1 ⟨0x10fff⟩ (List.replicate 4100 7) (.error .readOnly) t ∧
    (t.page? 1 ⟨0x10000⟩).map (fun p => (p.frame, p.slot.isSome)) = some (none, true) := by
  have hend : (boot 1 16 [] >>= fun start => run threeInARow start >>= fun last =>
      writeUser 1 ⟨0x10fff⟩ (List.replicate 4100 7) last.2 >>= fun copied =>
        .ok (copied.1, (last.2.spaces.get? 1).map (fun sp =>
            sp.pages.pages.values.all (·.type = .anonymous)),
          (copied.2.page? 1 ⟨0x10000⟩).map (fun p => (p.frame, p.slot.isSome)))) =
      .ok (.error .readOnly, some true, some (none, true)) := by decide +kernel
  obtain ⟨start, hboot, hend⟩ := except_bind_eq_ok.1 hend
  obtain ⟨⟨results, s⟩, hrun, hend⟩ := except_bind_eq_ok.1 hend
  obtain ⟨⟨r, t⟩, hcopy, hend⟩ := except_bind_eq_ok.1 hend
  obtain ⟨hr, hrest⟩ := Prod.mk.inj (Except.ok.inj hend)
  obtain ⟨hall, hout⟩ := Prod.mk.inj hrest
  obtain rfl : r = .error .readOnly := hr
  have hops : ∀ op ∈ threeInARow, op.Obliging := by simp [threeInARow, Op.Obliging]
  have hw := run_willing (boot_coherent hboot) (boot_willing hboot) hops hrun
  have hs : Reachable s := ⟨1, 16, [], threeInARow, start, results, hboot, hrun⟩
  obtain ⟨sp, hsp, hall⟩ := Option.map_eq_some_iff.1 hall
  have hrange : s.Anonymous 1 0x10fff (List.replicate 4100 (7 : UInt8)).length :=
    anonymous_of_all hsp hall _ _
  exact ⟨s, t, hs, hw, hcopy, (hs.user_copies_exact hw).1 hrange hcopy, hout⟩

/-- A page just below the kernel's half. -/
def bordering : List Op := [.createSpace, .onSpace 1 0x8003fff000 (.registerAnonymous true)]

/-- A range that reaches into the kernel's half is refused as a whole: nothing is stored on the
page where it starts, though that page is registered, writable and can be claimed. -/
theorem not_stopsAt_of_bordering : ∃ s t, Reachable s ∧ s.Willing ∧ s.Anonymous 1 0x8003ffffff 2 ∧
    writeUser 1 ⟨0x8003ffffff⟩ [7, 7] s = .ok (.error .kernelAddress, t) ∧
    ¬ ∃ k, s.StopsAt 1 ⟨0x8003ffffff⟩ [7, 7] k .kernelAddress t := by
  have hend : (boot 4 64 [] >>= fun start => run bordering start >>= fun last =>
      writeUser 1 ⟨0x8003ffffff⟩ [7, 7] last.2 >>= fun copied =>
      claim 1 ⟨0x8003ffffff⟩ last.2 >>= fun claimed =>
        .ok (copied.1, claimed.1.toBool, (last.2.spaces.get? 1).map (fun sp =>
            sp.pages.pages.values.all (·.type = .anonymous)),
          (last.2.page? 1 ⟨0x8003fff000⟩).map Page.isInitialized)) =
      .ok (.error .kernelAddress, true, some true, some false) := by decide +kernel
  obtain ⟨start, hboot, hend⟩ := except_bind_eq_ok.1 hend
  obtain ⟨⟨results, s⟩, hrun, hend⟩ := except_bind_eq_ok.1 hend
  obtain ⟨⟨r, t⟩, hcopy, hend⟩ := except_bind_eq_ok.1 hend
  obtain ⟨⟨q, v⟩, hclaim, hend⟩ := except_bind_eq_ok.1 hend
  obtain ⟨hr, hrest⟩ := Prod.mk.inj (Except.ok.inj hend)
  obtain ⟨hq, hrest⟩ := Prod.mk.inj hrest
  obtain ⟨hall, hwaits⟩ := Prod.mk.inj hrest
  obtain rfl : r = .error .kernelAddress := hr
  obtain ⟨sp, hsp, hall⟩ := Option.map_eq_some_iff.1 hall
  obtain ⟨p, hp, hwaits⟩ := Option.map_eq_some_iff.1 hwaits
  have hops : ∀ op ∈ bordering, op.Obliging := by simp [bordering, Op.Obliging]
  have hw := run_willing (boot_coherent hboot) (boot_willing hboot) hops hrun
  have hs : Reachable s := ⟨4, 64, [], bordering, start, results, hboot, hrun⟩
  refine ⟨s, t, hs, hw, anonymous_of_all hsp hall _ _, hcopy, ?_⟩
  have ht : t = s := by
    unfold writeUser at hcopy
    rcases Action.ofResult_bind_eq_ok.1 hcopy with ⟨_, hrange, -⟩ | ⟨e, -, -, ht⟩
    · exact absurd (requireUserRange_eq_ok_iff.1 hrange) (by decide)
    · exact ht
  rintro ⟨k, hstops⟩
  by_cases hk : k = 0
  · -- nothing was copied before, and the claim would have succeeded
    subst hk
    obtain ⟨u, hbefore, hreason⟩ := hstops.stops
    have hnothing : writeUser 1 ⟨0x8003ffffff⟩ [] s = .ok (.ok (), s) := rfl
    cases hbefore.symm.trans hnothing
    cases hreason with
    | unclaimed _ _ hfails =>
      have hclaim : claim 1 ⟨0x8003ffffff⟩ s = .ok (q, v) := hclaim
      cases hfails.symm.trans hclaim
      cases hq
  · -- the page where the range starts still waits for its initializer
    have hfirst : (List.take k [(7 : UInt8), 7])[0]? = some 7 := by
      rw [List.getElem?_take_of_lt (by omega)]
      rfl
    obtain ⟨held, hheld, -⟩ := hstops.shows hfirst
    rw [ht] at hheld
    obtain ⟨p', hp', hcell⟩ := Option.bind_eq_some_iff.1 hheld
    have hp : Pager.pageAt s.spaces (.containing 1 0x8003ffffff) = some p := hp
    cases hp.symm.trans hp'
    unfold cell at hcell
    unfold Page.isInitialized at hwaits
    cases hkind : p.kind with
    | unpopulated u =>
      rw [hkind] at hcell
      dsimp only at hcell
      split at hcell <;> cases hcell
    | anonymous | fileBacked =>
      rw [hkind] at hwaits
      cases hwaits

end Machine
end Pager
