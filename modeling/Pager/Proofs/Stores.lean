import Pager.Proofs.Copying
import Pager.Proofs.Window

/-!
Copies to and from a mapping. A copy is made piece by piece, and a piece that was stored is
what its page holds from then on, also if a later piece fails; a piece that is read is what its
page holds. Whatever is stored elsewhere, the mapping holds the same.
-/
namespace Pager

open Machine

namespace Window

variable {w : Window} {stored : Nat → Option UInt8} {first k : Nat} {kinds : Label → Prop}
  {m n : Moment} {l : Label} {s t : Machine} {id : SpaceId} {a : VirtualAddress} {data : Bytes}

/-- What was stored in the space of the mapping, after more bytes were stored in some space. -/
def receiving (w : Window) (stored : Nat → Option UInt8) (id : SpaceId) (start : Nat)
    (bytes : Bytes) : Nat → Option UInt8 :=
  if id = w.space then storing stored start bytes else stored

theorem receiving_nil {start : Nat} : w.receiving stored id start [] = stored := by
  unfold receiving
  split
  · exact storing_nil
  · rfl

theorem receiving_append {start : Nat} {bytes others : Bytes} :
    w.receiving (w.receiving stored id start bytes) id (start + bytes.length) others =
      w.receiving stored id start (bytes ++ others) := by
  unfold receiving
  by_cases hspace : id = w.space
  · rw [if_pos hspace, if_pos hspace, if_pos hspace, storing_append]
  · rw [if_neg hspace, if_neg hspace, if_neg hspace]

/-- The mapping is there from page `first` on, with what was stored. -/
structure Intact (w : Window) (stored : Nat → Option UInt8) (first : Nat) (s : Machine) :
    Prop where
  owned : w.Owned first s
  holds : ∃ data, w.Holds stored first s data

theorem Owned.moves (howned : w.Owned first m.machine) (h : Coherent m)
    (hmoves : Moves kinds m n) (hl : ∀ l, kinds l → w.Foreign l) : w.Owned first n.machine :=
  h.preserves (P := fun o => w.Owned first o.machine) hmoves
    (fun hkind ho howned hmove => howned.move ho hmove (hl _ hkind)) howned

theorem Intact.moves (hintact : w.Intact stored first m.machine) (h : Coherent m)
    (hmoves : Moves kinds m n) (hl : ∀ l, kinds l → w.Spares first l)
    (halone : w.Alone n.machine) : w.Intact stored first n.machine := by
  have hboth := h.preserves (P := fun o => w.Owned first o.machine ∧
    (w.Alone o.machine → ∃ data, w.Holds stored first o.machine data)) hmoves
    (by
      intro l o o' hkind ho hbefore hmove
      obtain ⟨howned, hholds⟩ := hbefore
      refine ⟨howned.move ho hmove (hl l hkind).foreign, fun halone => ?_⟩
      obtain ⟨data, hholds⟩ := hholds (ho.since_before hmove halone)
      exact hholds.move ho howned hmove (hl l hkind) halone)
    ⟨hintact.owned, fun _ => hintact.holds⟩
  exact ⟨hboth.1, hboth.2 halone⟩

theorem spares_of_claims {among : Place → Prop} (h : l.Claims among) : w.Spares first l := by
  cases l <;> first | exact True.intro | cases h

/-- A mapping starts where a page does. -/
theorem Holds.aligned (hholds : w.Holds stored first s data) (h : Coherent ⟨s, none⟩)
    (hfirst : first ≤ k) (hlt : k < w.pages) : w.start % pageSize = 0 := by
  obtain ⟨p, hp, -⟩ := hholds.registered k hfirst hlt
  have hkey : (w.start + k * pageSize) % pageSize = 0 := (h.linked.keyed hp).2
  rwa [Nat.add_mul_mod_self_right] at hkey

/-- Addresses of a mapping lie on its pages. -/
theorem containing_eq_place {i : Nat} (haligned : w.start % pageSize = 0) :
    Place.containing w.space (w.start + i) = w.place (i / pageSize) := by
  refine Place.ext rfl ?_
  show (w.start + i) / pageSize * pageSize = w.start + i / pageSize * pageSize
  unfold pageSize at *
  omega

theorem div_lt_pages {i : Nat} (hi : i < w.pages * pageSize) : i / pageSize < w.pages :=
  Nat.div_lt_of_lt_mul (Nat.mul_comm .. ▸ hi)

/-- A page that is marked as stored to, and then stored to, is dirty in between. -/
theorem dirty_of_soil {pl : Place} {start : Nat} {bytes : Bytes} (h : Coherent n)
    (hsoil : Move (.soil pl) m n) {o : Moment} (hstore : Move (.store pl start bytes) n o) :
    n.machine.Dirty pl := by
  cases hstore with
  | store hf ho =>
    obtain ⟨p, hp, hres⟩ := h.linked.owner_page hf ho
    obtain ⟨fr, e, -, -, he, -⟩ := h.linked.page_frame hp hres
    refine ⟨e, he, ?_⟩
    cases hsoil with
    | @soil s _ _ sp hs =>
      have he := (entryAt_insert_self _ pl _).symm.trans he
      rw [Directory.set, Table.get?_modify] at he
      obtain ⟨e', -, rfl⟩ := Option.map_eq_some_iff.1 ((if_pos rfl).symm.trans he)
      rw [PageEntry.has_flags_setFlags, PageFlags.has_set, if_pos rfl]

/-- A piece that is stored counts from then on; if it fails the mapping holds what it held. -/
theorem Intact.writePiece {bytes : Bytes} {r : Except PagerError Unit}
    (hintact : w.Intact stored 0 s) (h : Coherent ⟨s, none⟩)
    (hfits : a.value % pageSize + bytes.length ≤ pageSize)
    (run : Machine.writePiece id a bytes s = .ok (r, t)) (halone : w.Alone t) :
    (∃ e, r = .error e) ∧ w.Intact stored 0 t ∨
      r = .ok () ∧ w.Intact (w.receiving stored id a.value bytes) 0 t := by
  rcases writePiece_moves h run with ⟨e, rfl, hmoves⟩ |
    ⟨rfl, u, v, x, hclaim, hmark, hsoil, hstore⟩
  · exact .inl ⟨⟨e, rfl⟩, hintact.moves h hmoves (fun _ => spares_of_claims) halone⟩
  · refine .inr ⟨rfl, ?_⟩
    have hspares : ∀ l, l.Claims (· = .of id a) ∨ l = .soil (.of id a) → w.Spares 0 l := by
      rintro l (hl | rfl)
      · exact spares_of_claims hl
      · exact True.intro
    have hready : Moves (fun l => l.Claims (· = .of id a) ∨ l = .soil (.of id a))
        ⟨s, none⟩ ⟨x, none⟩ :=
      ((hclaim.mono fun _ hl => .inl hl).tail hmark (.inl trivial)).tail hsoil (.inr rfl)
    have hx := h.moves hready
    have hbefore := hintact.moves h hready hspares (hx.since_before hstore halone)
    obtain ⟨data, hholds⟩ := hbefore.holds
    have howned := hbefore.owned.move hx hstore True.intro
    have hvalue : a.pageBase.value + a.pageOffset = a.value := by
      rw [Address.pageBase_value]
      exact Nat.div_add_mod' a.value pageSize
    by_cases hin : ∃ k < w.pages, Place.of id a = w.place k
    · obtain ⟨k, hlt, hplace⟩ := hin
      have hspace : id = w.space := congrArg Place.space hplace
      have hkey : a.pageBase.value = w.start + k * pageSize := congrArg Place.key hplace
      have hdirty := dirty_of_soil hx hsoil hstore
      rw [hplace] at hdirty hstore
      have hafter := hholds.store hx hstore (Nat.zero_le k) hlt hdirty hfits
      rw [← hkey, hvalue] at hafter
      rw [receiving, if_pos hspace]
      exact ⟨howned, data, hafter⟩
    · have hspared : w.Spares 0 (.store (.of id a) a.pageOffset bytes) :=
        fun k _ hlt hplace => hin ⟨k, hlt, hplace⟩
      obtain ⟨after, hafter⟩ := hholds.move hx hbefore.owned hstore hspared halone
      refine ⟨howned, after, hafter.congr fun i hi => ?_⟩
      unfold receiving
      split
      · rename_i hspace
        refine storing_elsewhere (not_and_or.1 ?_ |>.imp Nat.not_le.1 Nat.not_lt.1)
        rintro ⟨hlow, hhigh⟩
        have haligned := hholds.aligned hx (Nat.zero_le _) (div_lt_pages hi)
        refine hin ⟨i / pageSize, div_lt_pages hi, ?_⟩
        obtain ⟨j, hj⟩ := Nat.exists_eq_add_of_le hlow
        rw [← containing_eq_place haligned, hj, ← hspace, Place.of_eq_containing]
        exact (Place.containing_add (by omega)).1.symm
      · rfl

theorem Intact.writePieces {start : Nat} {bytes : Bytes} {r : Except PagerError Unit}
    (hintact : w.Intact stored 0 s) (h : Coherent ⟨s, none⟩) (hstart : a.value ≤ start)
    (run : Machine.writePieces id a bytes (pieces start bytes.length) s = .ok (r, t))
    (halone : w.Alone t) :
    w.Intact (w.receiving stored id start
      (bytes.take (storedCount id a bytes (pieces start bytes.length) s))) 0 t := by
  generalize hlength : bytes.length = length at run ⊢
  induction length using Nat.strongRecOn generalizing s start r bytes stored with
  | ind length ih =>
    by_cases hzero : length = 0
    · subst hzero
      cases run
      rw [pieces_zero, storedCount, List.take_zero, receiving_nil]
      exact hintact
    have hpos := firstPart_pos start (by omega : 0 < length)
    have hle := firstPart_le start length
    have hfits := firstPart_fits start length
    rw [pieces_cons start (by omega)] at run ⊢
    generalize firstPart start length = count at *
    unfold Machine.writePieces at run
    obtain ⟨address, haddress, run⟩ := Action.liftM_bind_eq_ok.1 run
    have hvalue : address.value = start := value_of_add_sub hstart haddress
    have htake : (bytes.take count).length = count := by
      rw [List.length_take]
      omega
    have hdrop : (bytes.drop count).length = length - count := by
      rw [List.length_drop, hlength]
    rw [← htake, ← hvalue] at hfits
    dsimp only at run
    rcases Action.bind_eq_ok.1 run with ⟨_, u, hpiece, run⟩ | ⟨e, hpiece, rfl⟩
    · have hu := h.moves (writePiece_copies h hpiece)
      have halone' : w.Alone u := hu.since_before_moves (writePieces_moves hu run) halone
      rcases hintact.writePiece h hfits hpiece halone' with ⟨⟨e, he⟩, -⟩ | ⟨-, hafter⟩
      · cases he
      · have hrest := ih (length - count) (by omega) hafter hu (by omega) hdrop run
        rw [storedCount_cons_ok haddress hpiece, List.take_add, ← receiving_append, htake,
          ← hvalue]
        rw [hvalue] at hrest ⊢
        exact hrest
    · rcases hintact.writePiece h hfits hpiece halone with ⟨-, hafter⟩ | ⟨hr, -⟩
      · rw [storedCount_cons_error haddress hpiece, List.take_zero, receiving_nil]
        exact hafter
      · cases hr

/-- Bytes that the mapping keeps: those that lie in the file, and those past its end that nothing
was stored to. -/
def Keeps (w : Window) (stored : Nat → Option UInt8) (i : Nat) : Prop :=
  i < w.pages * pageSize ∧ (i < w.count ∨ stored (w.start + i) = none)

/-- What was read from `start` on is what the mapping keeps there. -/
def Shows (w : Window) (stored : Nat → Option UInt8) (id : SpaceId) (start : Nat)
    (bytes : Bytes) : Prop :=
  id = w.space → ∀ i j, w.Keeps stored i → start + j = w.start + i → j < bytes.length →
    bytes[j]? = some (w.byte stored i)

theorem shows_nil {start : Nat} : w.Shows stored id start [] := by
  intro _ _ _ _ _ hj
  cases hj

theorem Shows.append {start : Nat} {bytes others : Bytes} (h : w.Shows stored id start bytes)
    (h' : w.Shows stored id (start + bytes.length) others) :
    w.Shows stored id start (bytes ++ others) := by
  intro hspace i j hkeeps hat hj
  by_cases hlow : j < bytes.length
  · rw [List.getElem?_append_left hlow]
    exact h hspace i j hkeeps hat hlow
  · rw [List.length_append] at hj
    rw [List.getElem?_append_right (by omega)]
    exact h' hspace i _ hkeeps (by omega) (by omega)

theorem Intact.readPiece {count : Nat} {r : Except PagerError Bytes}
    (hintact : w.Intact stored 0 s) (h : Coherent ⟨s, none⟩)
    (hfits : a.value % pageSize + count ≤ pageSize)
    (run : Machine.readPiece id a count s = .ok (r, t)) (halone : w.Alone t) :
    w.Intact stored 0 t ∧
      ∀ bytes, r = .ok bytes → bytes.length = count ∧ w.Shows stored id a.value bytes := by
  obtain ⟨hmoves, hread⟩ := readPiece_moves h run
  have ht := h.moves hmoves
  have hafter := hintact.moves h hmoves (fun _ => spares_of_claims) halone
  refine ⟨hafter, fun bytes hbytes => ?_⟩
  obtain ⟨fr, ⟨f, hf, ho⟩, rfl⟩ := hread bytes hbytes
  have hlen := ht.length_frame hf
  have hoffset : a.pageOffset = a.value % pageSize := rfl
  have hlength : ((t.pool.bytesAt fr.address).slice a.pageOffset count).length = count :=
    Bytes.length_slice_of_le (by omega)
  refine ⟨hlength, ?_⟩
  intro hspace i j hkeeps hat hj
  rw [hlength] at hj
  obtain ⟨data, hholds⟩ := hafter.holds
  obtain ⟨p, hp, hres⟩ := ht.linked.owner_page hf ho
  have hlt := div_lt_pages hkeeps.1
  have haligned := hholds.aligned ht (Nat.zero_le _) hlt
  have hplace : Place.of id a = w.place (i / pageSize) := by
    rw [← containing_eq_place haligned, ← hat, ← hspace, Place.of_eq_containing]
    exact (Place.containing_add (by omega)).1.symm
  have hp : pageAt t.spaces (.of id a) = some p := hp
  rw [hplace] at hp
  have hindex : i / pageSize * pageSize + i % pageSize = i := Nat.div_add_mod' i pageSize
  have hbyte := hholds.resident (Nat.zero_le _) hlt hp hres (Nat.mod_lt i (by decide))
    (by rw [hindex]; exact hkeeps.2)
  have hsum : a.pageOffset + j = i % pageSize := by
    unfold pageSize at *
    omega
  rw [hindex, frameBytes_of_get? hf, ← hsum] at hbyte
  rw [Bytes.getElem?_slice, if_pos hj, hbyte]

theorem Intact.readPieces {start length : Nat} {r : Except PagerError Bytes}
    (hintact : w.Intact stored 0 s) (h : Coherent ⟨s, none⟩) (hstart : a.value ≤ start)
    (run : Machine.readPieces id a (pieces start length) s = .ok (r, t)) (halone : w.Alone t) :
    ∀ bytes, r = .ok bytes → bytes.length = length ∧ w.Shows stored id start bytes := by
  induction length using Nat.strongRecOn generalizing s start r with
  | ind length ih =>
    by_cases hzero : length = 0
    · subst hzero
      cases run
      intro bytes hbytes
      cases hbytes
      exact ⟨rfl, shows_nil⟩
    have hpos := firstPart_pos start (by omega : 0 < length)
    have hle := firstPart_le start length
    have hfits := firstPart_fits start length
    rw [pieces_cons start (by omega)] at run
    generalize firstPart start length = count at *
    unfold Machine.readPieces at run
    obtain ⟨address, haddress, run⟩ := Action.liftM_bind_eq_ok.1 run
    have hvalue : address.value = start := value_of_add_sub hstart haddress
    rw [← hvalue] at hfits
    rcases Action.bind_eq_ok.1 run with ⟨bytes, u, hpiece, run⟩ | ⟨e, -, rfl⟩
    · rcases Action.bind_eq_ok.1 run with ⟨others, v, hrest, hlast⟩ | ⟨e, -, rfl⟩
      · cases hlast
        have hu := h.moves (readPiece_moves h hpiece).1
        have halone' : w.Alone u := hu.since_before_moves (readPieces_moves hu hrest) halone
        obtain ⟨hafter, hbytes⟩ := hintact.readPiece h hfits hpiece halone'
        obtain ⟨hlen, hshows⟩ := hbytes bytes rfl
        obtain ⟨hlen', hshows'⟩ :=
          ih (length - count) (by omega) hafter hu (by omega) hrest others rfl
        intro all hall
        cases hall
        rw [hvalue] at hshows
        rw [← hlen] at hshows'
        exact ⟨by rw [List.length_append]; omega, hshows.append hshows'⟩
      · intro all hall
        cases hall
    · intro all hall
      cases hall

/-- What is read from a mapping is what it holds. -/
theorem Intact.readUser {length : Nat} {bytes : Bytes} (hintact : w.Intact stored 0 s)
    (h : Coherent ⟨s, none⟩) (run : Machine.readUser id a length s = .ok (.ok bytes, t))
    (halone : w.Alone t) : bytes.length = length ∧ w.Shows stored id a.value bytes := by
  unfold Machine.readUser at run
  rcases Action.ofResult_bind_eq_ok.1 run with ⟨_, -, run⟩ | ⟨e, -, he, -⟩
  · exact hintact.readPieces h (Nat.le_refl _) run halone bytes rfl
  · cases he

theorem covers_before_moves {pl : Place} (h : Coherent m) (hmoves : Moves kinds m n)
    (hl : ∀ l, kinds l → w.Foreign l) (hn : w.Covers n.machine pl) : w.Covers m.machine pl :=
  h.preserves (P := fun o => w.Covers o.machine pl → w.Covers m.machine pl) hmoves
    (fun hkind ho hbefore hmove hafter => hbefore (covers_before ho hmove (hl _ hkind) hafter))
    id hn

/-- As long as none of its pages is stored to, nobody asks the file of a mapping to take anything
through its handle. -/
theorem Untouched.moves (huntouched : w.Untouched m.machine) (h : Coherent m)
    (howned : w.Owned first m.machine) (hmoves : Moves kinds m n)
    (hl : ∀ l, kinds l → w.Foreign l) (hsoil : ∀ pl, kinds (.soil pl) → ¬ w.Covers m.machine pl) :
    w.Untouched n.machine := by
  have hall := h.preserves (P := fun o => (w.Owned first o.machine ∧ w.Untouched o.machine) ∧
    ∀ pl, w.Covers o.machine pl → w.Covers m.machine pl) hmoves
    (by
      intro l o o' hkind ho hbefore hmove
      obtain ⟨⟨howned, huntouched⟩, hcovers⟩ := hbefore
      have hback : ∀ pl, w.Covers o'.machine pl → w.Covers m.machine pl := fun pl hpl =>
        hcovers pl (covers_before ho hmove (hl l hkind) hpl)
      refine ⟨⟨howned.move ho hmove (hl l hkind), ?_⟩, hback⟩
      refine huntouched.move ho howned hmove ?_
      rintro pl rfl hpl
      exact hsoil pl hkind (hback pl hpl))
    ⟨⟨howned, huntouched⟩, fun _ hpl => hpl⟩
  exact hall.1.2

theorem Untouched.writePiece {bytes : Bytes} {r : Except PagerError Unit}
    (huntouched : w.Untouched s) (h : Coherent ⟨s, none⟩) (howned : w.Owned first s)
    (run : Machine.writePiece id a bytes s = .ok (r, t))
    (hspared : r = .ok () → ¬ w.Covers s (.of id a)) : w.Untouched t := by
  have hforeign : ∀ l : Label, l.Claims (· = .of id a) → w.Foreign l := by
    intro l hl
    have hspares : w.Spares first l := spares_of_claims hl
    exact hspares.foreign
  rcases writePiece_moves h run with ⟨e, rfl, hmoves⟩ |
    ⟨rfl, u, v, x, hclaim, hmark, hsoil, hstore⟩
  · exact huntouched.moves h howned hmoves hforeign fun pl hl => hl.elim
  · have hmoves : Moves (fun l => l.Claims (· = .of id a) ∨ l = .soil (.of id a) ∨
        l = .store (.of id a) a.pageOffset bytes) ⟨s, none⟩ ⟨t, none⟩ :=
      (((hclaim.mono fun _ hl => .inl hl).tail hmark (.inl trivial)).tail hsoil
        (.inr (.inl rfl))).tail hstore (.inr (.inr rfl))
    refine huntouched.moves h howned hmoves ?_ ?_
    · rintro l (hl | rfl | rfl)
      · exact hforeign l hl
      · exact True.intro
      · exact True.intro
    · rintro pl (hl | hl | hl)
      · exact hl.elim
      · cases hl
        exact hspared rfl
      · cases hl

theorem Untouched.writePieces {start : Nat} {bytes : Bytes} {r : Except PagerError Unit}
    (huntouched : w.Untouched s) (h : Coherent ⟨s, none⟩) (howned : w.Owned first s)
    (hstart : a.value ≤ start)
    (run : Machine.writePieces id a bytes (pieces start bytes.length) s = .ok (r, t))
    (hspared : ∀ i < storedCount id a bytes (pieces start bytes.length) s,
      ¬ w.Covers s (.containing id (start + i))) : w.Untouched t := by
  generalize hlength : bytes.length = length at run hspared
  induction length using Nat.strongRecOn generalizing s start r bytes with
  | ind length ih =>
    by_cases hzero : length = 0
    · subst hzero
      cases run
      exact huntouched
    have hpos := firstPart_pos start (by omega : 0 < length)
    have hle := firstPart_le start length
    rw [pieces_cons start (by omega)] at run hspared
    generalize firstPart start length = count at *
    unfold Machine.writePieces at run
    obtain ⟨address, haddress, run⟩ := Action.liftM_bind_eq_ok.1 run
    have hvalue : address.value = start := value_of_add_sub hstart haddress
    have hdrop : (bytes.drop count).length = length - count := by
      rw [List.length_drop, hlength]
    dsimp only at run
    rcases Action.bind_eq_ok.1 run with ⟨_, u, hpiece, run⟩ | ⟨e, hpiece, rfl⟩
    · rw [storedCount_cons_ok haddress hpiece] at hspared
      dsimp only at hspared
      have hcopies := writePiece_copies h hpiece
      have hforeign : ∀ l : Label, l.Copies id → w.Foreign l := fun l hl => by
        cases l <;> first | exact True.intro | cases hl
      have hafter : w.Untouched u := by
        refine huntouched.writePiece h howned hpiece fun _ => ?_
        have hfirst := hspared 0 (by omega)
        rwa [Nat.add_zero, ← hvalue, ← Place.of_eq_containing] at hfirst
      refine ih (length - count) (by omega) hafter (h.moves hcopies)
        (howned.moves h hcopies hforeign) (by omega) hdrop run fun i hi hcovers => ?_
      have hbefore := covers_before_moves h hcopies hforeign hcovers
      rw [Nat.add_assoc] at hbefore
      exact hspared (count + i) (by omega) hbefore
    · exact huntouched.writePiece h howned hpiece fun hr => by cases hr

end Window
end Pager
