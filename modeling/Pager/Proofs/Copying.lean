import Pager.Proofs.Touching

/-!
Copies as they look from outside. A range is cut where pages end, and each piece
is read from or stored to the page it lies on, which holds its bytes by then;
so the bytes of a copy are those of the whole range. A copy that stops has
stored the pieces before.
-/
namespace Pager

open Machine

variable {id : SpaceId} {x : Nat}

theorem Place.of_eq_containing (id : SpaceId) (a : VirtualAddress) :
    Place.of id a = .containing id a.value := Place.ext rfl a.pageBase_value

/-- Bytes that lie on one page. -/
theorem Place.containing_add {i : Nat} (h : x % pageSize + i < pageSize) :
    Place.containing id (x + i) = .containing id x ∧ (x + i) % pageSize = x % pageSize + i := by
  refine ⟨Place.ext rfl ?_, ?_⟩
  · show (x + i) / pageSize * pageSize = x / pageSize * pageSize
    unfold pageSize at *
    omega
  · unfold pageSize at *
    omega

section Pieces

variable (start length : Nat)

/-- What a range has on its first page. -/
def firstPart : Nat := min length (pageSize - start % pageSize)

theorem pieces_zero : pieces start 0 = [] := rfl

theorem firstPart_pos {length : Nat} (h : 0 < length) : 0 < firstPart start length := by
  unfold firstPart pageSize
  omega

theorem firstPart_le : firstPart start length ≤ length := Nat.min_le_left ..

theorem firstPart_fits : start % pageSize + firstPart start length ≤ pageSize := by
  unfold firstPart pageSize
  omega

theorem pieces_cons {length : Nat} (h : 0 < length) :
    pieces start length = ⟨start, firstPart start length⟩ ::
      pieces (start + firstPart start length) (length - firstPart start length) := by
  unfold pieces
  rw [if_neg (by omega)]
  dsimp only
  by_cases hlast : length ≤ pageSize - start % pageSize
  · have hpart : firstPart start length = length := Nat.min_eq_left hlast
    have hpages : (start + length - 1) / pageSize + 1 - start / pageSize = 1 := by
      unfold pageSize at *
      omega
    rw [hpart, hpages, if_pos (Nat.sub_self length)]
    simp only [List.range'_one, List.map_cons, List.map_nil]
    refine congrArg (· :: []) ?_
    simp only [Piece.mk.injEq]
    unfold pageSize at *
    omega
  · have hpart : firstPart start length = pageSize - start % pageSize :=
      Nat.min_eq_right (by omega)
    have hnext : (start + (pageSize - start % pageSize)) / pageSize = start / pageSize + 1 := by
      unfold pageSize at *
      omega
    have hend : start + (pageSize - start % pageSize) + (length - (pageSize - start % pageSize)) =
        start + length := by omega
    have hpages : (start + length - 1) / pageSize + 1 - start / pageSize =
        (start + length - 1) / pageSize + 1 - (start / pageSize + 1) + 1 := by
      unfold pageSize at *
      omega
    rw [hpart, if_neg (by omega), hnext, hend, hpages, List.range'_succ, List.map_cons]
    refine congrArg₂ List.cons ?_ (List.map_congr_left fun page hpage => ?_)
    · simp only [Piece.mk.injEq]
      unfold pageSize at *
      omega
    · have hlow : start / pageSize + 1 ≤ page := (List.mem_range'_1.1 hpage).1
      simp only [Piece.mk.injEq]
      unfold pageSize at *
      omega

end Pieces

/-- What a page receives of bytes that are stored from an address on it. -/
theorem Place.receives_of_fits {source : Bytes} {pl : Place} {i : Nat} (hpl : pl = .containing id x)
    (hi : i < pageSize) (byte : UInt8) : pl.receives id x source i byte =
      if x % pageSize ≤ i ∧ i < x % pageSize + source.length then
        source[i - x % pageSize]?.getD byte
      else byte := by
  have hkey : pl.key = x / pageSize * pageSize := congrArg Place.key hpl
  have hself : Place.containing id (pl.key + i) = pl := by
    refine Place.ext (congrArg Place.space hpl).symm ?_
    show (pl.key + i) / pageSize * pageSize = pl.key
    rw [hkey]
    unfold pageSize at *
    omega
  have hsum : pl.key + x % pageSize = x := by
    rw [hkey]
    unfold pageSize
    omega
  rw [Place.receives, hself]
  by_cases hlow : x % pageSize ≤ i
  · have hindex : pl.key + i - x = i - x % pageSize := by omega
    rw [if_pos ⟨rfl, by omega⟩, hindex]
    by_cases hhigh : i < x % pageSize + source.length
    · rw [if_pos ⟨hlow, hhigh⟩]
    · rw [if_neg fun hin => hhigh hin.2, List.getElem?_eq_none (by omega), Option.getD_none]
  · rw [if_neg fun hin => hlow (by omega), if_neg fun hin => hlow hin.1]

/-- Storing in one page, seen from outside. -/
theorem Flat.stored_of_fits {memory : Flat} {source : Bytes} {pl : Place}
    (hpl : pl = .containing id x) (hfits : x % pageSize + source.length ≤ pageSize)
    (hcell : memory pl = none ∨ ∃ bytes, memory pl = some (.holding bytes) ∧
      bytes.length = pageSize) :
    Function.update memory pl ((memory pl).map (Cell.overlay (x % pageSize) source)) =
      memory.stored id x source := by
  funext other
  by_cases he : other = pl
  · subst he
    rw [Function.update_self, stored]
    rcases hcell with hnone | ⟨bytes, hbytes, hlen⟩
    · rw [hnone]
      rfl
    · rw [hbytes, Option.map_some, Option.map_some]
      refine congrArg some (congrArg Cell.holding (List.ext_getElem? fun i => ?_))
      rw [List.getElem?_mapIdx]
      by_cases hi : i < pageSize
      · have hlt : i < bytes.length := by
          rw [hlen]
          exact hi
        have hbyte := List.getElem?_eq_getElem hlt
        rw [Bytes.getElem?_overlay _ _ _ hlt, hbyte, Option.map_some,
          Place.receives_of_fits hpl hi]
        split
        · rw [List.getElem?_eq_getElem (by omega), Option.getD_some]
        · rfl
      · rw [List.getElem?_eq_none (by rw [Bytes.length_overlay]; omega),
          List.getElem?_eq_none (by omega), Option.map_none]
  · rw [Function.update_of_ne he, stored]
    have helsewhere : ∀ i < source.length, Place.containing id (x + i) ≠ other := by
      intro i hi hother
      rw [(Place.containing_add (by omega)).1, ← hpl] at hother
      exact he hother.symm
    cases memory other with
    | none => rfl
    | some c =>
      exact congrArg some (Cell.mapBytes_of_same (receives_elsewhere helsewhere) c).symm

namespace Machine

variable {s t : Machine} {a : VirtualAddress}

theorem value_of_add_sub {source address : VirtualAddress} {start : Nat}
    (hle : source.value ≤ start) (h : source.add (start - source.value) = .ok address) :
    address.value = start := by
  rw [Address.eq_of_add h]
  exact Nat.add_sub_cancel' hle

/-- What is read of a page is what its cell holds in the end. -/
theorem readPiece_yields (h : Coherent ⟨s, none⟩) (hw : s.Willing) {count : Nat}
    {r : Except PagerError Bytes} (hfits : a.value % pageSize + count ≤ pageSize)
    (run : readPiece id a count s = .ok (r, t)) :
    s.ideal.Touches (· = .containing id a.value) t.ideal ∧ t.Willing ∧
      ∀ bytes, r = .ok bytes → bytes.length = count ∧
        ∀ i byte, bytes[i]? = some byte → t.flat.Yields id (a.value + i) byte := by
  obtain ⟨hmoves, hread⟩ := readPiece_moves h run
  obtain ⟨htouches, hwilling⟩ := h.touches_moves hw hmoves fun l hl => hl.settles
  rw [Place.of_eq_containing] at htouches hread
  refine ⟨htouches, hwilling, fun bytes hbytes => ?_⟩
  obtain ⟨fr, ⟨f, hf, ho⟩, rfl⟩ := hread bytes hbytes
  have ht := h.moves hmoves
  have hlen := ht.length_frame hf
  obtain ⟨p, hp, hres⟩ := ht.linked.owner_page hf ho
  have hp : Pager.pageAt t.spaces (.containing id a.value) = some p := hp
  have hoffset : a.pageOffset = a.value % pageSize := rfl
  refine ⟨Bytes.length_slice_of_le (by omega), fun i byte hbyte => ?_⟩
  rw [Bytes.getElem?_slice] at hbyte
  have hi : i < count := by
    by_contra hcon
    rw [if_neg hcon] at hbyte
    cases hbyte
  rw [if_pos hi] at hbyte
  obtain ⟨hplace, hindex⟩ := Place.containing_add (by omega : a.value % pageSize + i < pageSize)
  unfold Flat.Yields
  rw [hplace, hindex]
  rcases ht.flat_resident hp hres with ⟨hnone, -⟩ | hholding
  · rw [hnone]
    trivial
  · rw [hholding, frameBytes_of_get? hf]
    exact hbyte

theorem readPieces_yields {source : VirtualAddress} {start length : Nat}
    {r : Except PagerError Bytes} (h : Coherent ⟨s, none⟩) (hw : s.Willing)
    (hstart : source.value ≤ start)
    (run : readPieces id source (pieces start length) s = .ok (r, t)) :
    s.ideal.Touches (Ideal.Meets id start length) t.ideal ∧ t.Willing ∧
      ∀ bytes, r = .ok bytes → bytes.length = length ∧
        ∀ i byte, bytes[i]? = some byte → t.flat.Yields id (start + i) byte := by
  induction length using Nat.strongRecOn generalizing s t start r with
  | ind length ih =>
    by_cases hzero : length = 0
    · subst hzero
      cases run
      refine ⟨.refl, hw, fun bytes hbytes => ?_⟩
      cases hbytes
      exact ⟨rfl, fun i byte hbyte => by cases hbyte⟩
    have hpos := firstPart_pos start (by omega : 0 < length)
    have hle := firstPart_le start length
    have hfits := firstPart_fits start length
    rw [pieces_cons start (by omega)] at run
    generalize firstPart start length = count at *
    obtain ⟨address, haddress, hrun⟩ := readPieces_cons run
    have hvalue : address.value = start := value_of_add_sub hstart haddress
    rw [← hvalue] at hfits
    have hfirst : ∀ pl, pl = Place.containing id address.value →
        Ideal.Meets id start length pl := by
      rintro pl rfl
      rw [hvalue]
      exact .first (by omega)
    rcases hrun with ⟨e, rfl, hpiece⟩ | ⟨bytes, q, u, hpiece, hrest, rfl⟩
    · obtain ⟨htouches, hwilling, -⟩ := readPiece_yields h hw hfits hpiece
      exact ⟨htouches.mono hfirst, hwilling, fun all hall => by cases hall⟩
    · obtain ⟨htouches, hwilling, hbytes⟩ := readPiece_yields h hw hfits hpiece
      obtain ⟨hlen, hyields⟩ := hbytes bytes rfl
      have hu := h.moves ((readPiece_moves h hpiece).1)
      obtain ⟨htouches', hwilling', hothers⟩ := ih (length - count) (by omega) hu hwilling
        (by omega) hrest
      refine ⟨(htouches.mono hfirst).trans (htouches'.mono fun pl hpl => hpl.later hle), hwilling',
        fun all hall => ?_⟩
      cases q with
      | error e => cases hall
      | ok others =>
        cases hall
        obtain ⟨hlen', hyields'⟩ := hothers others rfl
        refine ⟨by rw [List.length_append]; omega, fun i byte hbyte => ?_⟩
        by_cases hi : i < bytes.length
        · rw [List.getElem?_append_left hi] at hbyte
          have hearly := hyields i byte hbyte
          rw [hvalue] at hearly
          exact htouches'.yields hearly
        · rw [List.getElem?_append_right (by omega)] at hbyte
          have hlate := hyields' _ byte hbyte
          have hsum : start + count + (i - bytes.length) = start + i := by omega
          rw [hsum] at hlate
          exact hlate

theorem readUser_yields {length : Nat} {r : Except PagerError Bytes} (h : Coherent ⟨s, none⟩)
    (hw : s.Willing) (run : readUser id a length s = .ok (r, t)) :
    s.ideal.Touches (Ideal.Meets id a.value length) t.ideal ∧
      ∀ bytes, r = .ok bytes → bytes.length = length ∧
        ∀ i byte, bytes[i]? = some byte → t.flat.Yields id (a.value + i) byte := by
  unfold readUser at run
  rcases Action.ofResult_bind_eq_ok.1 run with ⟨_, -, run⟩ | ⟨e, -, rfl, rfl⟩
  · obtain ⟨htouches, -, hyields⟩ := readPieces_yields h hw (Nat.le_refl _) run
    exact ⟨htouches, hyields⟩
  · exact ⟨.refl, fun bytes hbytes => by cases hbytes⟩

/-- What a page receives goes to its cell. -/
theorem store_stores {u v : Machine} {bytes : Bytes} (hu : Coherent ⟨u, none⟩)
    (hmove : Move (.store (.containing id a.value) a.pageOffset bytes) ⟨u, none⟩ ⟨v, none⟩)
    (hfits : a.value % pageSize + bytes.length ≤ pageSize) (among : Place → Prop) :
    u.ideal.Stores among id a.value bytes v.ideal := by
  have hflat := hu.flat_store hmove
  cases hmove with
  | store hf ho hwrite =>
    obtain ⟨p, hp, hres⟩ := hu.linked.owner_page hf ho
    have hp : Pager.pageAt u.spaces (.containing id a.value) = some p := hp
    have hlen := hu.length_frame hf
    rw [← frameBytes_of_get? hf] at hlen
    have hcell := hu.flat_resident hp hres
    refine ⟨u.flat, .refl, fun i hi hwaits => ?_, hflat.trans (Flat.stored_of_fits rfl hfits ?_)⟩
    · rw [(Place.containing_add (by omega)).1] at hwaits
      obtain ⟨w, hwaiting⟩ := hwaits
      rcases hcell with ⟨hnone, -⟩ | hholding
      · rw [hnone] at hwaiting
        cases hwaiting
      · rw [hholding] at hwaiting
        cases hwaiting
    · rcases hcell with ⟨hnone, -⟩ | hholding
      · exact .inl hnone
      · exact .inr ⟨_, hholding, hlen⟩

theorem writePiece_stores (h : Coherent ⟨s, none⟩) (hw : s.Willing) {bytes : Bytes}
    {r : Except PagerError Unit} (hfits : a.value % pageSize + bytes.length ≤ pageSize)
    (run : writePiece id a bytes s = .ok (r, t)) :
    Coherent ⟨t, none⟩ ∧ t.Willing ∧
      ((∃ e, r = .error e) ∧ s.ideal.Touches (· = .containing id a.value) t.ideal ∨
        r = .ok () ∧ s.ideal.Stores (· = .containing id a.value) id a.value bytes t.ideal) := by
  rcases writePiece_moves h run with ⟨e, rfl, hmoves⟩ |
    ⟨rfl, u, v, w, hclaim, hmark, hsoil, hstore⟩
  · obtain ⟨htouches, hwilling⟩ := h.touches_moves hw hmoves fun l hl => hl.settles
    rw [Place.of_eq_containing] at htouches
    exact ⟨h.moves hmoves, hwilling, .inl ⟨⟨e, rfl⟩, htouches⟩⟩
  · rw [Place.of_eq_containing] at hclaim hstore
    have hready := ((hclaim.mono fun l hl => hl.settles).tail hmark rfl).tail hsoil rfl
    obtain ⟨hbefore, hwilling⟩ := h.touches_moves hw hready fun l hl => hl
    have hcoherent := h.moves hready
    have ht : t.Willing := hstore.willing hwilling fun refuses hl => by cases hl
    exact ⟨hcoherent.move hstore, ht, .inr ⟨rfl, hbefore.stores (store_stores hcoherent hstore hfits _)⟩⟩

/-- How many bytes the pieces have that are stored before one of them fails. -/
def storedCount (id : SpaceId) (target : VirtualAddress) : Bytes → List Piece → Machine → Nat
  | _, [], _ => 0
  | bytes, piece :: rest, s =>
    match target.add (piece.start - target.value) with
    | .error _ => 0
    | .ok address =>
      match writePiece id address (bytes.take piece.count) s with
      | .ok (.ok (), t) => piece.count + storedCount id target (bytes.drop piece.count) rest t
      | _ => 0

section

variable {target address : VirtualAddress} {piece : Piece} {rest : List Piece} {bytes : Bytes}

theorem storedCount_cons_ok (ha : target.add (piece.start - target.value) = .ok address)
    (hpiece : writePiece id address (bytes.take piece.count) s = .ok (.ok (), t)) :
    storedCount id target bytes (piece :: rest) s =
      piece.count + storedCount id target (bytes.drop piece.count) rest t := by
  simp only [storedCount, ha, hpiece]

theorem storedCount_cons_error {e : PagerError}
    (ha : target.add (piece.start - target.value) = .ok address)
    (hpiece : writePiece id address (bytes.take piece.count) s = .ok (.error e, t)) :
    storedCount id target bytes (piece :: rest) s = 0 := by
  simp only [storedCount, ha, hpiece]

end

/-- A copy stores its bytes up to the piece that fails, if one does. -/
theorem writePieces_stores {target : VirtualAddress} {start : Nat} {bytes : Bytes}
    {r : Except PagerError Unit} (h : Coherent ⟨s, none⟩) (hw : s.Willing)
    (hstart : target.value ≤ start)
    (run : writePieces id target bytes (pieces start bytes.length) s = .ok (r, t)) :
    (r = .ok () → storedCount id target bytes (pieces start bytes.length) s = bytes.length) ∧
      s.ideal.Stores (Ideal.Meets id start bytes.length) id start
        (bytes.take (storedCount id target bytes (pieces start bytes.length) s)) t.ideal := by
  generalize hlength : bytes.length = length at run ⊢
  induction length using Nat.strongRecOn generalizing s start r bytes with
  | ind length ih =>
    by_cases hzero : length = 0
    · subst hzero
      cases run
      rw [pieces_zero, storedCount, List.take_zero]
      exact ⟨fun _ => rfl, Ideal.Touches.refl.stores_nil⟩
    have hpos := firstPart_pos start (by omega : 0 < length)
    have hle := firstPart_le start length
    have hfits := firstPart_fits start length
    rw [pieces_cons start (by omega)] at run ⊢
    generalize firstPart start length = count at *
    obtain ⟨address, haddress, hrun⟩ := writePieces_cons run
    have hvalue : address.value = start := value_of_add_sub hstart haddress
    have hfirst : ∀ pl, pl = Place.containing id start → Ideal.Meets id start length pl := by
      rintro pl rfl
      exact .first (by omega)
    have htake : (bytes.take count).length = count := by
      rw [List.length_take]
      omega
    have hdrop : (bytes.drop count).length = length - count := by
      rw [List.length_drop, hlength]
    rw [← htake, ← hvalue] at hfits
    dsimp only at hrun
    rcases hrun with ⟨e, rfl, hpiece⟩ | ⟨u, hpiece, hrest⟩
    · obtain ⟨-, -, ⟨-, htouches⟩ | ⟨hr, -⟩⟩ := writePiece_stores h hw hfits hpiece
      · rw [hvalue] at htouches
        rw [storedCount_cons_error haddress hpiece, List.take_zero]
        refine ⟨fun hr => ?_, (htouches.mono hfirst).stores_nil⟩
        cases hr
      · cases hr
    · obtain ⟨hu, hwilling, ⟨⟨e, he⟩, -⟩ | ⟨-, hstores⟩⟩ := writePiece_stores h hw hfits hpiece
      · cases he
      rw [hvalue] at hstores
      obtain ⟨hall, hlater⟩ := ih (length - count) (by omega) hu hwilling (by omega) hdrop hrest
      rw [storedCount_cons_ok haddress hpiece]
      dsimp only
      refine ⟨fun hr => ?_, ?_⟩
      · rw [hall hr]
        omega
      · rw [List.take_add]
        refine (hstores.mono hfirst).append ?_
        rw [htake]
        exact hlater.mono fun pl hpl => hpl.later hle

theorem writeUser_stores {bytes : Bytes} {r : Except PagerError Unit} (h : Coherent ⟨s, none⟩)
    (hw : s.Willing) (run : writeUser id a bytes s = .ok (r, t)) :
    r = .ok () ∧ s.ideal.Stores (Ideal.Meets id a.value bytes.length) id a.value bytes t.ideal ∨
      (∃ e, r = .error e) ∧ ∃ count,
        s.ideal.Stores (Ideal.Meets id a.value bytes.length) id a.value (bytes.take count)
          t.ideal := by
  unfold writeUser at run
  rcases Action.ofResult_bind_eq_ok.1 run with ⟨_, -, run⟩ | ⟨e, -, rfl, rfl⟩
  · obtain ⟨hall, hstores⟩ := writePieces_stores h hw (Nat.le_refl _) run
    cases r with
    | ok =>
      rw [hall rfl, List.take_length] at hstores
      exact .inl ⟨rfl, hstores⟩
    | error e => exact .inr ⟨⟨e, rfl⟩, _, hstores⟩
  · exact .inr ⟨⟨e, rfl⟩, 0, Ideal.Touches.refl.stores_nil⟩

end Machine
end Pager
