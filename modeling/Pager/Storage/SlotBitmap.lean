/-!
The bitmap of the swap table: one bit for each slot, 64 slots to a word, and a
counter of the bits that are set. The last word can have bits that no slot
belongs to; the search for a clear bit sees them, and so must stop at them.
-/
namespace Pager

namespace SlotBitmap

variable {words : List (BitVec 64)} {slot : Nat}

/-- The word that has the bit of a slot. -/
def word (words : List (BitVec 64)) (slot : Nat) : BitVec 64 := words.getD (slot / 64) 0

/-- The bit of a slot in its word. -/
def mask (slot : Nat) : BitVec 64 := 1#64 <<< (slot % 64)

def isSet (words : List (BitVec 64)) (slot : Nat) : Bool := word words slot &&& mask slot != 0

/-- The lowest clear bit of all the words. -/
def lowestClear (words : List (BitVec 64)) : Option Nat :=
  (words.findIdx? (· != BitVec.allOnes 64)).map fun index =>
    index * 64 + (~~~words.getD index 0).ctz.toNat

theorem isSet_eq : isSet words slot = (word words slot).getLsbD (slot % 64) := by
  have hbit : slot % 64 < 64 := Nat.mod_lt _ (by decide)
  have hne : BitVec.twoPow 64 (slot % 64) ≠ 0 := by
    intro hzero
    have hset := congrArg (BitVec.getLsbD · (slot % 64)) hzero
    simp [hbit] at hset
  rw [isSet, mask, ← BitVec.twoPow_eq, BitVec.and_twoPow]
  cases (word words slot).getLsbD (slot % 64) with
  | false => rfl
  | true => simpa using hne

theorem getLsbD_mask (j : Nat) : (mask slot).getLsbD j = decide (j = slot % 64) := by
  have hbit : slot % 64 < 64 := Nat.mod_lt _ (by decide)
  rw [mask, ← BitVec.twoPow_eq, BitVec.getLsbD_twoPow]
  simp [hbit, eq_comm]

/-- A word that differs from that of a slot in the slot's bit changes that bit and no other. -/
theorem isSet_set {new : BitVec 64} {b : Bool} (hslot : slot / 64 < words.length)
    (hnew : ∀ j < 64, new.getLsbD j = if j = slot % 64 then b else (word words slot).getLsbD j)
    (other : Nat) :
    isSet (words.set (slot / 64) new) other = if other = slot then b else isSet words other := by
  have hbit : other % 64 < 64 := Nat.mod_lt _ (by decide)
  rw [isSet_eq, isSet_eq, word, word, List.getD_eq_getElem?_getD]
  by_cases hword : other / 64 = slot / 64
  · rw [hword, List.getElem?_set_self hslot, Option.getD_some, hnew _ hbit, word]
    have hsame : other % 64 = slot % 64 ↔ other = slot := by omega
    simp only [hsame]
  · have hne : other ≠ slot := fun h => hword (h ▸ rfl)
    rw [List.getElem?_set_ne (Ne.symm hword), ← List.getD_eq_getElem?_getD, if_neg hne]

theorem isSet_or_mask (hslot : slot / 64 < words.length) (other : Nat) :
    isSet (words.set (slot / 64) (word words slot ||| mask slot)) other =
      if other = slot then true else isSet words other := by
  refine isSet_set hslot (fun j hj => ?_) other
  rw [BitVec.getLsbD_or, getLsbD_mask j]
  by_cases he : j = slot % 64 <;> simp [he]

theorem isSet_and_not_mask (hslot : slot / 64 < words.length) (other : Nat) :
    isSet (words.set (slot / 64) (word words slot &&& ~~~mask slot)) other =
      if other = slot then false else isSet words other := by
  refine isSet_set hslot (fun j hj => ?_) other
  rw [BitVec.getLsbD_and, BitVec.getLsbD_not, getLsbD_mask j]
  by_cases he : j = slot % 64 <;> simp [he, hj]

/-- A word that is not full has a clear bit, and the complement counts the set bits below it. -/
theorem getLsbD_ctz_not {w : BitVec 64} (hw : w ≠ BitVec.allOnes 64) :
    (~~~w).ctz.toNat < 64 ∧ w.getLsbD (~~~w).ctz.toNat = false ∧
      ∀ j < (~~~w).ctz.toNat, w.getLsbD j = true := by
  have hne : ~~~w ≠ 0#64 := by
    intro hzero
    exact hw (by rw [← BitVec.not_not (b := w), hzero, BitVec.not_zero])
  have hlt : (~~~w).ctz.toNat < 64 := by
    have := BitVec.ctz_lt_iff_ne_zero.2 hne
    simpa [BitVec.lt_def] using this
  refine ⟨hlt, ?_, fun j hj => ?_⟩
  · have hset := BitVec.getLsbD_true_ctz_of_ne_zero hne
    rw [BitVec.getLsbD_not] at hset
    simpa [hlt] using hset
  · have hclear := BitVec.getLsbD_false_of_lt_ctz hj
    rw [BitVec.getLsbD_not] at hclear
    have hj64 : j < 64 := by omega
    simpa [hj64] using hclear

/-- The bit found is clear, and every bit below it is set. -/
theorem lowestClear_eq_some (h : lowestClear words = some slot) :
    isSet words slot = false ∧ ∀ other < slot, isSet words other = true := by
  obtain ⟨index, hindex, rfl⟩ := Option.map_eq_some_iff.1 h
  obtain ⟨hlt, hfree, hfull⟩ := List.findIdx?_eq_some_iff_getElem.1 hindex
  have hgetD : ∀ i (hi : i < words.length), words.getD i 0 = words[i] := fun i hi => by
    rw [List.getD_eq_getElem?_getD, List.getElem?_eq_getElem hi, Option.getD_some]
  obtain ⟨hbit, hclear, hset⟩ := getLsbD_ctz_not (w := words[index]) (by simpa using hfree)
  rw [hgetD index hlt]
  generalize (~~~words[index]).ctz.toNat = bit at hbit hclear hset
  refine ⟨?_, fun other hother => ?_⟩
  · rw [isSet_eq, word, show (index * 64 + bit) / 64 = index by omega,
      show (index * 64 + bit) % 64 = bit by omega, hgetD index hlt, hclear]
  · -- a bit below lies in an earlier word, which is full, or lower in the same word
    rw [isSet_eq, word]
    by_cases hword : other / 64 < index
    · have hones : words[other / 64] = BitVec.allOnes 64 := by simpa using hfull _ hword
      rw [hgetD _ (by omega), hones, BitVec.getLsbD_allOnes]
      simp [Nat.mod_lt]
    · have hsame : other / 64 = index := by omega
      rw [hsame, hgetD index hlt]
      exact hset _ (by omega)

/-- With no bit found the words are full. -/
theorem lowestClear_eq_none (h : lowestClear words = none) (hslot : slot / 64 < words.length) :
    isSet words slot = true := by
  have hfull := List.findIdx?_eq_none_iff.1 (Option.map_eq_none_iff.1 h) _
    (List.getElem_mem hslot)
  have hones : words[slot / 64] = BitVec.allOnes 64 := by simpa using hfull
  rw [isSet_eq, word, List.getD_eq_getElem?_getD, List.getElem?_eq_getElem hslot,
    Option.getD_some, hones, BitVec.getLsbD_allOnes]
  simp [Nat.mod_lt]

/-- With one more slot counted the count is one more. -/
theorem countP_range_add_one {p q : Nat → Bool} {n : Nat} (hslot : slot < n)
    (hp : p slot = false) (hq : q slot = true) (hother : ∀ other ≠ slot, q other = p other) :
    (List.range n).countP q = (List.range n).countP p + 1 := by
  have hperm := List.perm_cons_erase (List.mem_range.2 hslot)
  rw [hperm.countP_eq, hperm.countP_eq, List.countP_cons, List.countP_cons, hp, hq]
  have hrest : ((List.range n).erase slot).countP q = ((List.range n).erase slot).countP p := by
    refine List.countP_congr fun other hmem => ?_
    rw [hother other (List.nodup_range.mem_erase_iff.1 hmem).1]
  simpa using hrest

end SlotBitmap

structure SlotBitmap where
  words : List (BitVec 64)
  slots : Nat
  /-- The number of slots whose bit is set. -/
  used : Nat
  length_words : words.length = (slots + 63) / 64
  used_eq : used = (List.range slots).countP (SlotBitmap.isSet words)

namespace SlotBitmap

variable {bitmap next : SlotBitmap} {slot : Nat}

def ofSlots (slots : Nat) : SlotBitmap where
  words := List.replicate ((slots + 63) / 64) 0
  slots := slots
  used := 0
  length_words := List.length_replicate
  used_eq := by
    refine (List.countP_eq_zero.2 fun slot _ => ?_).symm
    have hword : word (List.replicate ((slots + 63) / 64) 0) slot = 0 := by
      rw [word, List.getD_eq_getElem?_getD, List.getElem?_replicate]
      split <;> rfl
    rw [isSet_eq, hword, BitVec.ofNat_eq_ofNat, BitVec.getLsbD_zero]
    exact Bool.false_ne_true

/-- Every slot has a word. -/
theorem div_lt_length (bitmap : SlotBitmap) (hslot : slot < bitmap.slots) :
    slot / 64 < bitmap.words.length := by
  rw [bitmap.length_words]
  omega

/-- The bitmap with the clear bit of a slot set. -/
def claim (bitmap : SlotBitmap) (slot : Nat) (hslot : slot < bitmap.slots)
    (hclear : isSet bitmap.words slot = false) : SlotBitmap where
  words := bitmap.words.set (slot / 64) (word bitmap.words slot ||| mask slot)
  slots := bitmap.slots
  used := bitmap.used + 1
  length_words := by rw [List.length_set, bitmap.length_words]
  used_eq := by
    have hset := isSet_or_mask (bitmap.div_lt_length hslot)
    rw [bitmap.used_eq]
    refine (countP_range_add_one hslot hclear ?_ fun other hne => ?_).symm
    · rw [hset, if_pos rfl]
    · rw [hset, if_neg hne]

/-- Claims the lowest clear bit. -/
def allocate (bitmap : SlotBitmap) : Option (Nat × SlotBitmap) :=
  match h : lowestClear bitmap.words with
  | none => none
  | some slot =>
    if hslot : slot < bitmap.slots then
      some (slot, bitmap.claim slot hslot (lowestClear_eq_some h).1)
    else none

def test (bitmap : SlotBitmap) (slot : Nat) : Bool :=
  decide (slot < bitmap.slots) && isSet bitmap.words slot

/-- Clears a set bit. -/
def clear (bitmap : SlotBitmap) (slot : Nat) : Option SlotBitmap :=
  if h : bitmap.test slot = true then
    have hslot : slot < bitmap.slots ∧ isSet bitmap.words slot = true := by simpa [test] using h
    have hset := isSet_and_not_mask (bitmap.div_lt_length hslot.1)
    some {
      words := bitmap.words.set (slot / 64) (word bitmap.words slot &&& ~~~mask slot)
      slots := bitmap.slots
      used := bitmap.used - 1
      length_words := by rw [List.length_set, bitmap.length_words]
      used_eq := by
        have hcount := countP_range_add_one hslot.1 ((hset slot).trans (if_pos rfl)) hslot.2
          fun other hne => ((hset other).trans (if_neg hne)).symm
        rw [bitmap.used_eq, hcount, Nat.add_sub_cancel] }
  else none

theorem lt_of_test (h : bitmap.test slot = true) : slot < bitmap.slots := by
  rw [test, Bool.and_eq_true, decide_eq_true_eq] at h
  exact h.1

theorem test_eq_isSet (hslot : slot < bitmap.slots) :
    bitmap.test slot = isSet bitmap.words slot := by
  rw [test, decide_eq_true hslot, Bool.true_and]

theorem used_eq_countP_test (bitmap : SlotBitmap) :
    bitmap.used = (List.range bitmap.slots).countP bitmap.test := by
  rw [bitmap.used_eq]
  exact List.countP_congr fun slot h => by rw [test_eq_isSet (List.mem_range.1 h)]

theorem used_le_slots (bitmap : SlotBitmap) : bitmap.used ≤ bitmap.slots := by
  rw [bitmap.used_eq]
  exact Nat.le_trans List.countP_le_length (Nat.le_of_eq List.length_range)

theorem used_eq_slots_iff :
    bitmap.used = bitmap.slots ↔ ∀ slot < bitmap.slots, bitmap.test slot = true := by
  have hall : (List.range bitmap.slots).countP bitmap.test = (List.range bitmap.slots).length ↔
      ∀ slot ∈ List.range bitmap.slots, bitmap.test slot = true := List.countP_eq_length
  rw [List.length_range, ← used_eq_countP_test] at hall
  simpa only [List.mem_range] using hall

theorem test_ofSlots (slots : Nat) : (ofSlots slots).test slot = false := by
  have hcount : (List.range slots).countP (ofSlots slots).test = 0 :=
    (used_eq_countP_test (ofSlots slots)).symm
  refine Bool.eq_false_iff.2 fun h => ?_
  exact List.countP_eq_zero.1 hcount slot (List.mem_range.2 (lt_of_test h)) h

/-- The slot claimed is the lowest that was clear. -/
theorem allocate_eq_some (h : bitmap.allocate = some (slot, next)) :
    bitmap.test slot = false ∧ (∀ other < slot, bitmap.test other = true) ∧
      next.slots = bitmap.slots ∧ next.used = bitmap.used + 1 ∧
      ∀ other, next.test other = if other = slot then true else bitmap.test other := by
  unfold allocate at h
  split at h
  · cases h
  · rename_i found hfound
    obtain ⟨hclear, hbelow⟩ := lowestClear_eq_some hfound
    split at h
    · rename_i hslot
      cases h
      refine ⟨by rw [test_eq_isSet hslot, hclear], fun other hother => ?_, rfl, rfl, fun other => ?_⟩
      · rw [test_eq_isSet (Nat.lt_trans hother hslot), hbelow other hother]
      · have hset := isSet_or_mask (bitmap.div_lt_length hslot) other
        by_cases he : other = slot
        · subst he
          rw [if_pos rfl, test, Bool.and_eq_true, decide_eq_true_eq]
          exact ⟨hslot, hset.trans (if_pos rfl)⟩
        · rw [if_neg he, test, test]
          exact congrArg _ (hset.trans (if_neg he))
    · cases h

/-- Nothing is claimed only when all is: the bits of no slot do not count. -/
theorem allocate_eq_none (h : bitmap.allocate = none) (hslot : slot < bitmap.slots) :
    bitmap.test slot = true := by
  rw [test_eq_isSet hslot]
  unfold allocate at h
  split at h
  · rename_i hnone
    exact lowestClear_eq_none hnone (bitmap.div_lt_length hslot)
  · rename_i found hfound
    split at h
    · cases h
    · rename_i hbeyond
      exact (lowestClear_eq_some hfound).2 slot (by omega)

theorem isSome_clear : (bitmap.clear slot).isSome = bitmap.test slot := by
  unfold clear
  split
  · rename_i h
    exact h.symm
  · rename_i h
    exact (Bool.not_eq_true _ ▸ h).symm

theorem clear_eq_some (h : bitmap.clear slot = some next) :
    next.slots = bitmap.slots ∧ next.used = bitmap.used - 1 ∧
      ∀ other, next.test other = if other = slot then false else bitmap.test other := by
  unfold clear at h
  split at h
  · rename_i htest
    cases h
    refine ⟨rfl, rfl, fun other => ?_⟩
    have hset := isSet_and_not_mask (bitmap.div_lt_length (lt_of_test htest)) other
    rw [test, hset]
    by_cases he : other = slot
    · rw [if_pos he, if_pos he, Bool.and_false]
    · rw [if_neg he, if_neg he, test]
  · cases h

end SlotBitmap
end Pager
