import Mathlib.Algebra.Group.Nat.Defs
import Pager.Directory.Basic

/-!
What a directory entry says. The two masks of a format share no bit, so frame and
flags can be read back from the word they were packed into, and changing one flag
keeps the frame and the other flags.
-/
namespace Pager

namespace EntryFormat

variable (format : EntryFormat) (x y : BitVec 64)

private theorem disjoint_bit (i : Nat) :
    (format.addressMask.getLsbD i && format.flagMask.getLsbD i) = false := by
  have h := congrArg (·.getLsbD i) format.disjoint
  simpa using h

theorem flags_of_packed :
    (x &&& format.addressMask ||| y &&& format.flagMask) &&& format.flagMask =
      y &&& format.flagMask := by
  refine BitVec.eq_of_getLsbD_eq fun i _ => ?_
  have h := format.disjoint_bit i
  simp only [BitVec.getLsbD_and, BitVec.getLsbD_or]
  cases ha : format.addressMask.getLsbD i <;> cases hf : format.flagMask.getLsbD i <;>
    simp_all

theorem address_of_packed :
    (x &&& format.addressMask ||| y &&& format.flagMask) &&& format.addressMask =
      x &&& format.addressMask := by
  refine BitVec.eq_of_getLsbD_eq fun i _ => ?_
  have h := format.disjoint_bit i
  simp only [BitVec.getLsbD_and, BitVec.getLsbD_or]
  cases ha : format.addressMask.getLsbD i <;> cases hf : format.flagMask.getLsbD i <;>
    simp_all

/-- The five flags that the pager uses lie under the flag mask and are named, and a frame below
4 GiB lies under the address mask. -/
class Faithful (format : EntryFormat) : Prop where
  keepsFlag (flag : PageFlag) :
    (format.flagMask &&& format.namedFlags).getLsbD flag.bit = true
  keepsFrame {i : Nat} : 12 ≤ i → i < 32 → format.addressMask.getLsbD i = true

instance : Faithful emulated where
  keepsFlag flag := by cases flag <;> decide
  keepsFrame {i} hlow hhigh := by
    have : ∀ i < 32, 12 ≤ i → emulated.addressMask.getLsbD i = true := by decide
    exact this i hhigh hlow

end EntryFormat

theorem PageFlags.has_empty (flag : PageFlag) : PageFlags.empty.has flag = false := by
  cases flag <;> decide

namespace PageEntry

variable {format : EntryFormat} [format.Faithful] {e : PageEntry format} {frame : format.Frame}
  {flags : PageFlags}

theorem has_flags_of_word {w : BitVec 64} (flag : PageFlag) :
    (PageFlags.ofWord format (w &&& format.flagMask)).has flag = w.getLsbD flag.bit := by
  have h : (format.flagMask &&& format.namedFlags).getLsbD flag.bit = true :=
    EntryFormat.Faithful.keepsFlag flag
  simp only [BitVec.getLsbD_and, Bool.and_eq_true] at h
  simp only [PageFlags.ofWord, PageFlags.has, BitVec.getLsbD_and, h.1, h.2, Bool.and_true]

@[simp] theorem has_flags_setFlags (e : PageEntry format) (flags : PageFlags)
    (flag : PageFlag) : (e.setFlags flags).flags.has flag = flags.has flag := by
  rw [PageEntry.flags, PageEntry.setFlags, EntryFormat.flags_of_packed, has_flags_of_word]
  rfl

theorem frame?_setFlags (h : flags.has .present = e.flags.has .present) :
    (e.setFlags flags).frame? = e.frame? := by
  have hp : (e.setFlags flags).isPresent = e.isPresent := by
    rw [isPresent, has_flags_setFlags, h, isPresent]
  have hw : (e.setFlags flags).word &&& format.addressMask = e.word &&& format.addressMask :=
    EntryFormat.address_of_packed format e.word flags.word
  unfold frame?
  rw [hp, hw]

omit [format.Faithful] in
theorem make_eq_ok : PageEntry.make frame flags = .ok e ↔
    frame.isPageAligned = true ∧
      e = ⟨BitVec.ofNat 64 frame.value &&& format.addressMask |||
        flags.word &&& format.flagMask⟩ := by
  unfold PageEntry.make
  split
  · rename_i h
    simp [h, eq_comm]
  · rename_i h
    simp [h]

theorem has_flags_make (h : PageEntry.make frame flags = .ok e) (flag : PageFlag) :
    e.flags.has flag = flags.has flag := by
  obtain ⟨-, rfl⟩ := make_eq_ok.1 h
  rw [PageEntry.flags, EntryFormat.flags_of_packed, has_flags_of_word]
  rfl

/-- A page-aligned word survives a mask that has all bits from 12 up to its width. -/
theorem toNat_ofNat_and {mask : BitVec 64} {n width : Nat}
    (hmask : ∀ {i}, 12 ≤ i → i < width → mask.getLsbD i = true) (hwidth : width ≤ 64)
    (ha : n % 4096 = 0) (hn : n < 2 ^ width) : (BitVec.ofNat 64 n &&& mask).toNat = n := by
  have hword : n < 2 ^ 64 := Nat.lt_of_lt_of_le hn (Nat.pow_le_pow_right (by omega) hwidth)
  rw [BitVec.toNat_and, BitVec.toNat_ofNat, Nat.mod_eq_of_lt hword]
  refine Nat.eq_of_testBit_eq fun i => ?_
  rw [Nat.testBit_and]
  by_cases h12 : i < 12
  · have hz : n.testBit i = false := by
      obtain ⟨k, rfl⟩ : ∃ k, n = 2 ^ 12 * k := ⟨n / 4096, by omega⟩
      rw [Nat.testBit_two_pow_mul]
      simp [Nat.not_le.2 h12]
    simp [hz]
  · by_cases hi : i < width
    · have hm : mask.toNat.testBit i = true := hmask (by omega) hi
      rw [hm, Bool.and_true]
    · have hz : n.testBit i = false :=
        Nat.testBit_lt_two_pow (Nat.lt_of_lt_of_le hn (Nat.pow_le_pow_right (by omega) (by omega)))
      simp [hz]

theorem frame?_make (h : PageEntry.make frame flags = .ok e) (hp : flags.has .present = true)
    (hv : frame.value < 2 ^ 32) : e.frame? = some frame := by
  have hpresent : e.isPresent = true := by rw [isPresent, has_flags_make h, hp]
  obtain ⟨ha, rfl⟩ := make_eq_ok.1 h
  have haligned : frame.value % 4096 = 0 := Address.isPageAligned_iff.1 ha
  unfold frame?
  rw [hpresent, if_pos rfl, EntryFormat.address_of_packed,
    toNat_ofNat_and EntryFormat.Faithful.keepsFrame (by omega) haligned hv]

/-- The entry translates to the frame at `address` and grants writing as told. -/
def Shows (e : PageEntry .emulated) (address : EntryFormat.emulated.Frame)
    (writable : Bool) : Prop :=
  e.frame? = some address ∧ e.flags.has .writable = writable

/-- The accessed and the dirty bit have no part in the translation. -/
theorem Shows.setFlags {e : PageEntry .emulated} {address : EntryFormat.emulated.Frame}
    {writable : Bool} (h : e.Shows address writable) (flag : PageFlag) (on : Bool)
    (hp : flag ≠ .present) (hw : flag ≠ .writable) :
    (e.setFlags (e.flags.set flag on)).Shows address writable := by
  constructor
  · rw [frame?_setFlags]
    · exact h.1
    · rw [PageFlags.has_set, if_neg (Ne.symm hp)]
  · rw [has_flags_setFlags, PageFlags.has_set, if_neg (Ne.symm hw)]
    exact h.2

end PageEntry

namespace Directory

variable {writable : Bool}

theorem has_freshFlags (flag : PageFlag) :
    (freshFlags writable).has flag =
      (flag == .present || flag == .user || (flag == .writable && writable)) := by
  simp only [freshFlags, PageFlags.has_set]
  cases flag <;> cases writable <;> decide

section

variable {format : EntryFormat} {d after : Directory format} {page : VirtualAddress}
  {frame : format.Frame}

/-- A page with a bit set has an entry. -/
theorem exists_entry_of_has {a : VirtualAddress} {flag : PageFlag} (h : d.has a flag = true) :
    ∃ e, d.entries.get? a.value = some e := by
  cases he : d.entries.get? a.value with
  | some e => exact ⟨e, rfl⟩
  | none =>
    have hempty : PageFlags.empty.has flag = true := by simpa [has, flags, get?, he] using h
    rw [PageFlags.has_empty] at hempty
    cases hempty

theorem map_eq_ok : d.map page frame writable = .ok after ↔
    page.isPageAligned = true ∧
      ∃ e, PageEntry.make frame (freshFlags writable) = .ok e ∧
        after = ⟨d.entries.insert page.value e⟩ := by
  unfold map
  cases hp : page.isPageAligned with
  | false =>
    constructor
    · intro h
      cases h
    · rintro ⟨h, -⟩
      cases h
  | true =>
    cases he : (PageEntry.make frame (freshFlags writable) : Except Bug (PageEntry format)) with
    | error b =>
      constructor
      · intro h
        cases h
      · rintro ⟨-, e, h, -⟩
        cases h
    | ok e =>
      constructor
      · intro h
        cases h
        exact ⟨rfl, e, rfl, rfl⟩
      · rintro ⟨-, e', h, rfl⟩
        cases h
        rfl

end

/-- A fresh entry shows what was entered, whatever was there before. -/
theorem exists_shows_of_map {d after : Directory .emulated} {page : VirtualAddress}
    {frame : EntryFormat.emulated.Frame} (h : d.map page frame writable = .ok after)
    (hv : frame.value < 2 ^ 32) :
    ∃ e, e.Shows frame writable ∧ after = ⟨d.entries.insert page.value e⟩ := by
  obtain ⟨-, e, he, rfl⟩ := map_eq_ok.1 h
  refine ⟨e, ⟨PageEntry.frame?_make he ?_ hv, ?_⟩, rfl⟩
  · rw [has_freshFlags]
    rfl
  · rw [PageEntry.has_flags_make he, has_freshFlags]
    cases writable <;> rfl

end Directory
end Pager
