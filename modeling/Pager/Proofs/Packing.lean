import Pager.Proofs.Encodings

/-!
Entries whose flags are replaced over and over by whole words. Whatever bits these words have
where the frame lies, the entry keeps its frame, also through the time that it is not present,
and shows the flags of the last word.
-/
namespace Pager

/-- The bits told are the format's flags, the present bit among them, and a frame of its width
lies in bits that it keeps for frames. -/
structure EntryFormat.Keeps (format : EntryFormat) (isFlag : Nat → Bool) : Prop where
  flag : ∀ i < 64, (format.flagMask &&& format.namedFlags).getLsbD i = isFlag i
  present : isFlag 0 = true
  frame : ∀ {i}, 12 ≤ i → i < format.physicalWidth → format.addressMask.getLsbD i = true
  width_le : format.physicalWidth ≤ 64

namespace PageEntry

variable {format : EntryFormat} {isFlag : Nat → Bool} {e : PageEntry format}
  {frame : format.Frame} {flags : PageFlags} {w : BitVec 64}

/-- Replaces the flags by each of some words, one after the other. -/
def setAll (e : PageEntry format) (words : List (BitVec 64)) : PageEntry format :=
  words.foldl (fun e w => e.setFlags (.ofWord format w)) e

/-- The entry shows the flags of the word `w`, and the frame as `w` has the present bit or not.
Once that bit is set again, whatever the other flags are, it shows the frame. -/
structure Holds (e : PageEntry format) (frame : format.Frame) (isFlag : Nat → Bool)
    (w : BitVec 64) : Prop where
  flags : ∀ i, e.flags.word.getLsbD i = (isFlag i && w.getLsbD i)
  shown : e.frame? = if w.getLsbD 0 then some frame else none
  recovers : ∀ flags : PageFlags, flags.has .present = true →
    (e.setFlags flags).frame? = some frame

/-- The frame's address is in the entry's word, present or not. -/
def Carries (e : PageEntry format) (frame : format.Frame) : Prop :=
  (e.word &&& format.addressMask).toNat = frame.value

theorem carries_make (hformat : format.Keeps isFlag)
    (hframe : (AddressKind.physical format.physicalWidth).Admits frame.value)
    (h : PageEntry.make frame flags = .ok e) : e.Carries frame := by
  obtain ⟨haligned, rfl⟩ := make_eq_ok.1 h
  have hpages : frame.value % 4096 = 0 := Address.isPageAligned_iff.1 haligned
  have hwidth : frame.value < 2 ^ format.physicalWidth := by
    simpa [AddressKind.Admits, Nat.one_shiftLeft] using hframe
  rw [Carries, EntryFormat.address_of_packed]
  exact toNat_ofNat_and hformat.frame hformat.width_le hpages hwidth

theorem Carries.setFlags (h : e.Carries frame) (flags : PageFlags) :
    (e.setFlags flags).Carries frame := by
  rw [Carries, PageEntry.setFlags, EntryFormat.address_of_packed]
  exact h

/-- What an entry shows that carries a frame depends on its flags alone. -/
theorem Carries.frame?_eq (h : e.Carries frame) :
    e.frame? = if e.flags.has .present then some frame else none := by
  have hframe : (⟨(e.word &&& format.addressMask).toNat⟩ : format.Frame) = frame := Address.ext h
  simp only [frame?, hframe, isPresent]

/-- Bits of the flag word that belong to the frame are not taken in. -/
theorem getLsbD_flags_of_packed (hformat : format.Keeps isFlag) (x y : BitVec 64) (i : Nat) :
    (⟨x &&& format.addressMask ||| y &&& format.flagMask⟩ : PageEntry format).flags.word.getLsbD i =
      (isFlag i && y.getLsbD i) := by
  rw [PageEntry.flags, EntryFormat.flags_of_packed, PageFlags.ofWord, BitVec.and_assoc,
    BitVec.getLsbD_and]
  by_cases hi : i < 64
  · rw [hformat.flag i hi, Bool.and_comm]
  · simp [BitVec.getLsbD_of_ge y i (by omega)]

theorem getLsbD_ofWord (hformat : format.Keeps isFlag) (w : BitVec 64) (i : Nat) :
    (isFlag i && (PageFlags.ofWord format w).word.getLsbD i) = (isFlag i && w.getLsbD i) := by
  rw [PageFlags.ofWord, BitVec.getLsbD_and]
  by_cases hi : i < 64
  · have hflag := hformat.flag i hi
    rw [BitVec.getLsbD_and] at hflag
    cases hnamed : format.namedFlags.getLsbD i <;> simp_all
  · simp [BitVec.getLsbD_of_ge w i (by omega)]

/-- An entry that carries the frame holds it together with the word that its flags come from. -/
theorem Carries.holds (hformat : format.Keeps isFlag) (h : e.Carries frame)
    (hflags : ∀ i, e.flags.word.getLsbD i = (isFlag i && w.getLsbD i)) :
    e.Holds frame isFlag w where
  flags := hflags
  shown := by
    have hpresent : e.flags.has .present = w.getLsbD 0 := by
      rw [PageFlags.has, PageFlag.bit, hflags, hformat.present, Bool.true_and]
    rw [h.frame?_eq, hpresent]
  recovers flags hset := by
    have hpresent : (e.setFlags flags).flags.has .present = flags.has .present := by
      rw [PageEntry.setFlags, PageFlags.has, getLsbD_flags_of_packed hformat, PageFlag.bit,
        hformat.present, Bool.true_and]
      rfl
    rw [(h.setFlags flags).frame?_eq, hpresent, if_pos hset]

theorem holds_make (hformat : format.Keeps isFlag)
    (hframe : (AddressKind.physical format.physicalWidth).Admits frame.value)
    (h : PageEntry.make frame (.ofWord format w) = .ok e) : e.Holds frame isFlag w := by
  refine (carries_make hformat hframe h).holds hformat fun i => ?_
  obtain ⟨-, rfl⟩ := make_eq_ok.1 h
  rw [getLsbD_flags_of_packed hformat, getLsbD_ofWord hformat]

theorem Carries.holds_setFlags (hformat : format.Keeps isFlag) (h : e.Carries frame)
    (w : BitVec 64) : (e.setFlags (.ofWord format w)).Holds frame isFlag w := by
  refine (h.setFlags (.ofWord format w)).holds hformat fun i => ?_
  rw [PageEntry.setFlags, getLsbD_flags_of_packed hformat, getLsbD_ofWord hformat]

/-- Of all words it is the last whose flags are seen. -/
theorem Holds.setAll (hformat : format.Keeps isFlag) (h : e.Holds frame isFlag w)
    (hcarries : e.Carries frame) (words : List (BitVec 64)) :
    (e.setAll words).Holds frame isFlag (words.getLastD w) := by
  induction words generalizing e w with
  | nil => exact h
  | cons next rest ih =>
    rw [List.getLastD_cons]
    exact ih (hcarries.holds_setFlags hformat next) (hcarries.setFlags _)

theorem holds_setAll_make (hformat : format.Keeps isFlag)
    (hframe : (AddressKind.physical format.physicalWidth).Admits frame.value)
    (haligned : frame.isPageAligned = true) (first : BitVec 64) (words : List (BitVec 64)) :
    ∃ e, PageEntry.make frame (.ofWord format first) = .ok e ∧
      (e.setAll words).Holds frame isFlag (words.getLastD first) := by
  have hmake : PageEntry.make frame (.ofWord format first) = .ok _ := make_eq_ok.2 ⟨haligned, rfl⟩
  exact ⟨_, hmake, (holds_make hformat hframe hmake).setAll hformat
    (carries_make hformat hframe hmake) words⟩

end PageEntry

theorem EntryFormat.keeps_emulated : emulated.Keeps fun i => i < 12 where
  flag := by decide
  present := by decide
  frame := Faithful.keepsFrame
  width_le := by decide

/-- The flag words of the hardware's entries may have names for other bits too. -/
theorem EntryFormat.keeps_hardwareNaming {named : BitVec 64}
    (hnamed : ∀ i, i < 12 ∨ 52 ≤ i ∧ i < 64 → named.getLsbD i = true) :
    (hardwareNaming named).Keeps fun i => i < 12 ∨ 52 ≤ i where
  flag i hi := by
    have hmask : ∀ i < 64, hardware.flagMask.getLsbD i = decide (i < 12 ∨ 52 ≤ i) := by decide
    rw [BitVec.getLsbD_and, hmask i hi]
    by_cases hflag : i < 12 ∨ 52 ≤ i
    · rw [hnamed i (by omega), Bool.and_true]
    · rw [decide_eq_false hflag, Bool.false_and]
  present := by decide
  frame {i} hlow hhigh := by
    have : ∀ i < 48, 12 ≤ i → hardware.addressMask.getLsbD i = true := by decide
    exact this i hhigh hlow
  width_le := show hardware.physicalWidth ≤ 64 by decide

namespace PageEntry

/-- Packing a whole frame of the format's width and a word of flags goes through, and after any
words for the flags the entry holds the frame together with the last of them: its bits 0 to 11
in the emulated format, those and the bits 52 to 63 in the hardware's, as long as the hardware's
flag words name all of these. -/
theorem setAll_holds {named : BitVec 64}
    (hnamed : ∀ i, i < 12 ∨ 52 ≤ i ∧ i < 64 → named.getLsbD i = true)
    (first : BitVec 64) (words : List (BitVec 64)) :
    (∀ frame : EntryFormat.emulated.Frame,
      frame.isPageAligned = true → frame.value < 2 ^ 32 →
        ∃ e, PageEntry.make frame (.ofWord .emulated first) = .ok e ∧
          (e.setAll words).Holds frame (fun i => i < 12) (words.getLastD first)) ∧
    ∀ frame : (EntryFormat.hardwareNaming named).Frame,
      frame.isPageAligned = true → frame.value < 2 ^ 48 →
        ∃ e, PageEntry.make frame (.ofWord (.hardwareNaming named) first) = .ok e ∧
          (e.setAll words).Holds frame (fun i => i < 12 ∨ 52 ≤ i) (words.getLastD first) := by
  constructor
  · intro frame haligned hframe
    refine holds_setAll_make EntryFormat.keeps_emulated ?_ haligned first words
    simpa [AddressKind.Admits, Nat.one_shiftLeft] using hframe
  · intro frame haligned hframe
    refine holds_setAll_make (EntryFormat.keeps_hardwareNaming hnamed) ?_ haligned first words
    simpa [AddressKind.Admits, Nat.one_shiftLeft] using hframe

/-- The last frame that each format has room for, under words that are full of other bits, the
second of them without the present bit. -/
theorem setAll_holds_of_full_words :
    (∀ i, i < 12 ∨ 52 ≤ i ∧ i < 64 → EntryFormat.hardware.namedFlags.getLsbD i = true) ∧
      (∃ e : PageEntry .emulated,
        PageEntry.make ⟨0xFFFFF000⟩ (.ofWord .emulated (BitVec.allOnes 64)) = .ok e ∧
          (e.setAll [0x0123456789ABC000#64]).frame? = none ∧
          (e.setAll [0x0123456789ABC000#64, 0x8000000000000061#64]).frame? =
            some ⟨0xFFFFF000⟩ ∧
          (e.setAll [0x0123456789ABC000#64, 0x8000000000000061#64]).flags.word = 0x61#64) ∧
      ∃ e : PageEntry .hardware,
        PageEntry.make ⟨0xFFFFFFFFF000⟩ (.ofWord .hardware (BitVec.allOnes 64)) = .ok e ∧
          (e.setAll [0x0123456789ABC000#64]).frame? = none ∧
          ((e.setAll [0x0123456789ABC000#64]).setFlags ⟨1#64⟩).frame? =
            some ⟨0xFFFFFFFFF000⟩ ∧
          (e.setAll [0x0123456789ABC000#64, 0x8000000000000061#64]).flags.word =
            0x8000000000000061#64 := by
  have hnamed : ∀ i, i < 12 ∨ 52 ≤ i ∧ i < 64 →
      EntryFormat.hardware.namedFlags.getLsbD i = true := by
    have : ∀ i < 64, i < 12 ∨ 52 ≤ i → EntryFormat.hardware.namedFlags.getLsbD i = true := by
      decide
    exact fun i hi => this i (by omega) (by omega)
  refine ⟨hnamed, ?_, ?_⟩
  · obtain ⟨e, he, hholds⟩ := (setAll_holds hnamed (BitVec.allOnes 64)
      [0x0123456789ABC000#64, 0x8000000000000061#64]).1 ⟨0xFFFFF000⟩ (by decide) (by decide)
    refine ⟨e, he, ?_, hholds.shown, ?_⟩
    · cases he
      rfl
    · cases he
      rfl
  · obtain ⟨e, he, hholds⟩ := (setAll_holds hnamed (BitVec.allOnes 64)
      [0x0123456789ABC000#64]).2 ⟨0xFFFFFFFFF000⟩ (by decide) (by decide)
    refine ⟨e, he, hholds.shown, hholds.recovers ⟨1#64⟩ (by decide), ?_⟩
    cases he
    rfl

end PageEntry
end Pager
