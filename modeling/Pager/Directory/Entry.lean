import Pager.Address

/-!
Leaf entries of a page directory. One 64-bit word holds the frame's address and
the flags of the page; an `EntryFormat` says which bits are which. The two
formats differ in their masks and in the flag words they can be built from, and
agree on where the five flags that the pager uses lie.
-/
namespace Pager

/-- How a frame and its flags share one word. -/
structure EntryFormat where
  physicalWidth : Nat
  addressMask : BitVec 64
  flagMask : BitVec 64
  /-- The bits that survive when a flag word is taken in. -/
  namedFlags : BitVec 64
  disjoint : addressMask &&& flagMask = 0#64 := by decide

namespace EntryFormat

/-- Frame in bits 12 to 31, flags below. Memory stays under 4 GiB, so the upper half is zero. -/
@[reducible] def emulated : EntryFormat where
  physicalWidth := 32
  addressMask := 0xFFFFF000#64
  flagMask := 0xFFF#64
  namedFlags := BitVec.allOnes 64

/-- Frame in bits 12 to 51, flags in all others. -/
@[reducible] def hardware : EntryFormat where
  physicalWidth := 48
  addressMask := 0x000FFFFFFFFFF000#64
  flagMask := 0xFFF0000000000FFF#64
  namedFlags := 0xFFF0000000000FFF#64

abbrev Frame (format : EntryFormat) := Address (.physical format.physicalWidth)

end EntryFormat

inductive PageFlag where
  | present | writable | user | accessed | dirty
deriving DecidableEq, Repr

def PageFlag.bit : PageFlag → Nat
  | .present => 0
  | .writable => 1
  | .user => 2
  | .accessed => 5
  | .dirty => 6

theorem PageFlag.bit_lt (flag : PageFlag) : flag.bit < 64 := by
  cases flag <;> decide

theorem PageFlag.bit_inj {f g : PageFlag} (h : f.bit = g.bit) : f = g := by
  revert h
  cases f <;> cases g <;> decide

structure PageFlags where
  word : BitVec 64
deriving DecidableEq, Repr

namespace PageFlags

def empty : PageFlags := ⟨0#64⟩

/-- Takes in a flag word, as far as the format names its bits. -/
def ofWord (format : EntryFormat) (word : BitVec 64) : PageFlags := ⟨word &&& format.namedFlags⟩

def has (flags : PageFlags) (flag : PageFlag) : Bool := flags.word.getLsbD flag.bit

def set (flags : PageFlags) (flag : PageFlag) (on : Bool) : PageFlags :=
  let bit := 1#64 <<< flag.bit
  ⟨if on then flags.word ||| bit else flags.word &&& ~~~bit⟩

/-- Setting a flag changes that flag and no other. -/
theorem has_set (flags : PageFlags) (flag : PageFlag) (on : Bool) (other : PageFlag) :
    (flags.set flag on).has other = if other = flag then on else flags.has other := by
  have hlt := other.bit_lt
  by_cases h : other = flag
  · subst h
    cases on <;> simp [has, set, hlt]
  · have hne : other.bit ≠ flag.bit := fun e => h (PageFlag.bit_inj e)
    cases on
    · simp [has, set, h, hlt]
      omega
    · simp [has, set, h, hlt]
      omega

end PageFlags

structure PageEntry (format : EntryFormat) where
  word : BitVec 64
deriving DecidableEq, Repr

namespace PageEntry

variable {format : EntryFormat}

/-- The entry of a page that was never mapped. -/
def absent : PageEntry format := ⟨0#64⟩

def make (frame : format.Frame) (flags : PageFlags) : Except Bug (PageEntry format) :=
  if frame.isPageAligned then
    .ok ⟨BitVec.ofNat 64 frame.value &&& format.addressMask ||| flags.word &&& format.flagMask⟩
  else .error .physicalMisaligned

def flags (entry : PageEntry format) : PageFlags :=
  .ofWord format (entry.word &&& format.flagMask)

def isPresent (entry : PageEntry format) : Bool := entry.flags.has .present

/-- The mapped frame, if the entry is present. -/
def frame? (entry : PageEntry format) : Option format.Frame :=
  if entry.isPresent then some ⟨(entry.word &&& format.addressMask).toNat⟩ else none

/-- Replaces the flag bits and keeps the frame. -/
def setFlags (entry : PageEntry format) (flags : PageFlags) : PageEntry format :=
  ⟨entry.word &&& format.addressMask ||| flags.word &&& format.flagMask⟩

def text (entry : PageEntry format) : String := s!"PageEntry({entry.word.toNat})"

end PageEntry
end Pager
