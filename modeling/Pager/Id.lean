/-!
Numbers that name things, and how they are written in messages.
-/
namespace Pager

/-- Index of a tracked frame. -/
abbrev FrameId := Nat

/-- Index of a page-sized slot on the swap disk. -/
abbrev SwapSlot := Nat

/-- Numbers the mappings of one space, from 1. -/
abbrev MappingId := Nat

/-- Numbers the spaces of one machine, from 1. -/
abbrev SpaceId := Nat

/-- Lower-case hexadecimal without padding. -/
def hex (n : Nat) : String := "0x" ++ String.ofList (Nat.toDigits 16 n)

def FrameId.text (id : FrameId) : String := s!"FrameId({id})"

def SwapSlot.text (slot : SwapSlot) : String := s!"SwapSlot({slot})"

def MappingId.text (id : MappingId) : String := s!"MappingId({id})"

end Pager
