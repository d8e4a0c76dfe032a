/-!
Sizes and landmarks of a user address space, in bytes. Everything below
`kernelBase` belongs to the user; the stack grows down from `userStackTop`.
-/
namespace Pager

/-- Bytes in a page, and in the frame that holds one. -/
def pageSize : Nat := 4096

/-- Bytes in one sector of the swap disk. -/
def sectorSize : Nat := 512

/-- Consecutive sectors that hold one page. -/
def sectorsPerPage : Nat := pageSize / sectorSize

/-- Bytes in the largest buffer there can be: half of what a word can address. -/
def maxBufferSize : Nat := 1 <<< 63 - 1

/-- First kernel address. -/
def kernelBase : Nat := 0x8004000000

/-- One past the highest user stack address. -/
def userStackTop : Nat := 0x47480000

/-- Largest distance the user stack may grow below `userStackTop`. -/
def maxStackSize : Nat := 0x100000

/-- How far below the stack pointer an access still counts as a stack access:
a push faults before the pointer moves. -/
def stackSlack : Nat := pageSize

theorem pageSize_pos : 0 < pageSize := by decide

theorem sectorsPerPage_mul_sectorSize : sectorsPerPage * sectorSize = pageSize := rfl

end Pager
