import Pager.Address
import Pager.Bytes

/-!
Physical memory: a fixed number of frames, each one page long, with the frames
nobody uses on a stack. Frame `n` lies at address `n * pageSize`. Which frames
are handed out is recorded a second time in `allocated`, so that giving a frame
back twice is noticed.
-/
namespace Pager

structure FramePool where
  /-- What each frame holds. -/
  contents : List Bytes
  allocated : List Bool
  /-- Numbers of the free frames; the head is handed out next. -/
  free : List Nat

namespace FramePool

/-- A pool of zeroed frames that hands out low addresses first. -/
def ofSize (frames : Nat) : Except Bug FramePool := do
  let bytes ← wordMul frames pageSize
  if maxBufferSize < bytes then throw .capacity
  if 0 < frames then
    let _ ← Address.make (.physical 32) (bytes - pageSize)
  return {
    contents := List.replicate frames (.zeros pageSize)
    allocated := List.replicate frames false
    free := List.range frames }

def size (pool : FramePool) : Nat := pool.contents.length

def freeCount (pool : FramePool) : Nat := pool.free.length

def addressOf (frame : Nat) : PhysicalAddress := ⟨frame * pageSize⟩

/-- The number of the frame at `address`. -/
def indexOf (pool : FramePool) (address : PhysicalAddress) : Except Bug Nat :=
  if !address.isPageAligned then .error .poolMisaligned
  else if address.value / pageSize < pool.size then .ok (address.value / pageSize)
  else .error (.outsidePool address.value)

def take? (pool : FramePool) : Option (PhysicalAddress × FramePool) :=
  match pool.free with
  | [] => none
  | frame :: rest =>
    some (addressOf frame, { pool with allocated := pool.allocated.set frame true, free := rest })

def giveBack (pool : FramePool) (address : PhysicalAddress) : Except Bug FramePool := do
  let frame ← pool.indexOf address
  if pool.allocated[frame]? == some true then
    return { pool with
      allocated := pool.allocated.set frame false
      free := frame :: pool.free }
  else throw (.frameFreedTwice address.value)

def read (pool : FramePool) (address : PhysicalAddress) : Except Bug Bytes := do
  let frame ← pool.indexOf address
  return pool.contents[frame]?.getD []

/-- Stores `bytes` in the frame at `address`, from position `start` of the frame on. -/
def write (pool : FramePool) (address : PhysicalAddress) (start : Nat) (bytes : Bytes) :
    Except Bug FramePool := do
  let frame ← pool.indexOf address
  return { pool with contents := pool.contents.modify frame (·.overlay start bytes) }

theorem indexOf_eq_ok {pool : FramePool} {address : PhysicalAddress} {frame : Nat} :
    pool.indexOf address = .ok frame ↔
      address.isPageAligned = true ∧ frame = address.value / pageSize ∧ frame < pool.size := by
  unfold indexOf
  cases address.isPageAligned
  · simp
  · by_cases h : address.value / pageSize < pool.size
    · simp only [Bool.not_true, Bool.false_eq_true, if_false, if_pos h, Except.ok.injEq, true_and]
      exact ⟨fun e => e ▸ ⟨rfl, h⟩, fun e => e.1.symm⟩
    · simp only [Bool.not_true, Bool.false_eq_true, if_false, if_neg h, reduceCtorEq, true_and,
        false_iff, not_and]
      exact fun e => e ▸ h

theorem indexOf_addressOf {pool : FramePool} {frame : Nat} (h : frame < pool.size) :
    pool.indexOf (addressOf frame) = .ok frame := by
  have hdiv : frame * pageSize / pageSize = frame := Nat.mul_div_cancel _ pageSize_pos
  refine indexOf_eq_ok.2 ⟨?_, hdiv.symm, h⟩
  simp [addressOf, Address.isPageAligned, Address.pageOffset]

theorem take?_eq_none_iff {pool : FramePool} : pool.take? = none ↔ pool.free = [] := by
  unfold take?
  split <;> simp [*]

theorem size_write {pool next : FramePool} {address : PhysicalAddress} {start : Nat}
    {bytes : Bytes} (h : pool.write address start bytes = .ok next) : next.size = pool.size := by
  unfold write at h
  cases hi : pool.indexOf address with
  | error b => simp [hi, bind, Except.bind] at h
  | ok frame =>
    simp only [hi, bind, Except.bind, pure, Except.pure, Except.ok.injEq] at h
    subst h
    simp [size]

end FramePool
end Pager
