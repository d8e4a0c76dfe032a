/-!
Byte strings, and the one way they are changed in place: a shorter string laid
over part of a longer one. Laying over never changes the length, so a frame
stays one page long whatever is stored in it.
-/
namespace Pager

abbrev Bytes := List UInt8

namespace Bytes

def zeros (size : Nat) : Bytes := List.replicate size 0

def slice (bytes : Bytes) (start count : Nat) : Bytes := (bytes.drop start).take count

/-- Stores `source` from position `start` on; what would pass the end is dropped. -/
def overlay (target : Bytes) (start : Nat) (source : Bytes) : Bytes :=
  target.take start ++ (source.take (target.length - start) ++ target.drop (start + source.length))

/-- Keeps the first `count` bytes and clears the others. -/
def clearFrom (bytes : Bytes) (count : Nat) : Bytes :=
  bytes.take count ++ zeros (bytes.length - count)

/-- A string of the same length as `bytes` whose bytes are given by their positions. -/
def refill (bytes : Bytes) (byteAt : Nat → UInt8) : Bytes :=
  (List.range bytes.length).map byteAt

@[simp] theorem length_zeros (size : Nat) : (zeros size).length = size := by
  simp [zeros]

@[simp] theorem length_overlay (target : Bytes) (start : Nat) (source : Bytes) :
    (overlay target start source).length = target.length := by
  simp only [overlay, List.length_append, List.length_take, List.length_drop]
  omega

@[simp] theorem length_clearFrom (bytes : Bytes) (count : Nat) :
    (clearFrom bytes count).length = bytes.length := by
  simp only [clearFrom, List.length_append, List.length_take, length_zeros]
  omega

@[simp] theorem length_refill (bytes : Bytes) (byteAt : Nat → UInt8) :
    (refill bytes byteAt).length = bytes.length := by
  simp [refill]

theorem length_slice_of_le {bytes : Bytes} {start count : Nat}
    (h : start + count ≤ bytes.length) : (slice bytes start count).length = count := by
  simp only [slice, List.length_take, List.length_drop]
  omega

theorem getElem?_slice (bytes : Bytes) (start count i : Nat) :
    (slice bytes start count)[i]? = if i < count then bytes[start + i]? else none := by
  simp [slice, List.getElem?_take, List.getElem?_drop]

/-- A string of the same length takes the target's place. -/
theorem overlay_zero {target source : Bytes} (h : source.length = target.length) :
    target.overlay 0 source = source := by
  simp [overlay, ← h]

/-- Inside the target, a byte comes from the source exactly where the source lies. -/
theorem getElem?_overlay (target : Bytes) (start : Nat) (source : Bytes) {i : Nat}
    (hi : i < target.length) :
    (overlay target start source)[i]? =
      if start ≤ i ∧ i < start + source.length then source[i - start]? else target[i]? := by
  unfold overlay
  by_cases h1 : i < start
  · rw [List.getElem?_append_left (by simp; omega)]
    simp [h1, show ¬ start ≤ i by omega]
  · rw [List.getElem?_append_right (by simp; omega)]
    have hlen : (target.take start).length = start := by simp; omega
    rw [hlen]
    by_cases h2 : i < start + source.length
    · rw [List.getElem?_append_left (by simp; omega)]
      rw [List.getElem?_take, if_pos (by omega), if_pos ⟨by omega, h2⟩]
    · rw [List.getElem?_append_right (by simp; omega), if_neg (by omega)]
      rw [List.getElem?_drop, List.length_take]
      congr 1
      omega

end Bytes
end Pager
