import Pager.Proofs.Transfers

/-!
What an initializer leaves on its page. Zeros and slices of files are determined
by the page and the files; an initializer that computes the bytes may look at
what the frame held before, so of its bytes only this much is known. A file that
comes back short fails the initializer, so a filled page has its whole slice.
-/
namespace Pager

/-- The bytes that an initializer can leave on its page while the files are as they are. -/
def Unpopulated.Fills (u : Unpopulated) (store : FileStore) (bytes : Bytes) : Prop :=
  match u.initializer with
  | .zeros => bytes = .zeros pageSize
  | .fileSlice => ∃ handle file, u.slice.file = some handle ∧ store.file? handle = some file ∧
      (file.data.slice u.slice.offset u.slice.readBytes).length = u.slice.readBytes ∧
      bytes = file.data.slice u.slice.offset u.slice.readBytes ++
        .zeros (pageSize - u.slice.readBytes)
  | .computed fill => ∃ stale byteAt, stale.length = pageSize ∧
      fill u.slice stale = .ok byteAt ∧ bytes = stale.refill byteAt

namespace Bytes

/-- A slice that comes out as long as was asked for was not cut short by a limit. -/
theorem slice_capped {data : Bytes} {offset count : Nat} {limit : Option Nat}
    (h : (data.slice offset (File.capped count limit)).length = count) :
    data.slice offset (File.capped count limit) = data.slice offset count := by
  cases limit with
  | none => rfl
  | some most =>
    have hle : count ≤ min count most := by
      rw [slice, List.length_take] at h
      have hleft := Nat.min_le_left (File.capped count (some most)) (data.drop offset).length
      rw [h] at hleft
      exact hleft
    rw [File.capped, Nat.le_antisymm (Nat.min_le_left ..) hle]

/-- A page whose first bytes are stored and whose other bytes are cleared. -/
theorem clearFrom_overlay {frame bytes : Bytes} (h : bytes.length ≤ frame.length) :
    (frame.overlay 0 bytes).clearFrom bytes.length =
      bytes ++ .zeros (frame.length - bytes.length) := by
  rw [clearFrom, length_overlay, overlay, List.take_zero, List.nil_append, Nat.sub_zero,
    List.take_of_length_le h, List.take_left]

end Bytes

theorem FileStore.readAt_ok {store after : FileStore} {handle : Handle} {count offset : Nat}
    {bytes : Bytes} (h : readAt handle count offset store = .ok (.ok bytes, after)) :
    ∃ file, store.file? handle = some file ∧
      bytes = file.data.slice offset (File.capped count (file.maxRead offset)) := by
  rcases readAt_cases h with ⟨-, hr, -⟩ | ⟨file, hfile, hr, -⟩
  · cases hr
  · unfold File.readAt at hr
    by_cases hfail : file.failReads offset = true
    · rw [if_pos hfail] at hr
      cases hr
    · rw [if_neg hfail] at hr
      cases hr
      exact ⟨file, hfile, rfl⟩

namespace Transfer

variable {t u : Transfer}

/-- A file is read in full or not at all. -/
theorem load_ok {handle : Handle} {offset count : Nat}
    (h : load handle offset count t = .ok (.ok (), u)) :
    ∃ file, t.files.file? handle = some file ∧
      (file.data.slice offset count).length = count ∧
      u.frame = file.data.slice offset count ++ .zeros (t.frame.length - count) := by
  cases load_loads h with
  | @full bytes _ read length fits =>
    obtain ⟨file, hfile, hslice⟩ := FileStore.readAt_ok read
    have hfull : bytes = file.data.slice offset count := by
      rw [hslice] at length ⊢
      exact Bytes.slice_capped length
    refine ⟨file, hfile, ?_⟩
    rw [← hfull]
    subst length
    exact ⟨rfl, Bytes.clearFrom_overlay fits⟩

/-- An initializer that succeeds leaves bytes that it can leave. -/
theorem fill_fills {page : Unpopulated} (hf : t.frame.length = pageSize)
    (h : fill page.initializer page.slice t = .ok (.ok (), u)) : page.Fills t.files u.frame := by
  unfold Unpopulated.Fills
  obtain ⟨v, hrun, rfl⟩ := fill_eq_ok.1 h
  generalize hinit : page.initializer = init at hrun
  cases initFrame_initializes hrun with
  | zeros => rw [hf]
  | sliced hfile loads =>
    obtain ⟨file, hget, hlen, hframe⟩ := load_ok loads
    rw [hf] at hframe
    exact ⟨_, file, hfile, hget, hlen, hframe⟩
  | computed computes => exact ⟨t.frame, _, hf, computes, rfl⟩

end Transfer
end Pager
