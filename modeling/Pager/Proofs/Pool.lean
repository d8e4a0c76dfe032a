import Mathlib.Algebra.Group.Nat.Defs
import Pager.Memory.FramePool
import Pager.Memory.FrameTable
import Pager.Proofs.Execution
import Mathlib.Logic.Function.Basic

/-!
The pool of physical frames. The free list and the marks say the same thing in
two ways, and a frame that is handed out is marked. `Backed` ties the pool to
the frame table: the tracked frames are exactly the marked ones, each once.
-/
namespace Pager

open Function

namespace FramePool

structure Sound (pool : FramePool) : Prop where
  length_allocated : pool.allocated.length = pool.size
  free_nodup : pool.free.Nodup
  mem_free : ∀ n, n ∈ pool.free ↔ pool.allocated[n]? = some false
  length_page : ∀ bytes ∈ pool.contents, bytes.length = pageSize
  size_le : pool.size ≤ 2 ^ 20

def isTaken (pool : FramePool) (n : Nat) : Bool := pool.allocated[n]? == some true

/-- What the frame at `address` holds. -/
def bytesAt (pool : FramePool) (address : PhysicalAddress) : Bytes :=
  pool.contents[address.value / pageSize]?.getD []

variable {pool next : FramePool} {address : PhysicalAddress} {bytes : Bytes}

theorem addressOf_inj {m n : Nat} (h : addressOf m = addressOf n) : m = n := by
  have hv : m * pageSize = n * pageSize := congrArg Address.value h
  exact Nat.eq_of_mul_eq_mul_right pageSize_pos hv

theorem value_addressOf_div (n : Nat) : (addressOf n).value / pageSize = n :=
  Nat.mul_div_cancel n pageSize_pos

theorem addressOf_div (h : address.isPageAligned = true) :
    addressOf (address.value / pageSize) = address := by
  have ha : address.value % pageSize = 0 := by
    simpa [Address.isPageAligned, Address.pageOffset] using h
  have hdiv := Nat.div_add_mod address.value pageSize
  rw [ha, Nat.mul_comm, Nat.add_zero] at hdiv
  exact Address.ext hdiv

theorem Sound.lt_of_isTaken (h : pool.Sound) {n : Nat} (hn : pool.isTaken n = true) :
    n < pool.size := by
  rw [← h.length_allocated]
  simp only [isTaken, beq_iff_eq] at hn
  exact (List.getElem?_eq_some_iff.1 hn).1

theorem Sound.mem_free_iff (h : pool.Sound) {n : Nat} :
    n ∈ pool.free ↔ n < pool.size ∧ pool.isTaken n = false := by
  rw [h.mem_free, ← h.length_allocated, isTaken, List.getElem?_eq_some_iff]
  constructor
  · rintro ⟨hlt, hmark⟩
    exact ⟨hlt, by simp [hlt, hmark]⟩
  · rintro ⟨hlt, hmark⟩
    exact ⟨hlt, by simpa [hlt] using hmark⟩

/-- Frames of the pool lie below 4 GiB. -/
theorem Sound.addressOf_lt (h : pool.Sound) {n : Nat} (hn : pool.isTaken n = true) :
    (addressOf n).value < 2 ^ 32 := by
  have := h.lt_of_isTaken hn
  have := h.size_le
  simp only [addressOf, pageSize]
  omega

/-- There are pools of all sizes whose frames lie below 4 GiB, and no others. -/
theorem ofSize_eq_ok {frames : Nat} : ofSize frames = .ok pool ↔ frames ≤ 2 ^ 20 ∧ pool = {
    contents := List.replicate frames (.zeros pageSize)
    allocated := List.replicate frames false
    free := List.range frames } := by
  constructor
  · intro h
    unfold ofSize at h
    obtain ⟨bytes, hbytes, h⟩ := except_bind_eq_ok.1 h
    obtain ⟨-, rfl⟩ := wordMul_eq_ok.1 hbytes
    by_cases hcapacity : maxBufferSize < frames * pageSize
    · rw [if_pos hcapacity] at h
      cases h
    rw [if_neg hcapacity] at h
    by_cases hpos : 0 < frames
    · rw [if_pos hpos] at h
      obtain ⟨last, hlast, h⟩ := except_bind_eq_ok.1 h
      cases h
      have hadmits : frames * pageSize - pageSize < 2 ^ 32 := (Address.make_eq_ok.1 hlast).1
      refine ⟨?_, rfl⟩
      simp only [pageSize] at hadmits
      omega
    · rw [if_neg hpos] at h
      cases h
      exact ⟨by omega, rfl⟩
  · rintro ⟨h, rfl⟩
    have hbytes : frames * pageSize ≤ 2 ^ 32 := by
      unfold pageSize
      omega
    have hmul : wordMul frames pageSize = .ok (frames * pageSize) :=
      wordMul_eq_ok.2 ⟨Nat.lt_of_le_of_lt hbytes (by decide), rfl⟩
    have hcapacity : ¬ maxBufferSize < frames * pageSize :=
      Nat.not_lt.2 (Nat.le_trans hbytes (by decide))
    refine except_bind_eq_ok.2 ⟨_, hmul, ?_⟩
    rw [if_neg hcapacity]
    by_cases hpos : 0 < frames
    · have hadmits : (AddressKind.physical 32).Admits (frames * pageSize - pageSize) := by
        show frames * pageSize - pageSize < 2 ^ 32
        unfold pageSize at *
        omega
      rw [if_pos hpos, Address.make_eq_ok.2 ⟨hadmits, rfl⟩]
      rfl
    · rw [if_neg hpos]
      rfl

/-- A fresh pool has nothing handed out. -/
theorem ofSize_spec {frames : Nat} (h : ofSize frames = .ok pool) :
    pool.Sound ∧ ∀ n, pool.isTaken n = false := by
  obtain ⟨hle, rfl⟩ := ofSize_eq_ok.1 h
  refine ⟨⟨by simp [size], List.nodup_range, fun n => ?_, ?_, by simpa [size] using hle⟩, ?_⟩
  · rw [List.mem_range, List.getElem?_replicate]
    by_cases hn : n < frames <;> simp [hn]
  · intro bytes hbytes
    rw [List.eq_of_mem_replicate hbytes, Bytes.length_zeros]
  · intro n
    simp only [isTaken, List.getElem?_replicate]
    split <;> rfl

theorem isTaken_set {n : Nat} (hn : n < pool.allocated.length) (contents : List Bytes)
    (free : List Nat) (b : Bool) :
    isTaken ⟨contents, pool.allocated.set n b, free⟩ = update pool.isTaken n b := by
  funext m
  rw [update_apply]
  by_cases he : m = n
  · subst he
    simp [isTaken, hn]
  · simp [isTaken, he, Ne.symm he]

/-- A frame that is handed out was free and is taken from then on. -/
theorem take?_spec (h : pool.Sound) (ht : pool.take? = some (address, next)) :
    ∃ n, address = addressOf n ∧ pool.isTaken n = false ∧
      next.isTaken = update pool.isTaken n true ∧ next.contents = pool.contents ∧
      next.Sound := by
  unfold take? at ht
  cases hf : pool.free with
  | nil => simp [hf] at ht
  | cons n rest =>
    simp only [hf, Option.some.injEq, Prod.mk.injEq] at ht
    obtain ⟨rfl, rfl⟩ := ht
    have hn : pool.allocated[n]? = some false := (h.mem_free n).1 (by simp [hf])
    have hlt : n < pool.allocated.length := (List.getElem?_eq_some_iff.1 hn).1
    have hnodup := h.free_nodup
    rw [hf, List.nodup_cons] at hnodup
    refine ⟨n, rfl, by simp [isTaken, hn], isTaken_set hlt .., rfl, ?_⟩
    refine ⟨by simpa [size] using h.length_allocated, hnodup.2, ?_, h.length_page, h.size_le⟩
    intro m
    by_cases he : m = n
    · subst he
      simp [hnodup.1, hlt]
    · have := h.mem_free m
      rw [hf, List.mem_cons] at this
      simpa [he, Ne.symm he] using this

theorem giveBack_spec (h : pool.Sound) (hg : pool.giveBack address = .ok next) :
    ∃ n, address = addressOf n ∧ pool.isTaken n = true ∧
      next.isTaken = update pool.isTaken n false ∧ next.contents = pool.contents ∧
      next.Sound := by
  unfold giveBack at hg
  obtain ⟨n, hn, hg⟩ := except_bind_eq_ok.1 hg
  obtain ⟨ha, rfl, hlt⟩ := indexOf_eq_ok.1 hn
  split at hg
  · rename_i hm
    cases hg
    have hmark : pool.allocated[address.value / pageSize]? = some true := by simpa using hm
    have hlen : address.value / pageSize < pool.allocated.length := by
      rw [h.length_allocated]
      exact hlt
    refine ⟨_, (addressOf_div ha).symm, by simp [isTaken, hmark], isTaken_set hlen .., rfl, ?_⟩
    refine ⟨by simpa [size] using h.length_allocated, ?_, ?_, h.length_page, h.size_le⟩
    · rw [List.nodup_cons, h.mem_free, hmark]
      exact ⟨by simp, h.free_nodup⟩
    · intro m
      by_cases he : m = address.value / pageSize
      · subst he
        simp [hlen]
      · simp [he, Ne.symm he, h.mem_free]
  · cases hg

theorem giveBack_ok (h : pool.Sound) {n : Nat}
    (hn : pool.isTaken n = true) : ∃ next, pool.giveBack (addressOf n) = .ok next := by
  have hmark : (pool.allocated[n]? == some true) = true := hn
  unfold giveBack
  rw [indexOf_addressOf (h.lt_of_isTaken hn)]
  simp only [bind, Except.bind, hmark, if_true]
  exact ⟨_, rfl⟩

theorem read_eq_ok : pool.read address = .ok bytes ↔
    address.isPageAligned = true ∧ address.value / pageSize < pool.size ∧
      bytes = pool.bytesAt address := by
  unfold read
  simp only [except_bind_eq_ok, indexOf_eq_ok, except_pure_eq_ok]
  constructor
  · rintro ⟨n, ⟨ha, rfl, hlt⟩, rfl⟩
    exact ⟨ha, hlt, rfl⟩
  · rintro ⟨ha, hlt, rfl⟩
    exact ⟨_, ⟨ha, rfl, hlt⟩, rfl⟩

theorem write_eq_ok {start : Nat} : pool.write address start bytes = .ok next ↔
    address.isPageAligned = true ∧ address.value / pageSize < pool.size ∧
      next = { pool with contents :=
        pool.contents.modify (address.value / pageSize) (·.overlay start bytes) } := by
  unfold write
  simp only [except_bind_eq_ok, indexOf_eq_ok, except_pure_eq_ok]
  constructor
  · rintro ⟨n, ⟨ha, rfl, hlt⟩, rfl⟩
    exact ⟨ha, hlt, rfl⟩
  · rintro ⟨ha, hlt, rfl⟩
    exact ⟨_, ⟨ha, rfl, hlt⟩, rfl⟩

theorem Sound.length_bytesAt (h : pool.Sound) (hlt : address.value / pageSize < pool.size) :
    (pool.bytesAt address).length = pageSize := by
  have hlt' : address.value / pageSize < pool.contents.length := hlt
  unfold bytesAt
  rw [List.getElem?_eq_getElem hlt', Option.getD_some]
  exact h.length_page _ (List.getElem_mem hlt')

/-- A write changes the bytes of its own frame and of no other. -/
theorem write_spec {start : Nat} (h : pool.Sound)
    (hw : pool.write address start bytes = .ok next) :
    (∀ n, next.bytesAt (addressOf n) =
      if addressOf n = address then (pool.bytesAt address).overlay start bytes
      else pool.bytesAt (addressOf n)) ∧
      next.isTaken = pool.isTaken ∧ next.Sound := by
  obtain ⟨ha, hlt, rfl⟩ := write_eq_ok.1 hw
  refine ⟨?_, rfl, ?_⟩
  · intro n
    have hlt' : address.value / pageSize < pool.contents.length := hlt
    by_cases he : addressOf n = address
    · rw [if_pos he, he]
      simp [bytesAt, hlt']
    · have hne : address.value / pageSize ≠ n := by
        rintro rfl
        exact he (addressOf_div ha)
      rw [if_neg he]
      simp only [bytesAt, value_addressOf_div, List.getElem?_modify, if_neg hne]
      simp
  · refine ⟨by simpa [size] using h.length_allocated, h.free_nodup, h.mem_free, ?_, ?_⟩
    · intro b hb
      obtain ⟨m, hm, rfl⟩ := List.mem_iff_getElem.1 hb
      rw [List.getElem_modify]
      split
      · rw [Bytes.length_overlay]
        exact h.length_page _ (List.getElem_mem _)
      · exact h.length_page _ (List.getElem_mem _)
    · simpa [size] using h.size_le

/-- Writing back what a frame holds changes nothing. -/
theorem write_self (hw : pool.write address 0 (pool.bytesAt address) = .ok next) : next = pool := by
  obtain ⟨-, hlt, rfl⟩ := write_eq_ok.1 hw
  have hlt' : address.value / pageSize < pool.contents.length := hlt
  have hbytes : pool.bytesAt address = pool.contents[address.value / pageSize] := by
    rw [bytesAt, List.getElem?_eq_getElem hlt', Option.getD_some]
  have hsame : pool.contents.modify (address.value / pageSize)
      (·.overlay 0 (pool.bytesAt address)) = pool.contents := by
    refine List.ext_getElem? fun i => ?_
    rw [List.getElem?_modify]
    split
    · rename_i he
      subst he
      rw [List.getElem?_eq_getElem hlt', Option.map_eq_map, Option.map_some, hbytes, Bytes.overlay_zero rfl]
    · simp
  rw [hsame]

end FramePool

/-- The tracked frames are the frames handed out by the pool, each tracked once. -/
structure Backed (frames : FrameId → Option Frame) (taken : Nat → Bool) : Prop where
  address_taken : ∀ {f fr}, frames f = some fr →
    ∃ n, taken n = true ∧ fr.address = FramePool.addressOf n
  address_inj : ∀ {f g fr gr}, frames f = some fr → frames g = some gr →
    fr.address = gr.address → f = g
  taken_frame : ∀ {n}, taken n = true →
    ∃ f fr, frames f = some fr ∧ fr.address = FramePool.addressOf n

namespace Backed

variable {frames : FrameId → Option Frame} {taken : Nat → Bool} {f : FrameId} {fr : Frame}
  {n : Nat}

theorem taken_iff (h : Backed frames taken) :
    taken n = true ↔ ∃ f fr, frames f = some fr ∧ fr.address = FramePool.addressOf n := by
  refine ⟨h.taken_frame, ?_⟩
  rintro ⟨f, fr, hf, ha⟩
  obtain ⟨m, hm, hm'⟩ := h.address_taken hf
  rw [FramePool.addressOf_inj (ha.symm.trans hm')]
  exact hm

theorem take (h : Backed frames taken) (hf : frames f = none) (hn : taken n = false) :
    Backed (update frames f (some { address := FramePool.addressOf n }))
      (update taken n true) where
  address_taken := by
    intro g gr hg
    rw [update_apply] at hg
    split at hg
    · cases hg
      exact ⟨n, update_self .., rfl⟩
    · obtain ⟨m, hm, ha⟩ := h.address_taken hg
      exact ⟨m, by simp [update_apply, hm], ha⟩
  address_inj := by
    -- the new frame's address was free, so no older frame lies there
    have fresh : ∀ {g gr}, frames g = some gr → gr.address ≠ FramePool.addressOf n := by
      intro g gr hg ha
      obtain ⟨m, hm, ha'⟩ := h.address_taken hg
      rw [ha] at ha'
      rw [← FramePool.addressOf_inj ha', hn] at hm
      cases hm
    intro g g' gr gr' hg hg' ha
    rw [update_apply] at hg hg'
    split at hg <;> split at hg'
    · rename_i e e'
      rw [e, e']
    · cases hg
      exact absurd ha.symm (fresh hg')
    · cases hg'
      exact absurd ha (fresh hg)
    · exact h.address_inj hg hg' ha
  taken_frame := by
    intro m hm
    rw [update_apply] at hm
    split at hm
    · rename_i e
      exact ⟨f, _, update_self .., by rw [e]⟩
    · obtain ⟨g, gr, hg, ha⟩ := h.taken_frame hm
      refine ⟨g, gr, ?_, ha⟩
      rw [update_of_ne, hg]
      rintro rfl
      rw [hf] at hg
      cases hg

theorem release (h : Backed frames taken) (hf : frames f = some fr)
    (hn : fr.address = FramePool.addressOf n) :
    Backed (update frames f none) (update taken n false) where
  address_taken := by
    intro g gr hg
    rw [update_apply] at hg
    split at hg
    · cases hg
    · rename_i ne
      obtain ⟨m, hm, ha⟩ := h.address_taken hg
      refine ⟨m, ?_, ha⟩
      rw [update_of_ne, hm]
      rintro rfl
      exact ne (h.address_inj hg hf (ha.trans hn.symm))
  address_inj := by
    intro g g' gr gr' hg hg' ha
    rw [update_apply] at hg hg'
    split at hg <;> split at hg'
    · cases hg
    · cases hg
    · cases hg'
    · exact h.address_inj hg hg' ha
  taken_frame := by
    intro m hm
    rw [update_apply] at hm
    split at hm
    · cases hm
    · rename_i ne
      obtain ⟨g, gr, hg, ha⟩ := h.taken_frame hm
      refine ⟨g, gr, ?_, ha⟩
      rw [update_of_ne, hg]
      rintro rfl
      rw [hf] at hg
      cases hg
      exact ne (FramePool.addressOf_inj (ha.symm.trans hn))

/-- Who owns a frame is no matter of the pool. -/
theorem change (h : Backed frames taken) (hf : frames f = some fr) {after : Frame}
    (ha : after.address = fr.address) : Backed (update frames f (some after)) taken where
  address_taken := by
    intro g gr hg
    rw [update_apply] at hg
    split at hg
    · cases hg
      rw [ha]
      exact h.address_taken hf
    · exact h.address_taken hg
  address_inj := by
    intro g g' gr gr' hg hg' he
    rw [update_apply] at hg hg'
    split at hg <;> split at hg'
    · rename_i e e'
      rw [e, e']
    · rename_i e _
      cases hg
      rw [e]
      exact h.address_inj hf hg' (ha.symm.trans he)
    · rename_i _ e
      cases hg'
      rw [e]
      exact h.address_inj hg hf (he.trans ha)
    · exact h.address_inj hg hg' he
  taken_frame := by
    intro m hm
    obtain ⟨g, gr, hg, hga⟩ := h.taken_frame hm
    by_cases e : g = f
    · subst e
      rw [hf] at hg
      cases hg
      exact ⟨g, after, update_self .., ha.trans hga⟩
    · exact ⟨g, gr, by rw [update_of_ne e, hg], hga⟩

end Backed
end Pager
