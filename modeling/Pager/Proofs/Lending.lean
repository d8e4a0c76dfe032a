import Pager.Proofs.Accounting

/-!
The pool of frames over its whole life. What callers hold is read off what they asked for and
what they were answered: the frames that they took and have not given back. The free list and the
marks keep the same account of it, so that no frame has two holders at a time; and what is stored
in a frame stays there, although all of them lie in one buffer.
-/
namespace Pager

open Function

/-- What a caller asks of a pool of frames. -/
inductive PoolRequest where
  | take
  | giveBack (address : PhysicalAddress)
  /-- Stores `bytes` from position `start` of the frame on. -/
  | write (address : PhysicalAddress) (start : Nat) (bytes : Bytes)

inductive PoolAnswer where
  | taken (address : Option PhysicalAddress)
  | done

namespace PoolRequest

def perform : PoolRequest → FramePool → Except Bug (PoolAnswer × FramePool)
  | take, pool =>
    match pool.take? with
    | none => .ok (.taken none, pool)
    | some (address, next) => .ok (.taken (some address), next)
  | giveBack address, pool => do
    return (.done, ← pool.giveBack address)
  | write address start bytes, pool => do
    return (.done, ← pool.write address start bytes)

end PoolRequest

/-- What was asked of a pool and what it answered, one after the other. -/
abbrev PoolPast := List (PoolRequest × PoolAnswer)

theorem Bytes.getElem?_flatten {pages : List Bytes} {width : Nat} (hwidth : 0 < width)
    (hpages : ∀ page ∈ pages, page.length = width) (i : Nat) :
    pages.flatten[i]? = (pages[i / width]?.getD [])[i % width]? := by
  induction pages generalizing i with
  | nil => simp
  | cons page rest ih =>
    obtain ⟨hpage, hrest⟩ := List.forall_mem_cons.1 hpages
    rw [List.flatten_cons]
    rcases Nat.lt_or_ge i width with hlt | hge
    · rw [List.getElem?_append_left (by omega), Nat.div_eq_of_lt hlt, Nat.mod_eq_of_lt hlt]
      rfl
    · rw [List.getElem?_append_right (by omega), hpage, ih hrest, Nat.div_eq_sub_div hwidth hge,
        Nat.mod_eq_sub_mod hge]
      rfl

namespace FramePool

variable {pool next start : FramePool} {address other : PhysicalAddress} {bytes : Bytes}
  {held : List PhysicalAddress} {past : PoolPast} {frames : Nat}

/-- The address is that of a frame of the pool. -/
def Has (pool : FramePool) (address : PhysicalAddress) : Prop :=
  address.isPageAligned = true ∧ address.value + pageSize ≤ pool.size * pageSize

/-- The buffer that the frames lie in, one after the other. -/
def memory (pool : FramePool) : Bytes := pool.contents.flatten

theorem Has.index_lt (h : pool.Has address) : address.value / pageSize < pool.size := by
  obtain ⟨-, hle⟩ := h
  unfold pageSize at *
  omega

theorem has_addressOf {n : Nat} (hn : n < pool.size) : pool.Has (addressOf n) := by
  refine ⟨(indexOf_eq_ok.1 (indexOf_addressOf hn)).1, ?_⟩
  have hle := Nat.mul_le_mul_right pageSize (Nat.succ_le_of_lt hn)
  rwa [Nat.succ_mul] at hle

/-- A byte of the buffer is in the frame whose address is the start of its page. -/
theorem addressOf_div_eq_iff (ha : address.isPageAligned = true) {i : Nat} :
    addressOf (i / pageSize) = address ↔ address.value ≤ i ∧ i < address.value + pageSize := by
  have haligned := Address.isPageAligned_iff.1 ha
  rw [Address.ext_iff]
  show i / pageSize * pageSize = address.value ↔ _
  unfold pageSize at *
  omega

theorem Sound.getElem?_memory (h : pool.Sound) (i : Nat) :
    pool.memory[i]? = (pool.bytesAt (addressOf (i / pageSize)))[i % pageSize]? := by
  rw [bytesAt, value_addressOf_div]
  exact Bytes.getElem?_flatten pageSize_pos h.length_page i

theorem Sound.length_memory (h : pool.Sound) : pool.memory.length = pool.size * pageSize := by
  rw [memory, List.length_flatten, List.map_congr_left h.length_page, List.map_const',
    List.sum_replicate_nat]
  rfl

/-- What a frame holds is its part of the buffer. -/
theorem Sound.bytesAt_eq_slice (h : pool.Sound) (hhas : pool.Has address) :
    pool.bytesAt address = pool.memory.slice address.value pageSize := by
  have haligned := Address.isPageAligned_iff.1 hhas.1
  refine List.ext_getElem? fun i => ?_
  rw [Bytes.getElem?_slice]
  by_cases hi : i < pageSize
  · have hframe : addressOf ((address.value + i) / pageSize) = address :=
      (addressOf_div_eq_iff hhas.1).2 ⟨by omega, by omega⟩
    have hmod : (address.value + i) % pageSize = i := by
      unfold pageSize at *
      omega
    rw [if_pos hi, h.getElem?_memory, hframe, hmod]
  · rw [if_neg hi, List.getElem?_eq_none]
    rw [h.length_bytesAt hhas.index_lt]
    exact Nat.le_of_not_lt hi

/-- Storing inside a frame is storing at its place in the buffer. -/
theorem Sound.memory_write (h : pool.Sound) {first : Nat}
    (hinside : first + bytes.length ≤ pageSize)
    (hw : pool.write address first bytes = .ok next) :
    next.memory = pool.memory.overlay (address.value + first) bytes := by
  obtain ⟨hbytes, -, hnext⟩ := write_spec h hw
  obtain ⟨ha, hlt, -⟩ := write_eq_ok.1 hw
  have hlength : next.memory.length = pool.memory.length := by
    rw [hnext.length_memory, h.length_memory, size_write hw]
  refine List.ext_getElem? fun i => ?_
  rcases Nat.lt_or_ge i pool.memory.length with hi | hi
  · rw [Bytes.getElem?_overlay _ _ _ hi, hnext.getElem?_memory, h.getElem?_memory, hbytes]
    by_cases hframe : addressOf (i / pageSize) = address
    · obtain ⟨hfrom, hto⟩ := (addressOf_div_eq_iff ha).1 hframe
      have hmod : i % pageSize = i - address.value := by
        have haligned := Address.isPageAligned_iff.1 ha
        unfold pageSize at *
        omega
      have hplace : (first ≤ i - address.value ∧ i - address.value < first + bytes.length) ↔
          address.value + first ≤ i ∧ i < address.value + first + bytes.length := by
        omega
      rw [if_pos hframe, hframe, hmod, Bytes.getElem?_overlay _ _ _ (by
        rw [h.length_bytesAt hlt]
        omega)]
      simp only [hplace, Nat.sub_sub]
    · -- what is stored does not reach out of its frame
      rw [if_neg hframe, if_neg]
      rintro ⟨hfrom, hto⟩
      exact hframe ((addressOf_div_eq_iff ha).2 ⟨by omega, by omega⟩)
  · rw [List.getElem?_eq_none (by omega), List.getElem?_eq_none (by rwa [Bytes.length_overlay])]

/-- The frames held after one more request. -/
def hold (held : List PhysicalAddress) : PoolRequest × PoolAnswer → List PhysicalAddress
  | (.take, .taken (some address)) => address :: held
  | (.giveBack address, _) => held.erase address
  | _ => held

/-- The frames that callers took and have not given back; one that was handed out twice is there
twice. -/
def heldAfter (past : PoolPast) : List PhysicalAddress := past.foldl hold []

/-- What a frame holds after one more request, as far as that one is about the frame. -/
def lay (address : PhysicalAddress) (page : Bytes) : PoolRequest × PoolAnswer → Bytes
  | (.write other first bytes, _) => if other = address then page.overlay first bytes else page
  | _ => page

/-- What requests about the frame alone would make of zeros. -/
def bytesAfter (address : PhysicalAddress) (past : PoolPast) : Bytes :=
  past.foldl (lay address) (.zeros pageSize)

/-- Frames are given back by those who hold them, and stores stay inside a frame. -/
def Allows (pool : FramePool) (held : List PhysicalAddress) : PoolRequest → Prop
  | .take => True
  | .giveBack address => address ∈ held
  | .write address first bytes => pool.Has address ∧ first + bytes.length ≤ pageSize

/-- The pool that `start` has become by requests that were allowed and carried out. -/
inductive Served (start : FramePool) : PoolPast → FramePool → Prop
  | start : Served start [] start
  | step {past : PoolPast} {pool next : FramePool} {request : PoolRequest} {answer : PoolAnswer}
      (served : Served start past pool) (allowed : pool.Allows (heldAfter past) request)
      (run : request.perform pool = .ok (answer, next)) :
      Served start (past ++ [(request, answer)]) next

/-- The marked frames are those that are held, each once. -/
structure Lent (pool : FramePool) (held : List PhysicalAddress) : Prop extends pool.Sound where
  held_nodup : held.Nodup
  mem_held_iff : ∀ address, address ∈ held ↔ ∃ n, pool.isTaken n = true ∧ address = addressOf n

theorem Lent.take (h : pool.Lent held) (ht : pool.take? = some (address, next)) :
    address ∉ held ∧ next.Lent (address :: held) := by
  obtain ⟨n, rfl, hfree, htaken, -, hsound⟩ := take?_spec h.toSound ht
  have hnew : addressOf n ∉ held := by
    intro hmem
    obtain ⟨m, hm, hsame⟩ := (h.mem_held_iff _).1 hmem
    rw [← addressOf_inj hsame, hfree] at hm
    cases hm
  refine ⟨hnew, hsound, List.nodup_cons.2 ⟨hnew, h.held_nodup⟩, fun address => ?_⟩
  rw [List.mem_cons, h.mem_held_iff, htaken]
  constructor
  · rintro (rfl | ⟨m, hm, rfl⟩)
    · exact ⟨n, update_self .., rfl⟩
    · exact ⟨m, by simp [update_apply, hm], rfl⟩
  · rintro ⟨m, hm, rfl⟩
    rw [update_apply] at hm
    split at hm
    · rename_i he
      exact .inl (by rw [he])
    · exact .inr ⟨m, hm, rfl⟩

theorem Lent.giveBack (h : pool.Lent held) (hg : pool.giveBack address = .ok next) :
    next.Lent (held.erase address) := by
  obtain ⟨n, rfl, -, htaken, -, hsound⟩ := giveBack_spec h.toSound hg
  refine ⟨hsound, h.held_nodup.erase _, fun other => ?_⟩
  rw [h.held_nodup.mem_erase_iff, h.mem_held_iff, htaken]
  constructor
  · rintro ⟨hne, m, hm, rfl⟩
    refine ⟨m, ?_, rfl⟩
    rw [update_of_ne, hm]
    rintro rfl
    exact hne rfl
  · rintro ⟨m, hm, rfl⟩
    rw [update_apply] at hm
    split at hm
    · cases hm
    · rename_i hne
      exact ⟨fun he => hne (addressOf_inj he), m, hm, rfl⟩

/-- A frame is taken back exactly if it is held. -/
theorem Lent.giveBack_ok_iff (h : pool.Lent held) :
    (∃ next, pool.giveBack address = .ok next) ↔ address ∈ held := by
  rw [h.mem_held_iff]
  constructor
  · rintro ⟨next, hback⟩
    obtain ⟨n, ha, hn, -⟩ := giveBack_spec h.toSound hback
    exact ⟨n, hn, ha⟩
  · rintro ⟨n, hn, rfl⟩
    exact giveBack_ok h.toSound hn

theorem Lent.write {first : Nat} (h : pool.Lent held)
    (hw : pool.write address first bytes = .ok next) : next.Lent held := by
  obtain ⟨-, htaken, hsound⟩ := write_spec h.toSound hw
  exact ⟨hsound, h.held_nodup, by rw [htaken]; exact h.mem_held_iff⟩

theorem bytesAt_of_contents (h : next.contents = pool.contents) :
    next.bytesAt address = pool.bytesAt address := by
  rw [bytesAt, bytesAt, h]

theorem Has.write_ok (h : pool.Has address) (first : Nat) (bytes : Bytes) :
    ∃ next, pool.write address first bytes = .ok next :=
  ⟨_, write_eq_ok.2 ⟨h.1, h.index_lt, rfl⟩⟩

/-- What becomes of the pool when it has answered. -/
structure Follows (pool : FramePool) (held : List PhysicalAddress)
    (event : PoolRequest × PoolAnswer) (next : FramePool) : Prop where
  lent : next.Lent (hold held event)
  size : next.size = pool.size
  bytesAt : ∀ n, next.bytesAt (addressOf n) = lay (addressOf n) (pool.bytesAt (addressOf n)) event

/-- An allowed request is carried out. -/
theorem Lent.perform {request : PoolRequest} (h : pool.Lent held)
    (ha : pool.Allows held request) :
    ∃ answer next, request.perform pool = .ok (answer, next) ∧
      pool.Follows held (request, answer) next := by
  cases request with
  | take =>
    cases ht : pool.take? with
    | none =>
      refine ⟨.taken none, pool, by rw [PoolRequest.perform, ht], h, rfl, fun _ => rfl⟩
    | some out =>
      obtain ⟨address, next⟩ := out
      obtain ⟨_, -, -, -, hcontents, -⟩ := take?_spec h.toSound ht
      exact ⟨.taken (some address), next, by rw [PoolRequest.perform, ht], (h.take ht).2,
        congrArg List.length hcontents, fun _ => bytesAt_of_contents hcontents⟩
  | giveBack address =>
    obtain ⟨next, hback⟩ := h.giveBack_ok_iff.2 ha
    obtain ⟨_, -, -, -, hcontents, -⟩ := giveBack_spec h.toSound hback
    exact ⟨.done, next, except_bind_eq_ok.2 ⟨next, hback, rfl⟩, h.giveBack hback,
      congrArg List.length hcontents, fun _ => bytesAt_of_contents hcontents⟩
  | write address first bytes =>
    obtain ⟨next, hw⟩ := ha.1.write_ok first bytes
    refine ⟨.done, next, except_bind_eq_ok.2 ⟨next, hw, rfl⟩, h.write hw, size_write hw,
      fun n => ?_⟩
    rw [(write_spec h.toSound hw).1, lay]
    by_cases he : addressOf n = address
    · rw [if_pos he, if_pos he.symm, he]
    · rw [if_neg he, if_neg (Ne.symm he)]

theorem Served.follows (hstart : start.Lent []) (h : start.Served past pool) :
    pool.Lent (heldAfter past) ∧ pool.size = start.size ∧
      ∀ n, pool.bytesAt (addressOf n) =
        past.foldl (lay (addressOf n)) (start.bytesAt (addressOf n)) := by
  induction h with
  | start => exact ⟨hstart, rfl, fun _ => rfl⟩
  | step served allowed run ih =>
    obtain ⟨hlent, hsize, hbytes⟩ := ih
    obtain ⟨_, _, hrun, hfollows⟩ := hlent.perform allowed
    cases run.symm.trans hrun
    refine ⟨?_, hfollows.size.trans hsize, fun n => ?_⟩
    · rw [heldAfter, List.foldl_append]
      exact hfollows.lent
    · rw [hfollows.bytesAt, hbytes, List.foldl_append]
      rfl

/-- The free list and the marks of a pool of that many frames agree with each other and with what
callers hold. -/
structure Accounts (pool : FramePool) (frames : Nat) (held : List PhysicalAddress) : Prop where
  size : pool.size = frames
  length_allocated : pool.allocated.length = frames
  free_nodup : pool.free.Nodup
  mem_free_iff : ∀ n, n ∈ pool.free ↔ pool.allocated[n]? = some false
  held_nodup : held.Nodup
  mem_held_iff : ∀ address, address ∈ held ↔
    ∃ n, pool.allocated[n]? = some true ∧ address = addressOf n
  free_add_allocated : pool.freeCount + pool.allocated.count true = frames

/-- A frame is handed out unless all of them are, and only one that nobody holds; and only one
that is held is taken back. -/
structure Lends (pool : FramePool) (frames : Nat) (held : List PhysicalAddress) : Prop where
  none_iff : pool.take? = none ↔ ∀ n < frames, pool.allocated[n]? = some true
  fresh : ∀ address next, pool.take? = some (address, next) →
    pool.Has address ∧ pool.allocated[address.value / pageSize]? = some false ∧ address ∉ held
  giveBack_ok_iff : ∀ address, (∃ next, pool.giveBack address = .ok next) ↔ address ∈ held

/-- The frames lie in one buffer, and what is stored inside a frame changes that part of the
buffer and no other frame. -/
structure Separates (pool : FramePool) : Prop where
  length_memory : pool.memory.length = pool.size * pageSize
  slice : ∀ address, pool.Has address →
    pool.bytesAt address = pool.memory.slice address.value pageSize
  write : ∀ address first bytes, pool.Has address → first + bytes.length ≤ pageSize →
    ∃ next, pool.write address first bytes = .ok next ∧
      next.memory = pool.memory.overlay (address.value + first) bytes ∧
      ∀ other, pool.Has other → other ≠ address → next.bytesAt other = pool.bytesAt other

theorem Lent.accounts (h : pool.Lent held) : pool.Accounts pool.size held where
  size := rfl
  length_allocated := h.length_allocated
  free_nodup := h.free_nodup
  mem_free_iff := h.mem_free
  held_nodup := h.held_nodup
  mem_held_iff address := by simpa [isTaken] using h.mem_held_iff address
  free_add_allocated := h.toSound.freeCount_add_taken

theorem Sound.take?_eq_none_iff_taken (h : pool.Sound) :
    pool.take? = none ↔ ∀ n < pool.size, pool.isTaken n = true := by
  rw [take?_eq_none_iff, List.eq_nil_iff_forall_not_mem]
  refine forall_congr' fun n => ?_
  rw [h.mem_free_iff, not_and, Bool.not_eq_false]

theorem Lent.lends (h : pool.Lent held) : pool.Lends pool.size held where
  none_iff := by simpa [isTaken] using h.toSound.take?_eq_none_iff_taken
  fresh address next ht := by
    have hnew := (h.take ht).1
    obtain ⟨n, rfl, hfree, htaken, hcontents, hsound⟩ := take?_spec h.toSound ht
    have hn : n < pool.size := by
      have hlt := hsound.lt_of_isTaken (by rw [htaken, update_self])
      rwa [size, hcontents] at hlt
    refine ⟨has_addressOf hn, ?_, hnew⟩
    rw [value_addressOf_div, ← h.mem_free]
    exact h.mem_free_iff.2 ⟨hn, hfree⟩
  giveBack_ok_iff _ := h.giveBack_ok_iff

theorem Sound.separates (h : pool.Sound) : pool.Separates where
  length_memory := h.length_memory
  slice _ hhas := h.bytesAt_eq_slice hhas
  write address first bytes hhas hinside := by
    obtain ⟨next, hw⟩ := hhas.write_ok first bytes
    refine ⟨next, hw, h.memory_write hinside hw, fun other hother hne => ?_⟩
    rw [← addressOf_div hother.1, (write_spec h hw).1, addressOf_div hother.1, if_neg hne]

theorem lent_ofSize (h : ofSize frames = .ok start) : start.Lent [] := by
  obtain ⟨hsound, hfree⟩ := ofSize_spec h
  refine ⟨hsound, List.nodup_nil, fun address => iff_of_false List.not_mem_nil ?_⟩
  rintro ⟨n, hn, -⟩
  rw [hfree n] at hn
  cases hn

theorem bytesAt_ofSize (h : ofSize frames = .ok start) {n : Nat} (hn : n < frames) :
    start.bytesAt (addressOf n) = .zeros pageSize := by
  obtain ⟨-, rfl⟩ := ofSize_eq_ok.1 h
  rw [bytesAt, value_addressOf_div, List.getElem?_replicate, if_pos hn, Option.getD_some]

/-- A pool of any size up to 2 ^ 20 frames lends each frame to one caller at a time. After any
requests that were allowed, the free list and the marks agree with each other and with what
callers hold; a frame is handed out, one that nobody holds, unless all of them are, and only a
frame that is held is taken back; each frame holds what was stored in it, whatever was stored in
others; and the next request that is allowed is carried out. -/
theorem ofSize_exclusive (hframes : frames ≤ 2 ^ 20) :
    ∃ start, ofSize frames = .ok start ∧ ∀ past pool, start.Served past pool →
      pool.Accounts frames (heldAfter past) ∧ pool.Lends frames (heldAfter past) ∧ pool.Separates ∧
        (∀ n < frames, pool.bytesAt (addressOf n) = bytesAfter (addressOf n) past) ∧
        ∀ request, pool.Allows (heldAfter past) request →
          ∃ answer next, request.perform pool = .ok (answer, next) := by
  have hstart : ofSize frames = .ok _ := ofSize_eq_ok.2 ⟨hframes, rfl⟩
  refine ⟨_, hstart, fun past pool served => ?_⟩
  obtain ⟨hlent, hsize, hbytes⟩ := served.follows (lent_ofSize hstart)
  have hsize : pool.size = frames := hsize.trans List.length_replicate
  refine ⟨hsize ▸ hlent.accounts, hsize ▸ hlent.lends, hlent.toSound.separates, fun n hn => ?_,
    fun request allowed => ?_⟩
  · rw [hbytes, bytesAt_ofSize hstart hn, bytesAfter]
  · obtain ⟨answer, next, run, -⟩ := hlent.perform allowed
    exact ⟨answer, next, run⟩

/-- A pool of two frames that nobody has taken. -/
def twoFrames : FramePool := ⟨List.replicate 2 (.zeros pageSize), [false, false], [0, 1]⟩

/-- Both frames are taken; the first, stored to at its very end, is given back and taken again. -/
def reusing : PoolPast :=
  [(.take, .taken (some ⟨0⟩)), (.write ⟨0⟩ 4094 [7, 8], .done), (.take, .taken (some ⟨0x1000⟩)),
    (.giveBack ⟨0⟩, .done), (.take, .taken (some ⟨0⟩))]

/-- Each frame is held once then, and no other is to be had; what was stored at the end of the
first one did not get into the second. -/
theorem ofSize_exclusive_of_reusing : 2 ≤ 2 ^ 20 ∧ ofSize 2 = .ok twoFrames ∧
    ∃ pool, twoFrames.Served reusing pool ∧ heldAfter reusing = [⟨0⟩, ⟨0x1000⟩] ∧
      (heldAfter reusing).Nodup ∧ pool.take? = none ∧
        pool.freeCount + pool.allocated.count true = 2 ∧
          pool.bytesAt (addressOf 1) = .zeros pageSize ∧
            (pool.bytesAt (addressOf 0)).drop 4093 = [0, 7, 8] := by
  obtain ⟨start, hstart, hserves⟩ := @ofSize_exclusive 2 (by decide)
  obtain rfl : twoFrames = start := Except.ok.inj hstart
  have first := @Served.step twoFrames _ _ _ .take _ .start trivial rfl
  have second := @Served.step _ _ _ _ (.write ⟨0⟩ 4094 [7, 8]) _ first
    ⟨⟨rfl, by decide⟩, by decide⟩ rfl
  have third := @Served.step _ _ _ _ .take _ second trivial rfl
  have fourth := @Served.step _ _ _ _ (.giveBack ⟨0⟩) _ third (.tail _ (.head _)) rfl
  have fifth := @Served.step _ _ _ _ .take _ fourth trivial rfl
  obtain ⟨haccounts, -, -, hbytes, -⟩ := hserves reusing _ fifth
  refine ⟨by decide, hstart, _, fifth, rfl, haccounts.held_nodup, ?_, haccounts.free_add_allocated,
    hbytes 1 (by decide), ?_⟩
  · rfl
  · rw [hbytes 0 (by decide)]
    decide +kernel

end FramePool
end Pager
