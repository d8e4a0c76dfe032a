import Mathlib.Data.Bool.Count
import Mathlib.Data.List.Induction
import Mathlib.Data.List.Nodup
import Pager.Proofs.Coherence

/-!
Counting. A counter kept beside a list agrees with the number of things that are
meant to be in it, as long as these are told apart by numbers: marked slots are
counted by the pages that record them, and taken frames of the pool by the live
frames of the table.
-/
namespace Pager

/-- Distinct numbers of exactly those elements that count. -/
theorem length_eq_countP {α : Type} {l : List α} {p : α → Bool} {numbers : List Nat}
    (hdistinct : numbers.Nodup) (hmem : ∀ n, n ∈ numbers ↔ ∃ a, l[n]? = some a ∧ p a = true) :
    numbers.length = l.countP p := by
  induction l using List.reverseRecOn generalizing numbers with
  | nil =>
    have hnone : numbers = [] := List.eq_nil_iff_forall_not_mem.2 fun n hn => by
      obtain ⟨a, ha, -⟩ := (hmem n).1 hn
      simp at ha
    rw [hnone]
    rfl
  | append_singleton rest a ih =>
    have hrest : ∀ n, n ∈ numbers.erase rest.length ↔ ∃ b, rest[n]? = some b ∧ p b = true := by
      intro n
      rw [hdistinct.mem_erase_iff, hmem]
      constructor
      · rintro ⟨hne, b, hb, hp⟩
        rcases Nat.lt_or_ge n rest.length with hlt | hge
        · rw [List.getElem?_append_left hlt] at hb
          exact ⟨b, hb, hp⟩
        · rw [List.getElem?_append_right hge, List.getElem?_singleton] at hb
          rw [if_neg (by omega)] at hb
          cases hb
      · rintro ⟨b, hb, hp⟩
        have hlt : n < rest.length := (List.getElem?_eq_some_iff.1 hb).1
        refine ⟨by omega, b, ?_, hp⟩
        rw [List.getElem?_append_left hlt, hb]
    have hlen := ih (hdistinct.erase _) hrest
    rw [List.countP_append, List.countP_singleton, ← hlen]
    by_cases hp : p a = true
    · have hlast : rest.length ∈ numbers := (hmem _).2 ⟨a, by simp, hp⟩
      have hpos := List.length_pos_of_mem hlast
      rw [if_pos hp, List.length_erase_of_mem hlast]
      omega
    · have hlast : rest.length ∉ numbers := by
        intro hin
        obtain ⟨b, hb, hpb⟩ := (hmem _).1 hin
        rw [List.getElem?_append_right (Nat.le_refl _), Nat.sub_self] at hb
        cases hb
        exact hp hpb
      rw [if_neg hp, List.erase_of_not_mem hlast]
      rfl

namespace Table

variable {α : Type}

theorem mem_values_iff {t : Table α} {v : α} : v ∈ t.values ↔ ∃ key, t.get? key = some v := by
  rw [values, List.mem_map]
  constructor
  · rintro ⟨⟨key, v⟩, he, rfl⟩
    exact ⟨key, t.get?_eq_some_iff.2 he⟩
  · rintro ⟨key, hv⟩
    exact ⟨(key, v), t.get?_eq_some_iff.1 hv, rfl⟩

/-- Values under different keys are told apart by what tells their keys apart. -/
theorem pairwise_values {t : Table α} {R : α → α → Prop}
    (h : ∀ {k l v w}, t.get? k = some v → t.get? l = some w → k ≠ l → R v w) :
    t.values.Pairwise R := by
  refine List.pairwise_map.2 (t.sorted.imp_of_mem fun {e f} he hf hlt => ?_)
  exact h (t.get?_eq_some_iff.2 he) (t.get?_eq_some_iff.2 hf) (Nat.ne_of_lt hlt)

/-- A value that is taken out of a table, and those that are left. -/
theorem perm_values_erase {t : Table α} {key : Nat} {v : α} (h : t.get? key = some v) :
    t.values.Perm (v :: (t.erase key).values) := by
  have hmem := t.get?_eq_some_iff.1 h
  have hnodup : ∀ u : Table α, u.entries.Nodup := by
    intro u
    refine u.sorted.imp ?_
    rintro a _ hlt rfl
    exact Nat.lt_irrefl _ hlt
  have hentries : t.entries.Perm ((key, v) :: (t.erase key).entries) := by
    refine (List.perm_ext_iff_of_nodup (hnodup t) (List.nodup_cons.2 ⟨?_, hnodup _⟩)).2 fun e => ?_
    · simp [erase]
    · obtain ⟨k, w⟩ := e
      simp only [erase, List.mem_cons, List.mem_filter, bne_iff_ne, Prod.mk.injEq]
      constructor
      · intro he
        by_cases hk : k = key
        · subst hk
          exact .inl ⟨rfl, t.mem_entries_unique he hmem⟩
        · exact .inr ⟨he, hk⟩
      · rintro (⟨rfl, rfl⟩ | ⟨he, -⟩)
        · exact hmem
        · exact he
  exact hentries.map _

end Table

/-- Every frame of a pool is either free or handed out. -/
theorem FramePool.Sound.freeCount_add_taken {pool : FramePool} (h : pool.Sound) :
    pool.freeCount + pool.allocated.count true = pool.size := by
  have hfree : pool.freeCount = pool.allocated.count false := by
    refine length_eq_countP h.free_nodup fun n => ?_
    rw [h.mem_free]
    simp
  rw [hfree, List.count_false_add_count_true, h.length_allocated]

namespace FrameTable

/-- The frames that are tracked. -/
def liveIds (t : FrameTable) : List FrameId :=
  (List.range t.slots.length).filter fun id => (t.get? id).isSome

variable {t : FrameTable}

theorem mem_liveIds {id : FrameId} : id ∈ t.liveIds ↔ ∃ fr, t.get? id = some fr := by
  rw [liveIds, List.mem_filter, List.mem_range, Option.isSome_iff_exists]
  exact ⟨fun h => h.2, fun ⟨fr, h⟩ => ⟨lt_length_of_get? h, fr, h⟩⟩

theorem nodup_liveIds : t.liveIds.Nodup := List.nodup_range.filter _

theorem Sound.length_liveIds (h : t.Sound) : t.liveIds.length = t.live := by
  rw [h.live_eq]
  refine length_eq_countP nodup_liveIds fun id => ?_
  rw [mem_liveIds]
  constructor
  · rintro ⟨fr, hf⟩
    exact ⟨some fr, slots_of_get? hf, rfl⟩
  · rintro ⟨slot, hs, hsome⟩
    obtain ⟨fr, rfl⟩ := Option.isSome_iff_exists.1 hsome
    exact ⟨fr, Option.join_eq_some_iff.2 hs⟩

end FrameTable

/-- The number of a tracked frame in the pool. -/
def Machine.frameNumber (s : Machine) (f : FrameId) : Nat :=
  (s.frames.get? f).elim 0 fun fr => fr.address.value / pageSize

namespace Coherent

variable {s : Machine} {held : Option FrameId}

theorem frameNumber_eq (h : Coherent ⟨s, held⟩) {f : FrameId} {fr : Frame}
    (hf : s.frames.get? f = some fr) :
    s.pool.isTaken (s.frameNumber f) = true ∧ fr.address = FramePool.addressOf (s.frameNumber f) := by
  obtain ⟨n, hn, ha⟩ := h.backed.address_taken hf
  have hnumber : s.frameNumber f = n := by
    rw [Machine.frameNumber, hf, Option.elim_some, ha, FramePool.value_addressOf_div]
  rw [hnumber]
  exact ⟨hn, ha⟩

/-- The frames of the pool that are handed out are the tracked ones. -/
theorem live_eq_taken (h : Coherent ⟨s, held⟩) :
    s.frames.live = s.pool.allocated.count true := by
  rw [← h.frames.length_liveIds, ← List.length_map (f := s.frameNumber)]
  refine length_eq_countP (List.Nodup.map_on (fun f hf g hg he => ?_) FrameTable.nodup_liveIds)
    fun n => ?_
  · obtain ⟨fr, hf⟩ := FrameTable.mem_liveIds.1 hf
    obtain ⟨gr, hg⟩ := FrameTable.mem_liveIds.1 hg
    refine h.backed.address_inj hf hg ?_
    rw [(h.frameNumber_eq hf).2, (h.frameNumber_eq hg).2, he]
  · have htaken : (∃ b, s.pool.allocated[n]? = some b ∧ (b == true) = true) ↔
        s.pool.isTaken n = true := by
      simp [FramePool.isTaken]
    rw [htaken, List.mem_map]
    constructor
    · rintro ⟨f, hf, rfl⟩
      obtain ⟨fr, hf⟩ := FrameTable.mem_liveIds.1 hf
      exact (h.frameNumber_eq hf).1
    · intro hn
      obtain ⟨f, fr, hf, ha⟩ := h.backed.taken_frame hn
      refine ⟨f, FrameTable.mem_liveIds.2 ⟨fr, hf⟩, ?_⟩
      rw [Machine.frameNumber, hf, Option.elim_some, ha, FramePool.value_addressOf_div]

/-- Every frame of the pool is either free or tracked. -/
theorem live_add_free (h : Coherent ⟨s, held⟩) :
    s.frames.live + s.pool.freeCount = s.pool.size := by
  rw [h.live_eq_taken, Nat.add_comm, h.pool.freeCount_add_taken]

theorem pool_size_moves {kinds : Label → Prop} {m n : Moment} (h : Coherent m)
    (hmoves : Moves kinds m n) : n.machine.pool.size = m.machine.pool.size := by
  refine h.keeps hmoves (fun m => m.machine.pool.size) fun _ hc hmove => ?_
  cases hmove with
  | take hfree =>
    obtain ⟨-, -, -, -, hcontents, -⟩ := FramePool.take?_spec hc.pool hfree
    exact congrArg List.length hcontents
  | giveBack _ hback =>
    obtain ⟨-, -, -, -, hcontents, -⟩ := FramePool.giveBack_spec hc.pool hback
    exact congrArg List.length hcontents
  | scribble _ hw | store _ _ hw | populate _ _ _ _ _ hw | lose _ _ _ _ _ hw =>
    exact FramePool.size_write hw
  | _ => rfl

/-- Frames are handed out and given back, and none is lost. -/
theorem live_add_free_moves {kinds : Label → Prop} {m n : Moment} (h : Coherent m)
    (hmoves : Moves kinds m n) :
    n.machine.frames.live + n.machine.pool.freeCount =
      m.machine.frames.live + m.machine.pool.freeCount := by
  rw [(h.moves hmoves).live_add_free, h.live_add_free, h.pool_size_moves hmoves]

end Coherent

/-- Every page that is registered in some space. -/
def Machine.pages (s : Machine) : List Page := s.spaces.values.flatMap fun sp => sp.pages.pages.values

theorem Machine.mem_pages_iff {s : Machine} {p : Page} :
    p ∈ s.pages ↔ ∃ pl, Pager.pageAt s.spaces pl = some p := by
  simp only [Machine.pages, List.mem_flatMap, Table.mem_values_iff]
  constructor
  · rintro ⟨sp, ⟨id, hs⟩, key, hp⟩
    exact ⟨⟨id, key⟩, (pageAt_of_get? hs key).trans hp⟩
  · rintro ⟨pl, hp⟩
    obtain ⟨sp, hs, hp⟩ := exists_space_of_pageAt hp
    exact ⟨sp, ⟨pl.space, hs⟩, pl.key, hp⟩

/-- Pages are told apart by what tells their places apart. -/
theorem Machine.pairwise_pages {s : Machine} {R : Page → Page → Prop}
    (h : ∀ {pl pl' : Place} {p q : Page}, Pager.pageAt s.spaces pl = some p →
      Pager.pageAt s.spaces pl' = some q → pl ≠ pl' → R p q) : s.pages.Pairwise R := by
  refine List.pairwise_flatMap.2 ⟨fun sp hsp => ?_, ?_⟩
  · obtain ⟨id, hs⟩ := Table.mem_values_iff.1 hsp
    refine Table.pairwise_values fun {k l p q} hp hq hkl => ?_
    exact h ((pageAt_of_get? hs k).trans hp) ((pageAt_of_get? hs l).trans hq)
      fun he => hkl (congrArg Place.key he)
  · refine Table.pairwise_values fun {id id' sp sp'} hs hs' hdiff p hp q hq => ?_
    obtain ⟨k, hp⟩ := Table.mem_values_iff.1 hp
    obtain ⟨l, hq⟩ := Table.mem_values_iff.1 hq
    exact h ((pageAt_of_get? hs k).trans hp) ((pageAt_of_get? hs' l).trans hq)
      fun he => hdiff (congrArg Place.space he)

/-- Pages at different places record different slots. -/
theorem Coherent.nodup_slots {s : Machine} {held : Option FrameId} (h : Coherent ⟨s, held⟩) :
    (s.pages.filterMap Page.slot).Nodup := by
  refine List.pairwise_filterMap.2 (Machine.pairwise_pages fun {pl pl' p q} hp hq hdiff n hn m hm he => ?_)
  subst he
  refine hdiff (h.parked.unique (n := n) ?_ ?_)
  · rw [slotsOf, show pageAt s.spaces pl = some p from hp, Option.bind_some, hn]
  · rw [slotsOf, show pageAt s.spaces pl' = some q from hq, Option.bind_some, hm]

/-- Pages at different places lie in different frames. -/
theorem Coherent.nodup_frames {s : Machine} {held : Option FrameId} (h : Coherent ⟨s, held⟩) :
    (s.pages.filterMap Page.frame).Nodup := by
  refine List.pairwise_filterMap.2 (Machine.pairwise_pages fun hp hq hdiff f hf g hg he => ?_)
  subst he
  exact hdiff (h.linked.place_unique hp hf hq hg)

/-- Between two operations as many frames are tracked as there are pages that lie in one. -/
theorem Coherent.live_eq_resident {s : Machine} (h : Coherent ⟨s, none⟩) :
    s.frames.live = s.pages.countP fun p => p.frame.isSome := by
  rw [← List.length_filterMap_eq_countP, h.frames.live_eq]
  refine (length_eq_countP (p := Option.isSome) h.nodup_frames fun f => ?_).symm
  simp only [List.mem_filterMap, Machine.mem_pages_iff]
  constructor
  · rintro ⟨p, ⟨pl, hp⟩, hf⟩
    obtain ⟨fr, -, hfr, -⟩ := h.linked.page_frame hp hf
    exact ⟨some fr, FrameTable.slots_of_get? hfr, rfl⟩
  · rintro ⟨frame, hslot, hsome⟩
    obtain ⟨fr, rfl⟩ := Option.isSome_iff_exists.1 hsome
    have hf : s.frames.get? f = some fr := by rw [FrameTable.get?, hslot, Option.join_some]
    cases ho : fr.owner with
    | none => cases (h.linked.held_iff hf).1 ho
    | some o =>
      obtain ⟨p, hp, hres⟩ := h.linked.owner_page hf ho
      exact ⟨p, ⟨_, hp⟩, hres⟩

/-- As many slots are in use as there are pages that record one. -/
theorem Coherent.used_eq {s : Machine} {held : Option FrameId} (h : Coherent ⟨s, held⟩) :
    s.swap.used = s.pages.countP fun p => p.slot.isSome := by
  rw [← List.length_filterMap_eq_countP, SwapTable.used, SlotBitmap.used_eq_countP_test]
  refine (length_eq_countP h.nodup_slots fun n => ?_).symm
  have hused : (∃ m, (List.range s.swap.bitmap.slots)[n]? = some m ∧ s.swap.bitmap.test m = true) ↔
      s.swap.isUsed n = true := by
    constructor
    · rintro ⟨m, hm, htest⟩
      obtain ⟨hlt, rfl⟩ := List.getElem?_eq_some_iff.1 hm
      rwa [List.getElem_range] at htest
    · intro htest
      exact ⟨n, List.getElem?_range (SlotBitmap.lt_of_test htest), htest⟩
  have hslot : s.swap.isUsed n = true ↔ ∃ pl, slotsOf (pageAt s.spaces) pl = some n :=
    h.parked.used_iff n
  rw [hused, hslot, List.mem_filterMap]
  simp only [Machine.mem_pages_iff, slotsOf, Option.bind_eq_some_iff]
  constructor
  · rintro ⟨p, ⟨pl, hp⟩, hn⟩
    exact ⟨pl, p, hp, hn⟩
  · rintro ⟨pl, p, hp, hn⟩
    exact ⟨p, ⟨pl, hp⟩, hn⟩

/-- Pages that are counted are those of one space and those of the others. -/
theorem Machine.countP_pages_erase {s t : Machine} {id : SpaceId} {sp : Space}
    (hs : s.spaces.get? id = some sp) (ht : t.spaces = s.spaces.erase id) (counts : Page → Bool) :
    s.pages.countP counts = sp.pages.pages.values.countP counts + t.pages.countP counts := by
  have hperm := (Table.perm_values_erase hs).flatMap_right fun sp : Space => sp.pages.pages.values
  rw [Machine.pages, hperm.countP_eq, List.flatMap_cons, List.countP_append, Machine.pages, ht]

end Pager
