import Pager.Machine.Lifetime
import Pager.Proofs.Unmapping

/-!
The end of a space. Tearing a space down unmaps what is mapped in it, removes the
pages that are left and drops the space itself. Nothing of this can fail: each
failed write-back is only reported, and each page is still registered when its
turn comes.
-/
namespace Pager

namespace Label

/-- One space loses its mappings and pages and is dropped. -/
def Clears (id : SpaceId) : Label → Prop
  | note | request | giveBack => True
  | unrecord other _ | drop other => other = id
  | unseat pl _ | remove pl _ => pl.space = id
  | _ => False

theorem Dismantles.clears {l : Label} {id : SpaceId} (h : l.Dismantles id) : l.Clears id := by
  cases l with
  | note | request | giveBack => trivial
  | unrecord => exact h
  | unseat | remove => exact h.1
  | _ => cases h

theorem Removes.clears {l : Label} {id : SpaceId} {a : VirtualAddress}
    {mapping : Option MappingId} (h : l.Removes (.of id a) mapping) : l.Clears id := by
  cases l with
  | giveBack => trivial
  | unseat | remove =>
    obtain ⟨rfl, -⟩ := h
    rfl
  | _ => cases h

end Label

namespace Machine

variable {s t : Machine} {id : SpaceId} {sp : Space} {r : Except PagerError Unit}

/-- Mappings are given up one after the other, whether their pages could be written or not. -/
theorem unmapAll_cons {start : VirtualAddress} {rest : List VirtualAddress}
    (run : unmapAll id (start :: rest) s = .ok (r, t)) :
    ∃ q u events, munmap id start s = .ok (q, u) ∧
      unmapAll id rest { u with events } = .ok (r, t) := by
  unfold unmapAll at run
  obtain ⟨q, u, hmunmap, hnext⟩ := Action.attempt_bind_eq_ok.1 run
  cases q with
  | ok _ => exact ⟨_, u, u.events, hmunmap, hnext⟩
  | error e => exact ⟨_, u, .teardownWritebackFailed id start e :: u.events, hmunmap, hnext⟩

theorem unmapAll_moves {starts : List VirtualAddress} (h : Coherent ⟨s, none⟩)
    (hs : s.spaces.get? id = some sp) (run : unmapAll id starts s = .ok (r, t)) :
    r = .ok () ∧ Moves (Label.Dismantles id) ⟨s, none⟩ ⟨t, none⟩ ∧
      ∃ sp', t.spaces = s.spaces.insert id sp' := by
  induction starts generalizing s sp with
  | nil =>
    cases run
    exact ⟨rfl, .refl, sp, (Table.insert_of_get? hs).symm⟩
  | cons start rest ih =>
    obtain ⟨q, u, events, hmunmap, hrest⟩ := unmapAll_cons run
    obtain ⟨hmoves, sp', hs', hspaces⟩ := munmap_moves h hmunmap
    have hfirst := hmoves.tail (.note u.evictions events) trivial
    have hinsert : ∃ sp'', u.spaces = s.spaces.insert id sp'' := by
      rcases hspaces with ⟨-, -, rfl⟩ | ⟨_, _, _, _, -, -, ht, -⟩
      · exact ⟨sp', (Table.insert_of_get? hs').symm⟩
      · exact ⟨_, ht⟩
    obtain ⟨sp'', hinsert⟩ := hinsert
    have hget : u.spaces.get? id = some sp'' := by rw [hinsert, Table.get?_insert_self]
    obtain ⟨rfl, hmoves', last, hlast⟩ := ih (h.moves hfirst) hget hrest
    have hlast : t.spaces = u.spaces.insert id last := hlast
    exact ⟨rfl, hfirst.trans hmoves', last, by rw [hlast, hinsert, Table.insert_insert]⟩

/-- Pages that are registered, each once in the list, are all removed. -/
theorem removeAll_moves {addresses : List VirtualAddress} (h : Coherent ⟨s, none⟩)
    (hs : s.spaces.get? id = some sp)
    (hdistinct : (addresses.map fun a => a.pageBase.value).Nodup)
    (hregistered : ∀ a ∈ addresses, (sp.pages.get? a).isSome = true)
    (run : removeAll id addresses s = .ok (r, t)) :
    r = .ok () ∧ Moves (Label.Clears id) ⟨s, none⟩ ⟨t, none⟩ ∧
      ∃ sp', t.spaces = s.spaces.insert id sp' ∧ ∀ key, sp'.pages.pages.get? key =
        if ∃ a ∈ addresses, a.pageBase.value = key then none else sp.pages.pages.get? key := by
  induction addresses generalizing s sp with
  | nil =>
    cases run
    exact ⟨rfl, .refl, sp, (Table.insert_of_get? hs).symm, by simp⟩
  | cons a rest ih =>
    unfold removeAll at run
    obtain ⟨hfirst, hdistinct⟩ := List.nodup_cons.1 hdistinct
    have hne : ∀ b ∈ rest, b.pageBase.value ≠ a.pageBase.value := fun b hb he =>
      hfirst (List.mem_map.2 ⟨b, hb, he⟩)
    have hself := hregistered a (List.mem_cons_self ..)
    rcases Action.bind_eq_ok.1 run with ⟨_, u, hremove, hnext⟩ | ⟨e, hremove, rfl⟩
    · obtain ⟨sp', hs', ⟨-, hr, -⟩ | ⟨p, directory, hp, -, hmoves, -, hu⟩⟩ := remove_moves h hremove
      · cases hr
      · rw [hs] at hs'
        cases hs'
        have hmoves := hmoves.mono fun l hl => hl.clears
        have herase : ∀ key, (sp.pages.erase a).pages.get? key =
            if key = a.pageBase.value then none else sp.pages.pages.get? key :=
          fun key => Table.get?_erase ..
        have hget : u.spaces.get? id = some { sp with pages := sp.pages.erase a, directory } := by
          rw [hu, Table.get?_insert_self]
        obtain ⟨rfl, hrest, sp', ht, hpages⟩ := ih (h.moves hmoves) hget hdistinct (fun b hb => by
          show ((sp.pages.erase a).pages.get? b.pageBase.value).isSome = true
          rw [herase, if_neg (hne b hb)]
          exact hregistered b (List.mem_cons_of_mem _ hb)) hnext
        refine ⟨rfl, hmoves.trans hrest, sp', by rw [ht, hu, Table.insert_insert], fun key => ?_⟩
        rw [hpages, herase]
        by_cases hkey : key = a.pageBase.value
        · simp [hkey]
        · simp [hkey, Ne.symm hkey]
    · obtain ⟨sp', hs', ⟨hnone, -, -⟩ | ⟨_, _, -, hr, -⟩⟩ := remove_moves h hremove
      · rw [hs] at hs'
        cases hs'
        rw [hnone] at hself
        cases hself
      · cases hr

theorem value_addresses (t : PageTable) : t.addresses.map Address.value = t.pages.keys := by
  rw [PageTable.addresses, List.map_map]
  exact List.map_id _

theorem aligned_addresses (h : Coherent ⟨s, none⟩) (hs : s.spaces.get? id = some sp) :
    ∀ a ∈ sp.pages.addresses, a.value % pageSize = 0 := by
  intro a ha
  have hmem := List.mem_map_of_mem (f := Address.value) ha
  rw [value_addresses, ← Table.contains_iff] at hmem
  obtain ⟨p, hp⟩ := Option.isSome_iff_exists.1 hmem
  exact (h.linked.keyed ((pageAt_of_get? hs a.value).trans hp)).2

theorem map_addresses (h : Coherent ⟨s, none⟩) (hs : s.spaces.get? id = some sp) :
    (sp.pages.addresses.map fun a => a.pageBase.value) = sp.pages.pages.keys := by
  rw [← value_addresses]
  refine List.map_congr_left fun a ha => ?_
  rw [Address.pageBase_value]
  exact Nat.div_mul_cancel (Nat.dvd_of_mod_eq_zero (aligned_addresses h hs a ha))

theorem registered_addresses (h : Coherent ⟨s, none⟩) (hs : s.spaces.get? id = some sp) :
    ∀ a ∈ sp.pages.addresses, (sp.pages.get? a).isSome = true := by
  intro a ha
  have hmem := List.mem_map_of_mem (f := fun a : VirtualAddress => a.pageBase.value) ha
  rw [map_addresses h hs] at hmem
  exact (Table.contains_iff _).2 hmem

/-- First the mappings are given up, and then all pages that are left. -/
theorem teardown_cases (h : Coherent ⟨s, none⟩) (run : teardown id s = .ok (r, t)) :
    r = .ok () ∧ ∃ sp u, s.spaces.get? id = some sp ∧
      unmapAll id (sp.mappings.keys.map fun key => ⟨key⟩) s = .ok (.ok (), u) ∧
      Moves (Label.Clears id) ⟨u, none⟩ ⟨t, none⟩ ∧ t.spaces = s.spaces.erase id := by
  unfold teardown at run
  obtain ⟨sp, hs, run⟩ := space_bind_eq_ok.1 run
  rcases Action.bind_eq_ok.1 run with ⟨_, u, hunmap, run⟩ | ⟨e, hunmap, -⟩
  · obtain ⟨-, hmoves, spu, hu⟩ := unmapAll_moves h hs hunmap
    have hcoherent := h.moves hmoves
    obtain ⟨spu', hsu, run⟩ := space_bind_eq_ok.1 run
    have hsame : spu' = spu := by
      rw [hu, Table.get?_insert_self] at hsu
      exact (Option.some.inj hsu).symm
    subst hsame
    have hkeys := map_addresses hcoherent hsu
    rcases Action.bind_eq_ok.1 run with ⟨_, v, hremove, hnext⟩ | ⟨e, hremove, -⟩
    · obtain ⟨-, hmoves', sp', hv, hpages⟩ := removeAll_moves hcoherent hsu
        (by rw [hkeys]; exact (Table.sorted_keys _).imp Nat.ne_of_lt)
        (registered_addresses hcoherent hsu) hremove
      cases hnext
      have hempty : ∀ key, sp'.pages.pages.get? key = none := by
        intro key
        rw [hpages]
        split
        · rfl
        · rename_i hnone
          by_contra hcon
          have hmem : key ∈ spu'.pages.pages.keys := by
            by_contra hkey
            exact hcon ((Table.get?_eq_none_iff _).2 hkey)
          rw [← hkeys, List.mem_map] at hmem
          exact hnone hmem
      have hget : v.spaces.get? id = some sp' := by rw [hv, Table.get?_insert_self]
      refine ⟨rfl, sp, u, hs, hunmap, (hmoves'.tail (.note ..) trivial).tail (.drop hget hempty) rfl,
        ?_⟩
      show v.spaces.erase id = s.spaces.erase id
      rw [hv, hu, Table.insert_insert, Table.erase_insert]
    · cases (removeAll_moves hcoherent hsu
        (by rw [hkeys]; exact (Table.sorted_keys _).imp Nat.ne_of_lt)
        (registered_addresses hcoherent hsu) hremove).1
  · cases (unmapAll_moves h hs hunmap).1

/-- In the end the space is gone and the other spaces are as they were. -/
theorem teardown_moves (h : Coherent ⟨s, none⟩) (run : teardown id s = .ok (r, t)) :
    r = .ok () ∧ Moves (Label.Clears id) ⟨s, none⟩ ⟨t, none⟩ ∧ t.spaces = s.spaces.erase id := by
  obtain ⟨hr, sp, u, hs, hunmap, hmoves, ht⟩ := teardown_cases h run
  have hfirst := (unmapAll_moves h hs hunmap).2.1.mono fun l hl => hl.clears
  exact ⟨hr, hfirst.trans hmoves, ht⟩

end Machine
end Pager
