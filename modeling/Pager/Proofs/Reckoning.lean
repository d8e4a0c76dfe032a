import Pager.Proofs.Reachability
import Pager.Proofs.Records

/-!
What operations do to the records of mappings. Apart from mapping and unmapping
nothing touches a record or brings a page to a mapping; unmapping takes a record
with all of its pages. So pages and records can only come apart when a mapping is
made where an older one has been dismantled in part, and then they always do.
-/
namespace Pager

namespace Label

/-- No page comes to a mapping, and records stay. -/
def Sparing : Label → Prop
  | register _ page => page.mapping = none
  | record .. | unrecord .. => False
  | _ => True

variable {l : Label} {id : SpaceId}

theorem Registers.sparing {held : List Handle} (h : l.Registers id held) : l.Sparing := by
  cases l <;> first | exact h.2.1 | cases h

theorem Claims.sparing {among : Place → Prop} (h : l.Claims among) : l.Sparing := by
  cases l <;> trivial

theorem Copies.sparing (h : l.Copies id) : l.Sparing := by
  cases l <;> trivial

theorem Pins.sparing (h : l.Pins) : l.Sparing := by
  cases l <;> trivial

theorem Adjusts.sparing {answers : Option PagerError → Prop} (h : l.Adjusts answers) :
    l.Sparing := by
  cases l <;> trivial

theorem Removes.sparing {pl : Place} {mapping : Option MappingId} (h : l.Removes pl mapping) :
    l.Sparing := by
  cases l <;> trivial

theorem Opens.sparing (h : l.Opens id) : l.Sparing := by
  cases l <;> trivial

theorem Founds.sparing {refuses : Option PagerError} (h : l.Founds id refuses) : l.Sparing := by
  cases l <;> first | exact h.2.1 | trivial

end Label

/-- A new mapping takes the place of a record that pages still refer to. -/
def SpaceOp.displaces (s : Machine) (id : SpaceId) (start : Nat) (r : Except Failure Value) :
    SpaceOp → Bool
  | mmap .. =>
    match r, s.spaces.get? id with
    | .ok _, some sp => sp.occupied start
    | _, _ => false
  | _ => false

def Op.displaces (s : Machine) (r : Except Failure Value) : Op → Bool
  | onSpace id address op => op.displaces s id address r
  | _ => false

/-- Whether some operation of a run takes a record from its pages. -/
def Machine.displaced : List Op → Machine → Bool
  | [], _ => false
  | op :: rest, s =>
    match step op s with
    | .ok (r, t) => op.displaces s r || displaced rest t
    | .error _ => false

namespace Machine

/-- Every space is as told. -/
def Each (P : Space → Prop) (s : Machine) : Prop := ∀ id sp, s.spaces.get? id = some sp → P sp

/-- In every space pages of mappings lie in the ranges of their records. -/
def Recorded (s : Machine) : Prop := s.Each Space.Recorded

def Numbered (s : Machine) : Prop := s.Each Space.Numbered

variable {s t w : Machine} {id : SpaceId} {a : VirtualAddress} {sp after : Space}
  {P : Space → Prop}

theorem Each.insert (h : s.Each P) (ht : t.spaces = s.spaces.insert id after)
    (hafter : P after) : t.Each P := by
  intro other sp' hget
  rw [ht, Table.get?_insert] at hget
  split at hget
  · cases hget
    exact hafter
  · exact h other sp' hget

theorem Each.erase (h : s.Each P) (ht : t.spaces = s.spaces.erase id) : t.Each P := by
  intro other sp' hget
  rw [ht, Table.get?_erase] at hget
  split at hget
  · cases hget
  · exact h other sp' hget

end Machine

section

variable {m n : Moment} {l : Label} {P : Space → Prop}

/-- A space that is there after a sparing move has faded to what it is, unless it is new. -/
theorem Coherent.space_before (h : Coherent m) (hmove : Move l m n) (hl : l.Sparing) {id : SpaceId}
    {after : Space} (hs : n.machine.spaces.get? id = some after) :
    (∃ sp, m.machine.spaces.get? id = some sp ∧ sp.Fades after) ∨ l = .create id ∧ after = {} := by
  have hinsert : ∀ {other sp next}, m.machine.spaces.get? other = some sp →
      n.machine.spaces = m.machine.spaces.insert other next → sp.Fades next →
        ∃ sp, m.machine.spaces.get? id = some sp ∧ sp.Fades after := by
    intro other sp next hold hn hfades
    rw [hn, Table.get?_insert] at hs
    split at hs
    · rename_i heq
      cases hs
      exact ⟨sp, heq ▸ hold, hfades⟩
    · exact ⟨after, hs, .refl⟩
  cases hmove with
  | note | turn | take | giveBack | scribble | request | handles | outside | switch | pin | spare
  | attempt | store => exact .inl ⟨after, hs, .refl⟩
  | mark hold | soil hold | adjust hold =>
    exact .inl (hinsert hold rfl ⟨rfl, Nat.le_refl _, fun _ q _ hq hq' => ⟨q, hq, hq'⟩⟩)
  | @evict s pl f fr sp p t _ _ hold hp hout =>
    refine .inl (hinsert hold rfl (.put rfl rfl rfl ?_))
    intro mapping hmapping
    cases Transfer.evict_eq_ok hout with
    | parked => cases hmapping
    | filed => exact ⟨p, hp, hmapping⟩
  | populate hf hold hp _ hfill | lose hf hold hp _ hfill =>
    refine .inl (hinsert hold rfl (.put rfl rfl rfl ?_))
    intro mapping hmapping
    have hlen := h.length_frame hf
    rcases Transfer.populate_eq_ok h.swap hlen hfill with ⟨-, ht⟩ | ⟨e, he, -⟩
    · exact ⟨_, hp, (ht.spec h.swap hlen).1.of_mapping hmapping⟩
    · cases he
  | seat _ hold hp | unseat _ hold hp =>
    exact .inl (hinsert hold rfl (.put rfl rfl rfl fun _ hmapping => ⟨_, hp, hmapping⟩))
  | register hold =>
    refine .inl (hinsert hold rfl (.put rfl rfl rfl fun _ hmapping => ?_))
    have hnone : Page.mapping _ = none := hl
    rw [hnone] at hmapping
    cases hmapping
  | @remove s held pl sp p _ _ hold =>
    refine .inl (hinsert hold rfl ⟨rfl, Nat.le_refl _, fun key q mapping hq hq' => ?_⟩)
    have hq : (sp.pages.pages.erase pl.key).get? key = some q := hq
    rw [Table.get?_erase] at hq
    split at hq
    · cases hq
    · exact ⟨q, hq, hq'⟩
  | number hold =>
    exact .inl (hinsert hold rfl ⟨rfl, Nat.le_succ _, fun _ q _ hq hq' => ⟨q, hq, hq'⟩⟩)
  | create =>
    rw [Table.get?_insert] at hs
    split at hs
    · rename_i heq
      cases hs
      exact .inr ⟨by rw [heq], rfl⟩
    · exact .inl ⟨after, hs, .refl⟩
  | drop =>
    rw [Table.get?_erase] at hs
    split at hs
    · cases hs
    · exact .inl ⟨after, hs, .refl⟩
  | record | unrecord => cases hl

/-- What holds of an empty space and of all that a space fades to is kept by sparing moves. -/
theorem Coherent.each (h : Coherent m) (hmove : Move l m n) (hl : l.Sparing) (hempty : P {})
    (hfades : ∀ {sp after}, Space.Fades sp after → P sp → P after)
    (hm : m.machine.Each P) : n.machine.Each P := by
  intro id after hs
  rcases h.space_before hmove hl hs with ⟨sp, hold, hafter⟩ | ⟨-, rfl⟩
  · exact hfades hafter (hm id sp hold)
  · exact hempty

end

namespace Machine

variable {s t w : Machine} {id : SpaceId} {a : VirtualAddress} {sp after : Space}

/-- What an operation does to the records: they keep their numbers, and pages and records stay
together unless pages lose their record to a new mapping. -/
def Reckons (s t : Machine) (displaces : Bool) : Prop :=
  s.Numbered → t.Numbered ∧ (s.Recorded → (t.Recorded ↔ displaces = false))

theorem Reckons.of_kept (hnumbered : s.Numbered → t.Numbered)
    (hrecorded : s.Numbered → s.Recorded → t.Recorded) : Reckons s t false :=
  fun hn => ⟨hnumbered hn, fun hr => ⟨fun _ => rfl, fun _ => hrecorded hn hr⟩⟩

theorem Reckons.refl : Reckons s s false := .of_kept id fun _ h => h

theorem Reckons.of_moves {kinds : Label → Prop} (h : Coherent ⟨s, none⟩)
    (hmoves : Moves kinds ⟨s, none⟩ ⟨t, none⟩) (hl : ∀ l, kinds l → l.Sparing) :
    Reckons s t false := by
  apply Reckons.of_kept
  · intro hn
    exact h.preserves (P := fun m => m.machine.Numbered) hmoves (fun hkind hm hn hmove =>
      hm.each hmove (hl _ hkind) Space.numbered_empty Space.Fades.numbered hn) hn
  · intro _ hr
    exact h.preserves (P := fun m => m.machine.Recorded) hmoves (fun hkind hm hr hmove =>
      hm.each hmove (hl _ hkind) Space.recorded_empty Space.Fades.recorded hr) hr

/-- Spaces go as a whole. -/
theorem Reckons.erase (h : Reckons s w false) (ht : t.spaces = w.spaces.erase id) :
    Reckons s t false := by
  apply Reckons.of_kept
  · intro hn
    exact (h hn).1.erase ht
  · intro hn hr
    exact (((h hn).2 hr).2 rfl).erase ht

/-- Unmapping takes a record with the pages in its range that carry its number. -/
theorem munmap_unmaps (h : Coherent ⟨s, none⟩) (hn : s.Numbered) {r : Except PagerError Unit}
    (run : munmap id a s = .ok (r, t)) : ∃ sp, s.spaces.get? id = some sp ∧
      ((sp.mappings.get? a.value = none ∧ r = .error .notMapped ∧ t = s) ∨
        ∃ record after, sp.Unmaps a.value record after ∧
          t.spaces = s.spaces.insert id after) := by
  obtain ⟨-, sp, hs, hnone | ⟨record, addresses, pages, directory, hrecord, haddresses, ht, hpages⟩⟩ :=
    munmap_moves h run
  · exact ⟨sp, hs, .inl hnone⟩
  · refine ⟨sp, hs, .inr ⟨record, { sp with
      pages
      directory
      mappings := sp.mappings.erase a.value }, ⟨hrecord, rfl, rfl, fun key p => ?_⟩, ht⟩⟩
    rw [hpages]
    refine and_congr_right fun hp => not_congr (and_congr_right fun _ => ?_)
    have haligned := (hn id sp hs).aligned a.value record hrecord
    exact exists_address_iff haligned haddresses (h.linked.keyed ((pageAt_of_get? hs key).trans hp)).2

theorem munmap_reckons (h : Coherent ⟨s, none⟩) {r : Except PagerError Unit}
    (run : munmap id a s = .ok (r, t)) : Reckons s t false := by
  intro hn
  obtain ⟨sp, hs, ⟨-, -, rfl⟩ | ⟨record, after, hunmaps, ht⟩⟩ := munmap_unmaps h hn run
  · exact Reckons.refl hn
  · refine ⟨hn.insert ht (hunmaps.numbered (hn id sp hs)), fun hr => ⟨fun _ => rfl, fun _ => ?_⟩⟩
    exact hr.insert ht (hunmaps.recorded_after (hr id sp hs))

/-- A new mapping gets the next number, and pages and a record with that number. -/
theorem mmap_maps {length : Nat} {writable : Bool} {file : Handle} {offset : Nat}
    {r : Except PagerError VirtualAddress}
    (run : mmap id a length writable file offset s = .ok (r, t)) :
    (∃ e, r = .error e ∧ Moves (Label.Opens id) ⟨s, none⟩ ⟨t, none⟩) ∨
      r = .ok a ∧ ∃ sp count opened after, s.spaces.get? id = some sp ∧
        sp.Maps a.value count opened after ∧ t.spaces = s.spaces.insert id after := by
  rcases mmap_cases run with ⟨e, rfl, hfailed⟩ |
    ⟨rfl, sp, pages, table, hs, -, haligned, -, hpages, htable, ht, -⟩
  · exact .inl ⟨e, rfl, moves_of_failed hfailed⟩
  · have haligned : a.value % pageSize = 0 := by
      simpa [Address.isPageAligned, Address.pageOffset] using haligned
    refine .inr ⟨rfl, sp, _, _, _, hs, ⟨haligned, rfl, rfl, ?_, ?_⟩, ht⟩
    · intro key p hp
      exact (PageTable.get?_insertAll htable).2 (.inl hp)
    · intro key p hp
      rcases (PageTable.get?_insertAll htable).1 hp with hold | ⟨hmem, rfl⟩
      · exact .inl hold
      · obtain ⟨k, hk, rfl⟩ := (mem_pageRun_iff hpages).1 hmem
        have hkey : (a.value + k * pageSize) / pageSize * pageSize = a.value + k * pageSize := by
          unfold pageSize at *
          omega
        refine .inr ⟨rfl, ?_⟩
        show a.value ≤ (Address.pageBase _).value ∧ (Address.pageBase _).value < _
        rw [Address.pageBase_value, hkey]
        unfold pageSize at *
        omega

theorem mmap_reckons {length : Nat} {writable : Bool} {file : Handle} {offset : Nat}
    {q : Except PagerError VirtualAddress} (h : Coherent ⟨s, none⟩)
    (run : mmap id a length writable file offset s = .ok (q, t)) :
    Reckons s t ((SpaceOp.mmap length writable file offset).displaces s id a.value
      ((q.map Value.address).mapError .pager)) := by
  rcases mmap_maps run with ⟨e, rfl, hmoves⟩ | ⟨rfl, sp, count, opened, after, hs, hmaps, ht⟩
  · exact Reckons.of_moves h hmoves fun l hl => hl.sparing
  · intro hn
    have hnumbered := hn id sp hs
    refine ⟨hn.insert ht (hmaps.numbered hnumbered), fun hr => ?_⟩
    have hdisplaces : (SpaceOp.mmap length writable file offset).displaces s id a.value
        (((Except.ok a : Except PagerError _).map Value.address).mapError .pager) =
          sp.occupied a.value := by
      simp only [SpaceOp.displaces, Except.map, Except.mapError, hs]
    rw [hdisplaces, ← hmaps.recorded_iff hnumbered (hr id sp hs)]
    constructor
    · intro hafter
      refine hafter id after ?_
      rw [ht, Table.get?_insert_self]
    · exact hr.insert ht

theorem perform_reckons (h : Coherent ⟨s, none⟩) {op : SpaceOp} {r : Except Failure Value}
    (run : perform id a op s = .ok (r, t)) : Reckons s t (op.displaces s id a.value r) := by
  have hmoves := perform_moves h run
  cases op with
  | teardown =>
    obtain ⟨q, hq, -⟩ := liftPager_eq_ok.1 run
    exact Reckons.refl.erase (teardown_moves h hq).2.2
  | mmap length writable file offset =>
    rcases held_cases run with ⟨q, hq, rfl⟩ | ⟨rfl, rfl⟩
    · exact mmap_reckons h hq
    · exact Reckons.refl
  | munmap =>
    obtain ⟨q, hq, -⟩ := liftPager_eq_ok.1 run
    exact munmap_reckons h hq
  | duplicate refuses =>
    obtain ⟨q, hq, -⟩ := liftPager_eq_ok.1 run
    obtain ⟨w, hfound, ⟨-, rfl, -⟩ | ⟨-, -, ht, -⟩⟩ := duplicate_moves h hq
    · exact Reckons.of_moves h hfound fun l hl => hl.sparing
    · have hkept := Reckons.of_moves h hfound fun l hl => hl.sparing
      exact hkept.erase ht
  | registerAnonymous | register | registerSegment =>
    exact Reckons.of_moves h hmoves fun l hl => hl.sparing
  | remove => exact Reckons.of_moves h hmoves fun l ⟨_, hl⟩ => hl.sparing
  | claim => exact Reckons.of_moves h hmoves fun l hl => hl.sparing
  | pin => exact Reckons.of_moves h hmoves fun l hl => hl.elim Label.Claims.sparing Label.Pins.sparing
  | unpin => exact Reckons.of_moves h hmoves fun l hl => hl.sparing
  | lookup | count => exact Reckons.of_moves h hmoves fun l hl => hl.elim
  | setStackPointer | lock | refuseEntries => exact Reckons.of_moves h hmoves fun l hl => hl.sparing
  | copyFrom | copyTo => exact Reckons.of_moves h hmoves fun l hl => hl.sparing
  | fault =>
    exact Reckons.of_moves h hmoves fun l hl => hl.elim Label.Registers.sparing Label.Claims.sparing
  | touch =>
    refine Reckons.of_moves h hmoves ?_
    rintro l (rfl | rfl)
    · trivial
    · trivial

theorem step_reckons (h : Coherent ⟨s, none⟩) {op : Op} {r : Except Failure Value}
    (run : step op s = .ok (r, t)) : Reckons s t (op.displaces s r) := by
  have hmoves := step_moves h run
  cases op with
  | createSpace =>
    refine Reckons.of_moves h hmoves ?_
    rintro l (rfl | rfl)
    · trivial
    · trivial
  | onSpace id address op =>
    rcases onSpace_cases run with ⟨-, -, hrun⟩ | ⟨⟨reason, rfl⟩, ht⟩
    · exact perform_reckons h hrun
    · have hnot : (Op.onSpace id address op).displaces s (.error (.refused reason)) = false := by
        cases op <;> rfl
      rw [hnot, ht]
      exact Reckons.refl
  | unlock => exact Reckons.of_moves h hmoves fun l hl => hl.sparing
  | openFile | closeFile | writeFile | switchFile | switchDisk =>
    refine Reckons.of_moves h hmoves ?_
    rintro l rfl
    trivial

theorem run_numbered {ops : List Op} {results : List (Except Failure Value)}
    (h : Coherent ⟨s, none⟩) (hn : s.Numbered) (hrun : run ops s = .ok (results, t)) :
    t.Numbered := by
  exact run_keep h (fun _ _ {_ _ _} hu hnu hstep => (step_reckons hu hstep hnu).1) hn hrun

/-- A machine that was just started has no spaces. -/
theorem boot_each {frames sectors : Nat} {files : List Bytes} {P : Space → Prop}
    (hboot : boot frames sectors files = .ok s) : s.Each P := by
  intro id sp hs
  cases (boot_spaces hboot id).symm.trans hs

theorem Reachable.numbered (hr : Reachable s) : s.Numbered := by
  obtain ⟨frames, sectors, files, ops, start, results, hboot, hrun⟩ := hr
  exact run_numbered (boot_coherent hboot) (boot_each hboot) hrun

/-- Pages and records stay together on the whole way if and only if no record is displaced. -/
theorem run_recorded_iff {ops : List Op} {results : List (Except Failure Value)}
    (h : Coherent ⟨s, none⟩) (hn : s.Numbered) (hr : s.Recorded)
    (hrun : run ops s = .ok (results, t)) :
    (∀ u ∈ visited ops s, u.Recorded) ↔ displaced ops s = false := by
  induction ops generalizing s results with
  | nil => simp [visited, displaced]
  | cons op ops ih =>
    obtain ⟨r, u, rest, hstep, hrest, -⟩ := run_cons_eq_ok.1 hrun
    obtain ⟨hnu, hru⟩ := step_reckons h hstep hn
    have hfirst := hru hr
    rw [visited, displaced, hstep]
    dsimp only
    rw [List.forall_mem_cons, hfirst, Bool.or_eq_false_iff]
    refine and_congr_right fun hkept => ?_
    exact ih (h.moves (step_moves h hstep)) hnu (hfirst.2 hkept) hrest

end Machine
end Pager
