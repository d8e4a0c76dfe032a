import Pager.Proofs.Accounting
import Pager.Proofs.Operations

/-!
What holds of every machine that operations can lead to. Pages, frames and
translations agree, and swap slots are neither lost nor shared; both are read off
the invariant of the moves, which a fresh machine has and every operation keeps.
-/
namespace Pager

/-- A fresh disk has no page on it. -/
theorem SwapTable.ofDisk_spec {sectors : Nat} {disk : Disk} (h : Disk.ofSize sectors = .ok disk) :
    (ofDisk disk).Sound ∧ ∀ n, (ofDisk disk).isUsed n = false := by
  unfold Disk.ofSize at h
  by_cases hcapacity : maxBufferSize < sectors * sectorSize
  · rw [if_pos hcapacity] at h
    cases h
  · rw [if_neg hcapacity] at h
    cases h
    refine ⟨sound_ofDisk fun bytes hbytes => ?_, isUsed_ofDisk _⟩
    rw [List.eq_of_mem_replicate hbytes, Bytes.length_zeros]

namespace Machine

variable {s : Machine}

/-- What a machine has when it was just started. -/
theorem boot_eq_ok {frames sectors : Nat} {files : List Bytes}
    (h : boot frames sectors files = .ok s) :
    ∃ pool disk, FramePool.ofSize frames = .ok pool ∧ Disk.ofSize sectors = .ok disk ∧
      s = { pool, swap := .ofDisk disk, files := .ofContents files,
            events := [.swapReady (SwapTable.ofDisk disk).capacity disk.size] } := by
  unfold boot at h
  obtain ⟨pool, hpool, h⟩ := except_bind_eq_ok.1 h
  obtain ⟨disk, hdisk, h⟩ := except_bind_eq_ok.1 h
  cases h
  exact ⟨pool, disk, hpool, hdisk, rfl⟩

theorem boot_spaces {frames sectors : Nat} {files : List Bytes}
    (h : boot frames sectors files = .ok s) : ∀ id, s.spaces.get? id = none := by
  obtain ⟨pool, disk, -, -, rfl⟩ := boot_eq_ok h
  exact fun _ => rfl

theorem boot_pages {frames sectors : Nat} {files : List Bytes}
    (h : boot frames sectors files = .ok s) (pl : Place) : Pager.pageAt s.spaces pl = none := by
  rw [Pager.pageAt, boot_spaces h, Option.bind_none]

/-- A machine that was just started has nothing that could disagree. -/
theorem boot_coherent {frames sectors : Nat} {files : List Bytes}
    (h : boot frames sectors files = .ok s) : Coherent ⟨s, none⟩ := by
  obtain ⟨pool, disk, hpool, hdisk, rfl⟩ := boot_eq_ok h
  obtain ⟨hpool, htaken⟩ := FramePool.ofSize_spec hpool
  obtain ⟨hswap, hused⟩ := SwapTable.ofDisk_spec hdisk
  refine ⟨hpool, FrameTable.sound_empty, hswap, ?_, ?_, ?_, ?_, fun _ _ => rfl⟩
  · refine ⟨?_, ?_, ?_, ?_, ?_, ?_⟩
    all_goals intro _ _; intros; contradiction
  · refine ⟨?_, ?_, fun {n} hn => ?_⟩
    · intro _ _ hf
      cases hf
    · intro _ _ _ _ hf
      cases hf
    · rw [htaken] at hn
      cases hn
  · refine ⟨fun n => ?_, ?_⟩
    · rw [hused]
      constructor
      · intro hn
        cases hn
      · rintro ⟨_, hslot⟩
        cases hslot
    · intro _ _ _ hslot
      cases hslot
  · intro _ _ hp
    cases hp

theorem Reachable.of_run {t : Machine} {ops : List Op} {results : List (Except Failure Value)}
    (h : Reachable s) (hrun : run ops s = .ok (results, t)) : Reachable t := by
  obtain ⟨frames, sectors, files, before, start, earlier, hboot, hbefore⟩ := h
  exact ⟨frames, sectors, files, _, start, _, hboot, run_append hbefore hrun⟩

theorem Reachable.of_step {t : Machine} {op : Op} {r : Except Failure Value} (h : Reachable s)
    (hstep : step op s = .ok (r, t)) : Reachable t :=
  have hlast : run [] t = .ok ([], t) := rfl
  h.of_run (run_cons_eq_ok.2 ⟨r, t, [], hstep, hlast, rfl⟩)

theorem Reachable.coherent (h : Reachable s) : Coherent ⟨s, none⟩ := by
  obtain ⟨frames, sectors, files, ops, start, results, hboot, hrun⟩ := h
  have hstart := boot_coherent hboot
  exact hstart.moves (run_moves hstart hrun)

end Machine
end Pager
