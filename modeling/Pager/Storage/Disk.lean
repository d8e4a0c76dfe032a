import Pager.Bug
import Pager.Bytes
import Pager.Error
import Pager.Layout

/-!
The swap disk: sectors of `sectorSize` bytes, a count of the sectors written,
and switches that make requests fail, all of them or those to chosen sectors. A
write that fails changes nothing.
-/
namespace Pager

structure Disk where
  sectors : List Bytes
  writes : Nat := 0
  failWrites : Bool := false
  /-- The sectors whose reads fail. -/
  badRead : Nat → Bool := fun _ => false
  /-- The sectors whose writes fail. -/
  badWrite : Nat → Bool := fun _ => false

/-- Switches to be thrown on a disk; those that are absent stay as they are. -/
structure DiskSwitches where
  failWrites : Option Bool := none
  badRead : Option (Nat → Bool) := none
  badWrite : Option (Nat → Bool) := none

namespace Disk

/-- A zeroed disk. -/
def ofSize (sectors : Nat) : Except Bug Disk :=
  if maxBufferSize < sectors * sectorSize then .error .capacity
  else .ok { sectors := List.replicate sectors (.zeros sectorSize) }

def size (disk : Disk) : Nat := disk.sectors.length

def read (disk : Disk) (sector : Nat) : Except StoreError Bytes :=
  if disk.badRead sector then .error .device
  else match disk.sectors[sector]? with
    | none => .error .device
    | some bytes => .ok bytes

def write (disk : Disk) (sector : Nat) (bytes : Bytes) : Except StoreError Disk :=
  if disk.badWrite sector ∨ disk.failWrites ∨ disk.size ≤ sector then .error .device
  else .ok { disk with sectors := disk.sectors.set sector bytes, writes := disk.writes + 1 }

/-- Writes consecutive sectors from `first` on, up to the first that fails. -/
def writeRun (disk : Disk) (first : Nat) : List Bytes → Disk × Except StoreError Unit
  | [] => (disk, .ok ())
  | bytes :: rest =>
    match disk.write first bytes with
    | .error e => (disk, .error e)
    | .ok written => written.writeRun (first + 1) rest

/-- Reads `count` consecutive sectors from `first` on, up to the first that fails. -/
def readRun (disk : Disk) (first : Nat) : Nat → Bytes × Except StoreError Unit
  | 0 => ([], .ok ())
  | count + 1 =>
    match disk.read first with
    | .error e => ([], .error e)
    | .ok bytes =>
      let (rest, result) := disk.readRun (first + 1) count
      (bytes ++ rest, result)

def switch (disk : Disk) (switches : DiskSwitches) : Disk :=
  { disk with
    failWrites := switches.failWrites.getD disk.failWrites
    badRead := switches.badRead.getD disk.badRead
    badWrite := switches.badWrite.getD disk.badWrite }

theorem size_write {disk next : Disk} {sector : Nat} {bytes : Bytes}
    (h : disk.write sector bytes = .ok next) : next.size = disk.size := by
  unfold write at h
  split at h
  · simp at h
  · cases h
    simp [size]

/-- A sector that was written reads back, if its reads do not fail; others are unchanged. -/
theorem read_write {disk next : Disk} {sector : Nat} {bytes : Bytes}
    (h : disk.write sector bytes = .ok next) (other : Nat) :
    next.read other =
      if other = sector ∧ disk.badRead sector = false then .ok bytes else disk.read other := by
  unfold write at h
  split at h
  · simp at h
  · rename_i hw
    have hlt : sector < disk.sectors.length := Nat.lt_of_not_le fun hle => hw (.inr (.inr hle))
    cases h
    unfold read
    by_cases he : other = sector
    · subst he
      cases hb : disk.badRead other <;> simp [hlt]
    · simp [he, Ne.symm he]

end Disk
end Pager
