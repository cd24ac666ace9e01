import Mathlib.Data.UInt
import MuditaOS.Blkdev.DiskManager

/-!
# Requests stay inside their partition

The manager compares `lba + count`, a number of 64 bits, with the size of the
partition that the handle's index selects, and adds the start of the partition
afterwards. So a request goes astray in three ways: the table has become shorter
than the index; one of the two sums wraps around; or the sector on the disk,
taken for an error since it is negative as a `scount_t`, is zero as an `int`.
-/

namespace MuditaOS.Blkdev

variable {mgr : DiskManager} {disk : Disk} {handle : DiskHandle} {lba count : UInt64}
  {part : Partition}

/-- The sectors `[lba, lba + count)` lie in the partition. -/
def Partition.Covers (part : Partition) (lba count : UInt64) : Prop :=
  part.startSector.toNat ≤ lba.toNat ∧
    lba.toNat + count.toNat ≤ part.startSector.toNat + part.numSectors.toNat

/-- What is forwarded touches sectors of the partition only, and what is not is
answered by an error. -/
def Outcome.Confined (partitions : List Partition) (handle : DiskHandle) : Outcome → Prop
  | .returns err => err ≠ 0
  | .forwarded lba count _ =>
      ∃ part, partitions[handle.partition.toNat]? = some part ∧
        (count = 0 ∨ part.Covers lba count)
  | .undefined => False

/-- The sums of the request do not wrap around; where the sector on the disk is
negative as a `scount_t`, it is not zero as an `int`. -/
def Partition.Reaches (part : Partition) (lba count : UInt64) : Prop :=
  if 2 ^ 63 ≤ (lba + part.startSector).toNat then
    (lba + part.startSector).toNat % 2 ^ 32 ≠ 0
  else
    count = 0 ∨ lba.toNat + count.toNat < 2 ^ 64 ∧
      lba.toNat + part.startSector.toNat < 2 ^ 64

/-- The handle's partition is still in the table, and the request is refused for its
size or adds up. -/
def Sane (partitions : List Partition) (handle : DiskHandle) (lba count : UInt64) : Prop :=
  ∃ part, partitions[handle.partition.toNat]? = some part ∧
    (part.numSectors < lba + count ∨ part.Reaches lba count)

/-! ## The sector on the disk -/

theorem bmod_low {x : UInt64} (h : ¬ 2 ^ 63 ≤ x.toNat) : Int.bmod x.toNat (2 ^ 64) = x.toNat :=
  Int.bmod_eq_of_le (by omega) (by omega)

theorem bmod_high {x : UInt64} (h : 2 ^ 63 ≤ x.toNat) :
    Int.bmod x.toNat (2 ^ 64) = (x.toNat : Int) - 2 ^ 64 := by
  have hlt := x.toNat_lt
  rw [Int.bmod_def, Int.emod_eq_of_lt (by omega) (by omega), if_neg (by omega)]
  rfl

theorem ofInt_toNat {x : UInt64} : UInt64.ofInt x.toNat = x := by
  have hlt := x.toNat_lt
  rw [UInt64.ofInt, Int.emod_eq_of_lt (by omega) (by omega), Int.toNat_natCast,
    UInt64.ofNat_toNat]

/-- A user partition is not one of the hardware. -/
theorem systemPartition_of_user (huser : isUserPartition handle.partition = true) :
    handle.systemPartition = 0 := by
  rw [isUserPartition, isSystemPartition, Bool.and_eq_true, Bool.not_eq_true',
    decide_eq_false_iff_not] at huser
  rw [DiskHandle.systemPartition, if_neg huser.2]

theorem request_eq (hdisk : mgr.disks handle.disk = some disk)
    (huser : isUserPartition handle.partition = true)
    (hpart : disk.partitions[handle.partition.toNat]? = some part) :
    mgr.request (some handle) lba count =
      if part.numSectors < lba + count then .returns (-ERANGE)
      else if 2 ^ 63 ≤ (lba + part.startSector).toNat then
        .returns (narrow ((lba + part.startSector).toNat - 2 ^ 64))
      else .forwarded (lba + part.startSector) count 0 := by
  have hcalc : partLbaToDiskLba disk handle lba count =
      if part.numSectors < lba + count then some (-ERANGE)
      else some (Int.bmod (lba + part.startSector).toNat (2 ^ 64)) := by
    rw [partLbaToDiskLba, if_pos huser, hpart]
  rw [DiskManager.request]
  simp only [hdisk, hcalc, systemPartition_of_user huser]
  by_cases hover : part.numSectors < lba + count
  · rw [if_pos hover, if_pos hover]
    rfl
  · rw [if_neg hover, if_neg hover]
    dsimp only
    by_cases hhigh : 2 ^ 63 ≤ (lba + part.startSector).toNat
    · have hlt := (lba + part.startSector).toNat_lt
      rw [if_pos hhigh, bmod_high hhigh, if_pos (by omega)]
    · rw [if_neg hhigh, bmod_low hhigh, if_neg (by omega), ofInt_toNat]

/-! ## When a request is confined -/

/-- A sector number that is forwarded lies in the partition with all the sectors that
follow exactly where no sum wraps around. -/
theorem covers_iff (hsize : ¬ part.numSectors < lba + count) :
    part.Covers (lba + part.startSector) count ↔
      lba.toNat + count.toNat < 2 ^ 64 ∧ lba.toNat + part.startSector.toNat < 2 ^ 64 := by
  have hlba := lba.toNat_lt
  have hcount := count.toNat_lt
  have hstart := part.startSector.toNat_lt
  have hnum := part.numSectors.toNat_lt
  rw [UInt64.lt_iff_toNat_lt, UInt64.toNat_add] at hsize
  rw [Partition.Covers, UInt64.toNat_add]
  omega

theorem narrow_eq_zero {n : Nat} : narrow ((n : Int) - 2 ^ 64) = 0 ↔ n % 2 ^ 32 = 0 := by
  rw [narrow, Int.bmod_def]
  split <;> omega

theorem request_undefined (hdisk : mgr.disks handle.disk = some disk)
    (huser : isUserPartition handle.partition = true)
    (hpart : disk.partitions[handle.partition.toNat]? = none) :
    mgr.request (some handle) lba count = .undefined := by
  have hcalc : partLbaToDiskLba disk handle lba count = none := by
    rw [partLbaToDiskLba, if_pos huser, hpart]
  rw [DiskManager.request]
  simp only [hdisk, hcalc]

theorem request_confined_iff (hdisk : mgr.disks handle.disk = some disk)
    (huser : isUserPartition handle.partition = true) :
    (mgr.request (some handle) lba count).Confined disk.partitions handle ↔
      Sane disk.partitions handle lba count := by
  cases hpart : disk.partitions[handle.partition.toNat]? with
  | none =>
      rw [request_undefined hdisk huser hpart, Sane, hpart]
      exact iff_of_false id (by simp)
  | some part =>
      rw [request_eq hdisk huser hpart, Sane, hpart]
      simp only [Option.some.injEq, exists_eq_left']
      by_cases hsize : part.numSectors < lba + count
      · rw [if_pos hsize]
        exact iff_of_true (by change (-34 : Int) ≠ 0; decide) (.inl hsize)
      · rw [if_neg hsize, or_iff_right hsize, Partition.Reaches]
        split
        · exact not_congr narrow_eq_zero
        · rw [Outcome.Confined, hpart]
          simp only [Option.some.injEq, exists_eq_left']
          rw [covers_iff hsize]

/-- Writes, reads and erasures on a user partition touch sectors of the partition
only, or are refused, exactly when they are sane, whatever has become of the table
since the handle was obtained. -/
theorem confined_iff (huser : isUserPartition handle.partition = true) :
    ((mgr.write (some handle) lba count).Confined (mgr.partitions handle) handle ∧
      (mgr.read (some handle) lba count).Confined (mgr.partitions handle) handle ∧
      (mgr.erase (some handle) lba count).Confined (mgr.partitions handle) handle) ↔
      mgr.disks handle.disk = none ∨ Sane (mgr.partitions handle) handle lba count := by
  change ((mgr.request (some handle) lba count).Confined _ handle ∧
    (mgr.request (some handle) lba count).Confined _ handle ∧
    (mgr.request (some handle) lba count).Confined _ handle) ↔ _
  rw [and_self_iff, and_self_iff]
  cases hdisk : mgr.disks handle.disk with
  | none =>
      have hrequest : mgr.request (some handle) lba count = .returns (-ENOENT) := by
        rw [DiskManager.request]
        simp only [hdisk]
      rw [hrequest]
      exact iff_of_true (by change (-2 : Int) ≠ 0; decide) (.inl rfl)
  | some disk =>
      have hparts : mgr.partitions handle = disk.partitions := by
        rw [DiskManager.partitions, hdisk]
      rw [hparts, request_confined_iff hdisk huser, or_iff_right (by simp)]

/-- `emmc0` is the only disk. -/
def oneDisk (table : List Partition) : DiskManager where
  devMap := fun name => if name = [0x65, 0x6D, 0x6D, 0x63, 0x30] then some 0 else none
  disks := fun _ => some ⟨table, fun _ => 4096⟩

/-- The first hundred sectors of a partition of that size. -/
theorem confined_iff_whole :
    ((oneDisk [{ startSector := 2048, numSectors := 100 }]).write
        (some ⟨0, 0, []⟩) 0 100).Confined [{ startSector := 2048, numSectors := 100 }]
      ⟨0, 0, []⟩ := by
  have hiff := @confined_iff (oneDisk [{ startSector := 2048, numSectors := 100 }])
    ⟨0, 0, []⟩ 0 100 rfl
  exact (hiff.2 (.inr ⟨_, rfl, .inr (.inr (by decide))⟩)).1

/-- From the last sector number on, two sectors: the partition's handle writes in
front of it. -/
theorem wrapped_write :
    (oneDisk [{ startSector := 2048, numSectors := 100 }]).deviceHandle
        [0x65, 0x6D, 0x6D, 0x63, 0x30, 0x70, 0x61, 0x72, 0x74, 0x30] =
      some ⟨0, 0, [0x65, 0x6D, 0x6D, 0x63, 0x30, 0x70, 0x61, 0x72, 0x74, 0x30]⟩ ∧
    ¬ ((oneDisk [{ startSector := 2048, numSectors := 100 }]).write
        (some ⟨0, 0, [0x65, 0x6D, 0x6D, 0x63, 0x30, 0x70, 0x61, 0x72, 0x74, 0x30]⟩)
        0xFFFFFFFFFFFFFFFF 2).Confined [{ startSector := 2048, numSectors := 100 }]
      ⟨0, 0, [0x65, 0x6D, 0x6D, 0x63, 0x30, 0x70, 0x61, 0x72, 0x74, 0x30]⟩ := by
  refine ⟨by decide, ?_⟩
  have hwrite : (oneDisk [{ startSector := 2048, numSectors := 100 }]).write
      (some ⟨0, 0, [0x65, 0x6D, 0x6D, 0x63, 0x30, 0x70, 0x61, 0x72, 0x74, 0x30]⟩)
      0xFFFFFFFFFFFFFFFF 2 = .forwarded 2047 2 0 := by
    rw [DiskManager.write, request_eq rfl rfl rfl, if_neg (by decide), if_neg (by decide)]
    rfl
  rw [hwrite]
  intro ⟨part, hpart, hcovers⟩
  obtain rfl : _ = part := Option.some.inj hpart
  rcases hcovers with hzero | hcovers
  · exact absurd hzero (by decide)
  · exact absurd hcovers.1 (by decide)

end MuditaOS.Blkdev
