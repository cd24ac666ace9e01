import MuditaOS.Lib.Numeral
import MuditaOS.Lib.Search
import MuditaOS.Utils.Errno

/-!
# Block devices and their partitions

A transcription of `disk_handle.hpp` and of what `disk_manager.cpp` does with
device names and with reads, writes and erasures. Disks are numbered; a disk is
what the manager asks of it. Sectors and counts are unsigned numbers of 64 bits, a
`part_t` is a signed one of 16.
-/

namespace MuditaOS.Blkdev

open MuditaOS.Lib

structure Partition where
  physicalNumber : Int := 0
  mbrNumber : Int := -1
  startSector : UInt64 := 0
  numSectors : UInt64 := 0
  bootable : Bool := false
  bootUnit : UInt8 := 0
  type : UInt16 := 0
  name : List UInt8 := []
  deriving DecidableEq, Repr

structure Disk where
  partitions : List Partition
  /-- `get_info(sector_count, hwpart)`. -/
  sectorCount : Nat → Int

structure DiskHandle where
  disk : Nat
  partition : Int
  name : List UInt8
  deriving DecidableEq, Repr

structure DiskManager where
  /-- `m_dev_map`. -/
  devMap : List UInt8 → Option Nat
  /-- A disk that was unregistered is gone. -/
  disks : Nat → Option Disk

/-! ## Partition numbers -/

def hwPartitionFirst : Int := 16383

def toSyspartNum (part : Int) : Int := Int.bmod (part + hwPartitionFirst) (2 ^ 16)

def isAnyPartition (part : Int) : Bool := 0 ≤ part

def isSystemPartition (part : Int) : Bool := hwPartitionFirst ≤ part

def isUserPartition (part : Int) : Bool := isAnyPartition part && !isSystemPartition part

def DiskHandle.systemPartition (handle : DiskHandle) : Nat :=
  if hwPartitionFirst ≤ handle.partition then (handle.partition - hwPartitionFirst + 1).toNat
  else 0

/-! ## Device names -/

/-- `part`. -/
def partSuffix : List UInt8 := [0x70, 0x61, 0x72, 0x74]

/-- `sys`. -/
def syspartSuffix : List UInt8 := [0x73, 0x79, 0x73]

/-- The number behind a suffix of length `sl` at `si`. -/
def parsePartition (device : List UInt8) (si sl : Nat) (toPart : Int → Int) :
    List UInt8 × Int :=
  let partName := device.take si
  let partNum := device.drop (si + sl)
  if partNum = [] then (partName, -1)
  else
    match fromChars 16 partNum with
    | some partInum => (partName, toPart partInum)
    | none => ([], -1)

def parseDeviceName (device : List UInt8) : List UInt8 × Int :=
  match rfind partSuffix device none, rfind syspartSuffix device none with
  | some si, none => parsePartition device si partSuffix.length id
  | none, some si => parsePartition device si syspartSuffix.length toSyspartNum
  | _, _ => (device, -1)

variable (mgr : DiskManager)

def DiskManager.partitions (handle : DiskHandle) : List Partition :=
  match mgr.disks handle.disk with
  | some disk => disk.partitions
  | none => []

def DiskManager.deviceHandle (deviceName : List UInt8) : Option DiskHandle :=
  let (dev, part) := parseDeviceName deviceName
  if dev = [] then none
  else
    match mgr.devMap dev with
    | none => none
    | some disk =>
        let ret : DiskHandle := ⟨disk, part, deviceName⟩
        if isUserPartition part ∧ Int.bmod (mgr.partitions ret).length (2 ^ 32) ≤ part then none
        else some ret

/-- The check of the index compares unsigned numbers. -/
def DiskManager.partitionInfo (deviceName : List UInt8) : Option Partition :=
  (mgr.deviceHandle deviceName).bind fun dfd =>
    if isUserPartition dfd.partition then (mgr.partitions dfd)[dfd.partition.toNat]? else none

/-! ## Requests -/

/-- What becomes of a request. -/
inductive Outcome where
  | returns (err : Int)
  /-- The disk's own function is called. -/
  | forwarded (lba count : UInt64) (hwpart : Nat)
  /-- The table of partitions is indexed past its end. -/
  | undefined
  deriving DecidableEq, Repr

/-- An error number on its way out of the manager is narrowed to an `int`. -/
def narrow (x : Int) : Int := Int.bmod x (2 ^ 32)

/-- The sector on the disk, a `scount_t`; `none` where the table is indexed past its
end. -/
def partLbaToDiskLba (disk : Disk) (handle : DiskHandle) (partLba count : UInt64) :
    Option Int :=
  if isUserPartition handle.partition then
    match disk.partitions[handle.partition.toNat]? with
    | none => none
    | some part =>
        if part.numSectors < partLba + count then some (-ERANGE)
        else some (Int.bmod (partLba + part.startSector).toNat (2 ^ 64))
  else
    let sectors := disk.sectorCount handle.systemPartition
    if (if 0 < sectors then sectors else 0) < (partLba + count).toNat then some (-ERANGE)
    else some (Int.bmod partLba.toNat (2 ^ 64))

/-- What `write`, `read` and `erase` have in common, all of them but the function of
the disk that they call. -/
def DiskManager.request (dfd : Option DiskHandle) (lba count : UInt64) : Outcome :=
  match dfd with
  | none => .returns (-EINVAL)
  | some handle =>
      match mgr.disks handle.disk with
      | none => .returns (-ENOENT)
      | some disk =>
          match partLbaToDiskLba disk handle lba count with
          | none => .undefined
          | some calcLba =>
              if calcLba < 0 then .returns (narrow calcLba)
              else .forwarded (.ofInt calcLba) count handle.systemPartition

def DiskManager.write (dfd : Option DiskHandle) (lba count : UInt64) : Outcome :=
  mgr.request dfd lba count

def DiskManager.read (dfd : Option DiskHandle) (lba count : UInt64) : Outcome :=
  mgr.request dfd lba count

def DiskManager.erase (dfd : Option DiskHandle) (lba count : UInt64) : Outcome :=
  mgr.request dfd lba count

end MuditaOS.Blkdev
