import MuditaOS.Blkdev.DiskManager
import MuditaOS.Lib.Run
import Mathlib.Logic.Function.Basic

/-!
# Scanning a disk for partitions

A transcription of `partition_parser.cpp`. The arithmetic on sizes is that of 64 bits,
signed or not, down to the conversions to `unsigned long`, the width of which depends on
the platform. The loop of `parse_extended` has no bound of its own: it is run for some
number of rounds, and returns nothing as long as it goes on.
-/

namespace MuditaOS.Blkdev

open MuditaOS.Lib

/-- A buffer with a sector in it. -/
abbrev Sector := Nat → UInt8

/-- The parser with its disk. -/
structure PartitionParser where
  sectorSize : Int
  sectorCount : Int
  /-- What `read` of one sector returns, and leaves in the buffer. -/
  read : UInt64 → Int × Sector
  /-- The width of `unsigned long`. -/
  ulongBits : Nat

/-! ## Records -/

def mbrSignatureOffs : Nat := 0x1FE

def mbrPtblActive : Nat := 0x000

def mbrPtblType : Nat := 0x004

def mbrPtblSectCnt : Nat := 0x00C

def mbrPtblLba : Nat := 0x008

def ptblOffs : Nat := 0x1BE

def ptblSize : Nat := 16

def extPart : UInt8 := 0x05

def extLinuxPart : UInt8 := 0x85

def extWin98Part : UInt8 := 0x0F

def numParts : Nat := 4

def minSectorSize : Int := 512

def toWord (buf : Sector) (offs : Nat) : UInt32 :=
  (buf offs).toUInt32 ||| (buf (offs + 1)).toUInt32 <<< 8 |||
    (buf (offs + 2)).toUInt32 <<< 16 ||| (buf (offs + 3)).toUInt32 <<< 24

def isExtended (type : UInt8) : Bool :=
  type = extLinuxPart || type = extPart || type = extWin98Part

def readPartition (buffer : Sector) (offs : Nat) : Partition where
  bootable := buffer (mbrPtblActive + offs) &&& 0x80 ≠ 0
  bootUnit := buffer (mbrPtblActive + offs) &&& 0x7F
  type := (buffer (mbrPtblType + offs)).toUInt16
  numSectors := (toWord buffer (mbrPtblSectCnt + offs)).toUInt64
  startSector := (toWord buffer (mbrPtblLba + offs)).toUInt64

def readPartitions (buffer : Sector) : List Partition :=
  (List.range numParts).map fun i => readPartition buffer (ptblOffs + ptblSize * i)

namespace PartitionParser

variable (parser : PartitionParser)

/-- The size of a sector as a factor of unsigned products. -/
def size64 : UInt64 := .ofInt parser.sectorSize

def toULong (x : UInt64) : UInt64 := .ofNat (x.toNat % 2 ^ parser.ulongBits)

def checkPartition (part : Partition) : Bool :=
  let thisSize := .ofInt parser.sectorCount * parser.size64
  let poffset := part.startSector * parser.size64
  let psize := part.numSectors * parser.size64
  let pnext := part.startSector * parser.size64 + poffset
  !(thisSize < poffset + psize || pnext < part.startSector * parser.size64)

/-! ## The extended chain -/

def maxParts : Nat := 100

structure Walk where
  tryCount : Nat := maxParts
  currentSector : UInt32
  thisSize : UInt64
  sectorInBuf : UInt32 := 0xFFFFFFFF
  sectBuf : Sector := fun _ => 0
  error : Int := 0
  /-- `m_parts`. -/
  parts : List Partition
  /-- The loop was left with a `break`. -/
  left : Bool := false

/-- What the loop over the entries of a record sets. -/
structure Entries where
  extendedPartNum : Option Nat
  parts : List Partition
  tryCount : Nat

variable (lba count : UInt32)

/-- The sanity checks on an entry. -/
def looksStrange (currentSector : UInt32) (thisSize : UInt64) (part : Partition) : Bool :=
  let poffset := part.startSector * parser.size64
  let psize := part.numSectors * parser.size64
  let pnext := currentSector.toUInt64 * parser.size64 + poffset
  thisSize < poffset + psize ||
    pnext < parser.toULong (lba.toUInt64 * parser.size64) ||
    parser.toULong ((lba + count).toUInt64 * parser.size64) < pnext

def examineEntry (currentSector : UInt32) (thisSize : UInt64) (entries : Entries) :
    Partition × Nat → Entries
  | (part, partitionNum) =>
      if part.numSectors = 0 then entries
      else if isExtended part.type.toUInt8 then
        { entries with extendedPartNum := entries.extendedPartNum.or (some partitionNum) }
      else if parser.looksStrange lba count currentSector thisSize part then entries
      else
        { entries with
          parts := entries.parts ++ [{ part with
            physicalNumber := partitionNum + 1
            startSector := part.startSector + currentSector.toUInt64 }]
          tryCount := maxParts }

/-- The sector is read unless it is in the buffer. -/
def load (w : Walk) : Walk :=
  if w.sectorInBuf ≠ w.currentSector then
    let (error, sectBuf) := parser.read w.currentSector.toUInt64
    if error < 0 then { w with error, left := true }
    else { w with error, sectBuf, sectorInBuf := w.currentSector }
  else w

def hasSignature (buf : Sector) : Bool :=
  buf mbrSignatureOffs = 0x55 && buf (mbrSignatureOffs + 1) = 0xAA

/-- The record in the buffer. -/
def examine (w : Walk) : Walk :=
  if !hasSignature w.sectBuf then { w with left := true }
  else
    let parts := readPartitions w.sectBuf
    let entries := parts.zipIdx.foldl
      (parser.examineEntry lba count w.currentSector w.thisSize) ⟨none, w.parts, w.tryCount⟩
    let w := { w with parts := entries.parts, tryCount := entries.tryCount }
    match entries.extendedPartNum.bind (parts[·]?) with
    | none => { w with left := true }
    | some link =>
        { w with
          currentSector := (lba.toUInt64 + link.startSector).toUInt32
          thisSize := parser.toULong (link.numSectors * parser.size64) }

/-- One round of the loop. -/
def round (w : Walk) : Option Walk :=
  if w.left || w.tryCount = 0 then none
  else
    let w := parser.load { w with tryCount := w.tryCount - 1 }
    if w.left then some w else some (parser.examine lba count w)

def startWalk (parts : List Partition) : Walk where
  currentSector := lba
  thisSize := parser.toULong (count.toUInt64 * parser.size64)
  parts := parts

/-- `parse_extended`, run for some rounds. -/
def parseExtended (rounds : Nat) (parts : List Partition) : Option Int × List Partition :=
  if parser.sectorSize < 0 then (some (narrow parser.sectorSize), parts)
  else
    let w := runFor (parser.round lba count) rounds (parser.startWalk lba count parts)
    (if (parser.round lba count w).isNone then some w.error else none, w.parts)

/-! ## The whole disk -/

/-- The next partition number and the partitions so far. -/
def addPrimary (found : Int × List Partition) (part : Partition) : Int × List Partition :=
  let (partNo, parts) := found
  if isExtended part.type.toUInt8 then (partNo, parts)
  else if !parser.checkPartition part then (partNo, parts)
  else if part.numSectors ≠ 0 then
    (partNo + 1, parts ++ [{ part with physicalNumber := partNo, mbrNumber := partNo }])
  else (partNo + 1, parts)

def searchExtended (rounds : Nat) :
    List Partition → Int → List Partition → Option Int × List Partition
  | [], ret, parts => (some ret, parts)
  | part :: rest, ret, parts =>
      if isExtended part.type.toUInt8 then
        match parser.parseExtended part.startSector.toUInt32 part.numSectors.toUInt32
          rounds parts with
        | (none, parts) => (none, parts)
        | (some ret, parts) =>
            if ret < 0 then (some ret, parts) else searchExtended rounds rest ret parts
      else searchExtended rounds rest ret parts

/-- `partition_search` on an empty table, each extended partition for some rounds. -/
def partitionSearch (rounds : Nat) : Option Int × List Partition :=
  if parser.sectorSize < 0 then (some (narrow parser.sectorSize), [])
  else
    let (ret, mbrSect) := parser.read 0
    if ret < 0 then (some ret, [])
    else if parser.sectorSize < minSectorSize then (some (- ENXIO), [])
    else if mbrSect mbrSignatureOffs ≠ 0x55 ∧ mbrSect (mbrSignatureOffs + 1) ≠ 0xAA then
      (some (- ENXIO), [])
    else
      let rootPart := readPartitions mbrSect
      let (_, parts) := rootPart.foldl parser.addPrimary (1, [])
      parser.searchExtended rounds rootPart ret parts

end PartitionParser

end MuditaOS.Blkdev

/-! ## Registering a disk

A transcription of `register_device` and `reread_partitions` of `disk_manager.cpp`. What
the disk answers to `probe` and to the scan comes in with the call, and the scan is run
for some rounds of each extended partition, as in `PartitionParser`.
-/

namespace MuditaOS.Blkdev

open MuditaOS.Lib

/-- `flags::no_parts_scan`. -/
def noPartsScan : UInt32 := 1

variable (mgr : DiskManager)

def DiskManager.setPartitions (disk : Nat) (parts : List Partition) : DiskManager :=
  { mgr with
    disks := Function.update mgr.disks disk
      ((mgr.disks disk).map fun d => { d with partitions := parts }) }

/-- The names of partitions, each with its index behind the suffix. -/
def namedPartitions (name : List UInt8) (parts : List Partition) : List Partition :=
  parts.zipIdx.map fun (part, no) =>
    { part with name := name ++ partSuffix ++ decimal asciiDigit no }

/-- Nothing is returned as long as the scan goes on. -/
def DiskManager.rereadPartitions (dfd : Option DiskHandle) (parser : PartitionParser)
    (rounds : Nat) : Option Int × DiskManager :=
  match dfd with
  | none => (some (-EINVAL), mgr)
  | some handle =>
      match mgr.disks handle.disk with
      | none => (some 0, mgr)
      | some _ =>
          let (ret, parts) := parser.partitionSearch rounds
          (ret, mgr.setPartitions handle.disk
            (if ret = some 0 then namedPartitions handle.name parts else parts))

def DiskManager.registerDevice (disk : Option Nat) (deviceName : List UInt8) (flags : UInt32)
    (probe : Int) (parser : PartitionParser) (rounds : Nat) : Option Int × DiskManager :=
  match disk with
  | none => (some (-EINVAL), mgr)
  | some disk =>
      if (mgr.devMap deviceName).isSome then (some (-EEXIST), mgr)
      else if probe < 0 then (some probe, mgr)
      else
        let mgr := { mgr with devMap := Function.update mgr.devMap deviceName (some disk) }
        if flags &&& noPartsScan ≠ 0 then (some 0, mgr.setPartitions disk [])
        else mgr.rereadPartitions (some ⟨disk, -1, deviceName⟩) parser rounds

end MuditaOS.Blkdev
