import MuditaOS.Proofs.PartitionScan
import MuditaOS.Blkdev.PartitionParser

/-!
# Whether all partitions found are on the disk

The boot record is taken for one if either byte of its signature is right. An entry of
an extended chain is checked against the size that the link to its record gave and, as
for its first sector, against the outer extended partition; nothing checks the link, nor
the outer extended partition itself. So what is added lies where it should exactly if
the fields on the disk see to it.
-/

/-! ## The checks on partition entries

In sectors of less than two gigabytes nothing in the checks overflows 64 bits, so what
they compare are the sizes in bytes: exact ones on the side of the entry, and ones cut to
the width of `unsigned long` on the other.
-/

namespace MuditaOS.Blkdev.PartitionParser

variable {parser : PartitionParser} {lba count currentSector : UInt32} {thisSize : UInt64}
  {part : Partition} {buf : Sector}

/-- The fields of an entry have 32 bits. -/
structure Words (part : Partition) : Prop where
  start : part.startSector.toNat < 2 ^ 32
  num : part.numSectors.toNat < 2 ^ 32

theorem words_readPartitions (h : part ∈ readPartitions buf) : Words part := by
  obtain ⟨i, -, rfl⟩ := List.mem_map.1 h
  exact ⟨UInt32.toNat_lt _, UInt32.toNat_lt _⟩

theorem Words.toUInt32 (h : Words part) :
    part.startSector.toUInt32.toNat = part.startSector.toNat ∧
      part.numSectors.toUInt32.toNat = part.numSectors.toNat := by
  rw [UInt64.toNat_toUInt32, UInt64.toNat_toUInt32, Nat.mod_eq_of_lt h.start,
    Nat.mod_eq_of_lt h.num]
  exact ⟨rfl, rfl⟩

/-- The size of a sector is no less than the least one, and less than `2 ^ 31`. -/
structure Sized (parser : PartitionParser) : Prop where
  least : minSectorSize ≤ parser.sectorSize
  most : parser.sectorSize < 2 ^ 31

theorem Sized.toNat (h : Sized parser) :
    parser.size64.toNat = parser.sectorSize.toNat ∧ parser.sectorSize.toNat < 2 ^ 31 := by
  have hleast := h.least
  have hmost := h.most
  rw [minSectorSize] at hleast
  refine ⟨?_, by omega⟩
  rw [size64, UInt64.ofInt, UInt64.toNat_ofNat']
  omega

theorem toNat_toULong {x : UInt64} :
    (parser.toULong x).toNat = x.toNat % 2 ^ parser.ulongBits := by
  rw [toULong, UInt64.toNat_ofNat']
  exact Nat.mod_eq_of_lt (lt_of_le_of_lt (Nat.mod_le _ _) x.toNat_lt)

theorem bytes_lt {a b : Nat} (ha : a < 2 ^ 33) (hb : b < 2 ^ 31) : a * b < 2 ^ 64 :=
  calc a * b < 2 ^ 33 * 2 ^ 31 := Nat.mul_lt_mul'' ha hb
    _ = 2 ^ 64 := by norm_num

/-- The bytes of some sectors, as the code multiplies them. -/
theorem toNat_mul_size {x : UInt64} (hsized : Sized parser) (hx : x.toNat < 2 ^ 33) :
    (x * parser.size64).toNat = x.toNat * parser.sectorSize.toNat := by
  obtain ⟨hsize, hlt⟩ := hsized.toNat
  rw [UInt64.toNat_mul, hsize, Nat.mod_eq_of_lt (bytes_lt hx hlt)]

theorem toNat_sectors {x : UInt32} (hsized : Sized parser) :
    (x.toUInt64 * parser.size64).toNat = x.toNat * parser.sectorSize.toNat := by
  have hx := x.toNat_lt
  rw [toNat_mul_size hsized (by rw [UInt32.toNat_toUInt64]; omega), UInt32.toNat_toUInt64]

/-- `check_partition` compares the end of the entry with that of the disk. -/
theorem checkPartition_iff (hsized : Sized parser) (hwords : Words part) :
    parser.checkPartition part = true ↔
      (part.startSector.toNat + part.numSectors.toNat) * parser.sectorSize.toNat ≤
        (UInt64.ofInt parser.sectorCount * parser.size64).toNat := by
  obtain ⟨hsize, hlt⟩ := hsized.toNat
  have hstart := hwords.start
  have hnum := hwords.num
  have hend : (part.startSector.toNat + part.numSectors.toNat) * parser.sectorSize.toNat <
      2 ^ 64 := bytes_lt (by omega) hlt
  have htwice : (part.startSector.toNat + part.startSector.toNat) * parser.sectorSize.toNat <
      2 ^ 64 := bytes_lt (by omega) hlt
  have hback : ¬ part.startSector * parser.size64 + part.startSector * parser.size64 <
      part.startSector * parser.size64 := by
    rw [UInt64.lt_iff_toNat_lt, UInt64.toNat_add, toNat_mul_size hsized (by omega), ← Nat.add_mul,
      Nat.mod_eq_of_lt htwice, Nat.add_mul]
    omega
  rw [checkPartition, decide_eq_false hback, Bool.or_false, Bool.not_eq_true',
    decide_eq_false_iff_not, UInt64.lt_iff_toNat_lt, not_lt, UInt64.toNat_add,
    toNat_mul_size hsized (by omega),
    toNat_mul_size hsized (by omega), ← Nat.add_mul, Nat.mod_eq_of_lt hend]

/-- The sanity checks compare the end of the entry with the size that the link gave, and
its begin on the disk with both ends of the outer extended partition. -/
theorem looksStrange_iff (hsized : Sized parser) (hwords : Words part) :
    parser.looksStrange lba count currentSector thisSize part = false ↔
      (part.startSector.toNat + part.numSectors.toNat) * parser.sectorSize.toNat ≤
        thisSize.toNat ∧
      lba.toNat * parser.sectorSize.toNat % 2 ^ parser.ulongBits ≤
        (currentSector.toNat + part.startSector.toNat) * parser.sectorSize.toNat ∧
      (currentSector.toNat + part.startSector.toNat) * parser.sectorSize.toNat ≤
        (lba.toNat + count.toNat) % 2 ^ 32 * parser.sectorSize.toNat % 2 ^ parser.ulongBits := by
  obtain ⟨hsize, hlt⟩ := hsized.toNat
  have hstart := hwords.start
  have hnum := hwords.num
  have hcurrent := currentSector.toNat_lt
  have hend : (part.startSector.toNat + part.numSectors.toNat) * parser.sectorSize.toNat <
      2 ^ 64 := bytes_lt (by omega) hlt
  have hnext : (currentSector.toNat + part.startSector.toNat) * parser.sectorSize.toNat <
      2 ^ 64 := bytes_lt (by omega) hlt
  have hpnext : (currentSector.toUInt64 * parser.size64 +
      part.startSector * parser.size64).toNat =
        (currentSector.toNat + part.startSector.toNat) * parser.sectorSize.toNat := by
    rw [UInt64.toNat_add, toNat_sectors hsized, toNat_mul_size hsized (by omega),
      ← Nat.add_mul, Nat.mod_eq_of_lt hnext]
  rw [looksStrange, Bool.or_eq_false_iff, Bool.or_eq_false_iff, decide_eq_false_iff_not,
    decide_eq_false_iff_not, decide_eq_false_iff_not, UInt64.lt_iff_toNat_lt, not_lt,
    UInt64.lt_iff_toNat_lt, not_lt, UInt64.lt_iff_toNat_lt, not_lt, hpnext, toNat_toULong,
    toNat_toULong, UInt64.toNat_add, toNat_mul_size hsized (by omega),
    toNat_mul_size hsized (by omega), ← Nat.add_mul, Nat.mod_eq_of_lt hend,
    toNat_sectors hsized, toNat_sectors hsized, UInt32.toNat_add, and_assoc]

end MuditaOS.Blkdev.PartitionParser

namespace MuditaOS.Blkdev.PartitionParser

open MuditaOS.Lib

section

variable (parser : PartitionParser)

end

variable {parser : PartitionParser} {lba count : UInt32} {key : Key} {rounds : Nat}
  {root part : Partition} {entry : Partition × Nat}

theorem words_accepted (h : entry ∈ parser.accepted lba count key) : Words entry.1 := by
  obtain ⟨buf, -, hentry, -⟩ := mem_accepted.1 h
  exact words_readPartitions (List.fst_mem_of_mem_zipIdx hentry)

theorem toNat_addedPart (h : Words entry.1) :
    (addedPart key entry).startSector.toNat = key.sector.toNat + entry.1.startSector.toNat := by
  have hstart := h.start
  have hsector := key.sector.toNat_lt
  rw [addedPart, UInt64.toNat_add, UInt32.toNat_toUInt64, Nat.add_comm]
  omega

end MuditaOS.Blkdev.PartitionParser
