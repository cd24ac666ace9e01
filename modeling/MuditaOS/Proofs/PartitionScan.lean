import MuditaOS.Proofs.ExtendedChain

/-!
# What a scan adds

The partitions that `partition_search` adds are the entries of the boot record that
`check_partition` lets pass, and behind them those of the chains of the extended
entries, as far as the scan comes to these.
-/

namespace MuditaOS.Blkdev.PartitionParser

open MuditaOS.Lib

/-- Some element is as wanted, and all in front of it let the search go on. -/
def Behind {α : Type} (Q P : α → Prop) : List α → Prop
  | [] => False
  | a :: l => P a ∨ Q a ∧ Behind Q P l

section

variable (parser : PartitionParser)

/-- The entries of the boot record. -/
def rootPart : List Partition := readPartitions (parser.read 0).2

def InDisk (part : Partition) : Prop :=
  ((part.startSector.toNat + part.numSectors.toNat : Nat) : Int) ≤ parser.sectorCount

instance {part : Partition} : Decidable (parser.InDisk part) :=
  inferInstanceAs (Decidable (_ ≤ _))

/-- The boot sector is read, and its check does not fail. -/
def BootPasses : Prop :=
  0 ≤ (parser.read 0).1 ∧
    ¬ ((parser.read 0).2 mbrSignatureOffs ≠ 0x55 ∧
      (parser.read 0).2 (mbrSignatureOffs + 1) ≠ 0xAA)

def primaries : List Partition := (parser.rootPart.foldl parser.addPrimary (1, [])).2

/-- `parse_extended` of an entry, on an empty table. -/
def logicals (rounds : Nat) (root : Partition) : Option Int × List Partition :=
  parser.parseExtended root.startSector.toUInt32 root.numSectors.toUInt32 rounds []

/-- The chain of an entry ends, with what the last read of it returned. -/
def ChainEnds (root : Partition) (ret : Int) : Prop :=
  ∃ n, (∀ m < n, parser.Scans root.startSector.toUInt32 root.numSectors.toUInt32 m) ∧
    ¬ parser.Scans root.startSector.toUInt32 root.numSectors.toUInt32 n ∧
    parser.errorBefore root.startSector.toUInt32 root.numSectors.toUInt32 n = ret

/-- A record of the chain of an entry, as far as the scan goes along it. -/
def RecordOf (root : Partition) (key : Key) : Prop :=
  ∃ n, parser.Scans root.startSector.toUInt32 root.numSectors.toUInt32 n ∧
    parser.chain root.startSector.toUInt32 root.numSectors.toUInt32 n = some key

/-- The same, after some rounds of the chain. -/
def GoneOn (rounds : Nat) (root : Partition) : Prop :=
  isExtended root.type.toUInt8 = true →
    ∃ ret, 0 ≤ ret ∧ (parser.logicals rounds root).1 = some ret

def Scanned (rounds : Nat) (root : Partition) : Prop :=
  Behind (parser.GoneOn rounds) (· = root) parser.rootPart ∧
    isExtended root.type.toUInt8 = true

end

variable {parser : PartitionParser} {lba count : UInt32} {rounds rounds' n m : Nat}
  {parts roots : List Partition} {root part : Partition} {ret : Int}

theorem sectorSize_nonneg (h : minSectorSize ≤ parser.sectorSize) : 0 ≤ parser.sectorSize :=
  (by norm_num [minSectorSize] : 0 ≤ minSectorSize).trans h

/-! ## The chains -/

theorem rounds_unique (hn : n ≤ rounds) (hscans : ∀ k < n, parser.Scans lba count k)
    (hend : n = rounds ∨ ¬ parser.Scans lba count n) (hm : m ≤ rounds)
    (hscans' : ∀ k < m, parser.Scans lba count k)
    (hend' : m = rounds ∨ ¬ parser.Scans lba count m) : n = m := by
  rcases Nat.lt_trichotomy n m with hlt | heq | hlt
  · rcases hend with rfl | hend
    · omega
    · exact absurd (hscans' n hlt) hend
  · exact heq
  · rcases hend' with rfl | hend'
    · omega
    · exact absurd (hscans m hlt) hend'

/-- What is in the table already has no part in the scan of a chain. -/
theorem parseExtended_append (hsize : 0 ≤ parser.sectorSize) :
    parser.parseExtended lba count rounds parts =
      ((parser.parseExtended lba count rounds []).1,
        parts ++ (parser.parseExtended lba count rounds []).2) := by
  obtain ⟨n, hn, hscans, hend, hparts, hret⟩ :=
    @parseExtended_eq parser lba count parts rounds hsize
  obtain ⟨m, hm, hscans', hend', hparts', hret'⟩ :=
    @parseExtended_eq parser lba count [] rounds hsize
  obtain rfl := rounds_unique hn hscans hend hm hscans' hend'
  refine Prod.ext ?_ ?_
  · rcases hret with ⟨h, hs⟩ | ⟨h, hs⟩ <;> rcases hret' with ⟨h', hs'⟩ | ⟨h', hs'⟩
    · rw [h, h']
    · exact absurd hs hs'
    · exact absurd hs' hs
    · rw [h, h']
  · rw [hparts, hparts', List.nil_append]

theorem logicals_of_chainEnds (hsize : 0 ≤ parser.sectorSize) (h : parser.ChainEnds root ret) :
    ∃ enough, ∀ rounds, enough ≤ rounds → (parser.logicals rounds root).1 = some ret := by
  obtain ⟨n, hscans, hend, rfl⟩ := h
  refine ⟨n, fun rounds hle => ?_⟩
  obtain ⟨m, hm, hscans', hend', -, hret⟩ := @parseExtended_eq parser
    root.startSector.toUInt32 root.numSectors.toUInt32 [] rounds hsize
  obtain rfl := rounds_unique hle hscans (.inr hend) hm hscans' hend'
  rcases hret with ⟨-, hs⟩ | ⟨hsome, -⟩
  · exact absurd hs hend
  · exact hsome

theorem recordOf_of_logicals (hsize : 0 ≤ parser.sectorSize)
    (h : part ∈ (parser.logicals rounds root).2) :
    ∃ key, parser.RecordOf root key ∧
      part ∈ parser.added root.startSector.toUInt32 root.numSectors.toUInt32 key := by
  obtain ⟨n, -, hscans, -, hparts, -⟩ := @parseExtended_eq parser root.startSector.toUInt32
    root.numSectors.toUInt32 [] rounds hsize
  rw [logicals, hparts, List.nil_append, foundBefore, List.mem_flatMap] at h
  obtain ⟨m, hm, hpart⟩ := h
  have hscan := hscans m (List.mem_range.1 hm)
  obtain ⟨key, hkey⟩ := Option.isSome_iff_exists.1 hscan.1
  have hchain : parser.chain root.startSector.toUInt32 root.numSectors.toUInt32 m = some key :=
    hkey
  rw [hchain, Option.elim_some] at hpart
  exact ⟨key, ⟨m, hscan, hchain⟩, hpart⟩

section

variable {α : Type} {Q Q' P : α → Prop} {l : List α}

theorem Behind.imp (hQ : ∀ a, Q a → Q' a) (h : Behind Q P l) : Behind Q' P l := by
  induction l with
  | nil => exact h
  | cons a l ih =>
      rcases h with hP | ⟨hQa, hrest⟩
      · exact .inl hP
      · exact .inr ⟨hQ a hQa, ih hrest⟩

end

/-- Where a partition lies, and its type. -/
def span (part : Partition) : UInt64 × UInt64 × UInt16 :=
  (part.startSector, part.numSectors, part.type)

/-- The primary partitions are the entries that pass the check. -/
theorem map_span_addPrimary {no : Int} :
    (roots.foldl parser.addPrimary (no, parts)).2.map span =
      parts.map span ++
        (roots.filter fun part => isLogical part && parser.checkPartition part).map span := by
  induction roots generalizing no parts with
  | nil => simp
  | cons first roots ih =>
      rw [List.foldl_cons, addPrimary, List.filter_cons]
      by_cases hext : isExtended first.type.toUInt8 = true
      · simp [hext, isLogical, ih]
      · by_cases hcheck : parser.checkPartition first = true
        · by_cases hempty : first.numSectors = 0
          · simp [hext, hcheck, hempty, isLogical, ih]
          · simp [hext, hcheck, hempty, isLogical, ih, span]
        · simp [hext, hcheck, isLogical, ih]

theorem mem_primaries_span {s : UInt64 × UInt64 × UInt16} :
    (∃ part ∈ parser.primaries, span part = s) ↔
      ∃ part ∈ parser.rootPart, isLogical part = true ∧ parser.checkPartition part = true ∧
        span part = s := by
  rw [← List.mem_map, primaries, map_span_addPrimary, List.map_nil, List.nil_append,
    List.mem_map]
  simp only [List.mem_filter, Bool.and_eq_true, and_assoc]

end MuditaOS.Blkdev.PartitionParser
