import MuditaOS.Blkdev.PartitionParser
import MuditaOS.Proofs.PartitionScan

/-!
# What a failed registration leaves behind

The disk is in the map, and its list of partitions cleared, before the scan that can
fail. So the map is as before exactly if the failure is not that of the scan; and the list
is, if it was what the scan had found when it came to a sector that cannot be read.
-/

namespace MuditaOS.Blkdev

open MuditaOS.Lib

namespace PartitionParser

section

variable (parser : PartitionParser)

/-- The scan of an extended entry comes to a record that cannot be read. -/
def Unreadable (root : Partition) (n : Nat) : Prop :=
  parser.Scans root.startSector.toUInt32 root.numSectors.toUInt32 n ∧
    ∃ key, parser.chain root.startSector.toUInt32 root.numSectors.toUInt32 n = some key ∧
      key.blank = false ∧ (parser.read key.sector.toUInt64).1 < 0

/-- It ends after some records, and reads all of them. -/
def ReadThrough (root : Partition) (n : Nat) : Prop :=
  (∀ m < n, parser.Scans root.startSector.toUInt32 root.numSectors.toUInt32 m) ∧
    ¬ parser.Scans root.startSector.toUInt32 root.numSectors.toUInt32 n ∧
    ∀ m < n, ¬ parser.Unreadable root m

def foundIn (root : Partition) (n : Nat) : List Partition :=
  parser.foundBefore root.startSector.toUInt32 root.numSectors.toUInt32 n

/-- Among the extended entries is one with such a record; what is found before. -/
inductive ChainsFail : List Partition → List Partition → Prop
  | other {root : Partition} {rest found : List Partition} :
      isExtended root.type.toUInt8 = false → ChainsFail rest found →
      ChainsFail (root :: rest) found
  | here {root : Partition} {rest : List Partition} {n : Nat} :
      isExtended root.type.toUInt8 = true → parser.Unreadable root n →
      ChainsFail (root :: rest) (parser.foundIn root n)
  | behind {root : Partition} {rest found : List Partition} {n : Nat} :
      isExtended root.type.toUInt8 = true → parser.ReadThrough root n → ChainsFail rest found →
      ChainsFail (root :: rest) (parser.foundIn root n ++ found)

/-- The disk cannot be scanned; what is found before that shows. -/
inductive ScanFails : List Partition → Prop
  | sectorSize : parser.sectorSize < 0 → narrow parser.sectorSize < 0 → ScanFails []
  | bootRecord : 0 ≤ parser.sectorSize →
      ¬ parser.BootPasses ∨ parser.sectorSize < minSectorSize → ScanFails []
  | chains {found : List Partition} : minSectorSize ≤ parser.sectorSize → parser.BootPasses →
      parser.ChainsFail parser.rootPart found → ScanFails (parser.primaries ++ found)

end

variable {parser : PartitionParser} {root : Partition} {rounds n : Nat} {ret : Int}
  {parts found roots : List Partition}

/-! ## One chain -/

theorem errorBefore_succ {lba count : UInt32} {key : Key}
    (h : parser.chain lba count n = some key) :
    parser.errorBefore lba count (n + 1) =
      if key.blank then parser.errorBefore lba count n
      else (parser.read key.sector.toUInt64).1 := by
  rw [errorBefore, h, Option.elim_some]

/-- As long as no record is unreadable, the last read was none that failed. -/
theorem errorBefore_nonneg
    (hscans : ∀ m < n, parser.Scans root.startSector.toUInt32 root.numSectors.toUInt32 m)
    (h : ∀ m < n, ¬ parser.Unreadable root m) :
    0 ≤ parser.errorBefore root.startSector.toUInt32 root.numSectors.toUInt32 n := by
  induction n with
  | zero => exact le_refl 0
  | succ n ih =>
      obtain ⟨key, hkey⟩ := Option.isSome_iff_exists.1 (hscans n (Nat.lt_succ_self n)).1
      rw [errorBefore_succ hkey]
      split
      · exact ih (fun m hm => hscans m (by omega)) fun m hm => h m (by omega)
      · next hblank =>
          refine not_lt.1 fun hneg => h n (Nat.lt_succ_self n) ?_
          exact ⟨hscans n (Nat.lt_succ_self n), key, hkey, Bool.eq_false_iff.2 hblank, hneg⟩

/-- Behind an unreadable record there is none. -/
theorem Unreadable.ends (h : parser.Unreadable root n) :
    (∀ m < n + 1, parser.Scans root.startSector.toUInt32 root.numSectors.toUInt32 m) ∧
      ¬ parser.Scans root.startSector.toUInt32 root.numSectors.toUInt32 (n + 1) ∧
      parser.errorBefore root.startSector.toUInt32 root.numSectors.toUInt32 (n + 1) < 0 ∧
      parser.foundIn root (n + 1) = parser.foundIn root n := by
  obtain ⟨hscans, key, hkey, hblank, hneg⟩ := h
  have hrecord : parser.record key = none := by
    rw [record, hblank, if_neg Bool.false_ne_true, if_pos hneg]
  obtain ⟨hnext, -, hadded⟩ := @ends_of_record parser root.startSector.toUInt32
    root.numSectors.toUInt32 key hrecord
  refine ⟨fun m hm => hscans.of_le (Nat.le_of_lt_succ hm), ?_, ?_, ?_⟩
  · intro hlater
    have hplace := hlater.1
    rw [chain] at hkey
    rw [place, hkey, Option.bind_some, hnext] at hplace
    exact Bool.false_ne_true hplace
  · rw [errorBefore_succ hkey, hblank, if_neg Bool.false_ne_true]
    exact hneg
  · rw [foundIn, foundBefore_succ hkey, hadded, List.append_nil, foundIn]

/-- What the scan of one extended entry returns after enough rounds. -/
theorem parseExtended_of_end (hsize : 0 ≤ parser.sectorSize)
    (hscans : ∀ m < n, parser.Scans root.startSector.toUInt32 root.numSectors.toUInt32 m)
    (hend : ¬ parser.Scans root.startSector.toUInt32 root.numSectors.toUInt32 n)
    (hle : n ≤ rounds) :
    parser.parseExtended root.startSector.toUInt32 root.numSectors.toUInt32 rounds parts =
      (some (parser.errorBefore root.startSector.toUInt32 root.numSectors.toUInt32 n),
        parts ++ parser.foundIn root n) := by
  obtain ⟨m, hm, hscans', hend', hparts, hret⟩ := @parseExtended_eq parser
    root.startSector.toUInt32 root.numSectors.toUInt32 parts rounds hsize
  obtain rfl := rounds_unique hle hscans (.inr hend) hm hscans' hend'
  rcases hret with ⟨-, hs⟩ | ⟨hsome, -⟩
  · exact absurd hs hend
  · exact Prod.ext hsome hparts

/-- The chain of an extended entry that is scanned to its end is read through, or has an
unreadable record. -/
theorem parseExtended_cases (hsize : 0 ≤ parser.sectorSize) {found : List Partition}
    (h : parser.parseExtended root.startSector.toUInt32 root.numSectors.toUInt32 rounds parts =
      (some ret, found)) :
    ∃ n, found = parts ++ parser.foundIn root n ∧
      (0 ≤ ret ∧ parser.ReadThrough root n ∨ ret < 0 ∧ parser.Unreadable root n) := by
  obtain ⟨n, -, hscans, -, hparts, hret⟩ := @parseExtended_eq parser
    root.startSector.toUInt32 root.numSectors.toUInt32 parts rounds hsize
  rw [h] at hparts hret
  rcases hret with ⟨hnone, -⟩ | ⟨hsome, hend⟩
  · exact absurd hnone (by simp)
  · obtain rfl := Option.some.inj hsome
    by_cases hbad : ∃ m < n, parser.Unreadable root m
    · obtain ⟨m, hm, hunreadable⟩ := hbad
      obtain ⟨-, hlast, hneg, hfound⟩ := hunreadable.ends
      -- the record behind an unreadable one is the end of the chain
      have hn : n = m + 1 := by
        refine Nat.le_antisymm (Nat.le_of_not_lt fun hlt => ?_) hm
        exact hlast (hscans (m + 1) hlt)
      subst hn
      refine ⟨m, ?_, .inr ⟨hneg, hunreadable⟩⟩
      rw [← hfound]
      exact hparts
    · have hread : ∀ m < n, ¬ parser.Unreadable root m := fun m hm hun => hbad ⟨m, hm, hun⟩
      exact ⟨n, hparts, .inl ⟨errorBefore_nonneg hscans hread, hscans, hend, hread⟩⟩

/-! ## All of them -/

theorem chainsFail_of_search (hsize : 0 ≤ parser.sectorSize) :
    ∀ {roots parts found : List Partition} {start : Int}, 0 ≤ start →
      parser.searchExtended rounds roots start parts = (some ret, found) → ret < 0 →
      ∃ more, parser.ChainsFail roots more ∧ found = parts ++ more := by
  intro roots
  induction roots with
  | nil =>
      intro parts found start hstart h hneg
      obtain rfl := Option.some.inj (Prod.mk.inj h).1
      exact absurd hneg (not_lt.2 hstart)
  | cons root roots ih =>
      intro parts found start hstart h hneg
      rw [searchExtended] at h
      split at h
      · next hext =>
          split at h
          · exact absurd (Prod.mk.inj h).1 (by simp)
          · next now parts' heq =>
              obtain ⟨n, rfl, hcase⟩ := parseExtended_cases hsize heq
              split at h
              · next hnow =>
                  obtain ⟨hret, rfl⟩ := Prod.mk.inj h
                  obtain rfl := Option.some.inj hret
                  obtain ⟨-, hunreadable⟩ := hcase.resolve_left fun hread =>
                    absurd hnow (not_lt.2 hread.1)
                  exact ⟨_, .here hext hunreadable, rfl⟩
              · next hnow =>
                  obtain ⟨hge, hread⟩ := hcase.resolve_right fun hun => hnow hun.1
                  obtain ⟨more, hmore, rfl⟩ := ih hge h hneg
                  exact ⟨_, .behind hext hread hmore, by rw [List.append_assoc]⟩
      · next hext =>
          obtain ⟨more, hmore, rfl⟩ := ih hstart h hneg
          exact ⟨more, .other (Bool.eq_false_iff.2 hext) hmore, rfl⟩

theorem search_of_chainsFail (hsize : 0 ≤ parser.sectorSize)
    (h : parser.ChainsFail roots found) : ∃ enough, ∀ rounds, enough ≤ rounds →
      ∀ (start : Int) (parts : List Partition), ∃ ret < 0,
        parser.searchExtended rounds roots start parts = (some ret, parts ++ found) := by
  induction h with
  | other hext _ ih =>
      obtain ⟨enough, henough⟩ := ih
      refine ⟨enough, fun rounds hle start parts => ?_⟩
      rw [searchExtended, hext, if_neg Bool.false_ne_true]
      exact henough rounds hle start parts
  | @here root rest n hext hunreadable =>
      obtain ⟨hscans, hend, hneg, hfound⟩ := hunreadable.ends
      refine ⟨n + 1, fun rounds hle start parts => ⟨_, hneg, ?_⟩⟩
      rw [searchExtended, if_pos hext, parseExtended_of_end hsize hscans hend hle]
      dsimp only
      rw [if_pos hneg, hfound]
  | @behind root rest found n hext hread _ ih =>
      obtain ⟨enough, henough⟩ := ih
      obtain ⟨hscans, hend, hread⟩ := hread
      refine ⟨max n enough, fun rounds hle start parts => ?_⟩
      rw [searchExtended, if_pos hext,
        parseExtended_of_end hsize hscans hend (le_of_max_le_left hle)]
      dsimp only
      rw [if_neg (not_lt.2 (errorBefore_nonneg hscans hread)), ← List.append_assoc]
      exact henough rounds (le_of_max_le_right hle) _ _

/-! ## The disk -/

/-- The scan, once the size of a sector and the boot record are all right. -/
theorem partitionSearch_passed (hsize : minSectorSize ≤ parser.sectorSize)
    (hboot : parser.BootPasses) :
    parser.partitionSearch rounds =
      parser.searchExtended rounds parser.rootPart (parser.read 0).1 parser.primaries := by
  rw [partitionSearch, if_neg (not_lt.2 (sectorSize_nonneg hsize))]
  dsimp only
  rw [if_neg (not_lt.2 hboot.1), if_neg (not_lt.2 hsize), if_neg hboot.2]
  rfl

theorem scanFails_of_search (h : parser.partitionSearch rounds = (some ret, found))
    (hneg : ret < 0) : parser.ScanFails found := by
  by_cases hsize : minSectorSize ≤ parser.sectorSize ∧ parser.BootPasses
  · rw [partitionSearch_passed hsize.1 hsize.2] at h
    obtain ⟨more, hmore, rfl⟩ :=
      chainsFail_of_search (sectorSize_nonneg hsize.1) hsize.2.1 h hneg
    exact .chains hsize.1 hsize.2 hmore
  · rw [partitionSearch] at h
    split at h
    · next hsector =>
        obtain ⟨hret, rfl⟩ := Prod.mk.inj h
        obtain rfl := Option.some.inj hret
        exact .sectorSize hsector hneg
    · next hsector =>
        have hfails : ¬ parser.BootPasses ∨ parser.sectorSize < minSectorSize := by
          rw [← not_le, ← not_and_or]
          exact fun hboth => hsize hboth.symm
        dsimp only at h
        have hnil : found = [] := by
          split at h
          · exact (Prod.mk.inj h).2.symm
          · next hread =>
              split at h
              · exact (Prod.mk.inj h).2.symm
              · next hsmall =>
                  split at h
                  · exact (Prod.mk.inj h).2.symm
                  · next hsig => exact absurd ⟨not_lt.1 hsmall, not_lt.1 hread, hsig⟩ hsize
        rw [hnil]
        exact .bootRecord (not_lt.1 hsector) hfails

theorem search_of_scanFails (h : parser.ScanFails found) :
    ∃ rounds ret, ret < 0 ∧ parser.partitionSearch rounds = (some ret, found) := by
  cases h with
  | sectorSize hsector hneg =>
      exact ⟨0, _, hneg, by rw [partitionSearch, if_pos hsector]⟩
  | bootRecord hsector hfails =>
      refine ⟨0, if (parser.read 0).1 < 0 then (parser.read 0).1 else - ENXIO, ?_, ?_⟩
      · split
        · next hread => exact hread
        · decide
      · rw [partitionSearch, if_neg (not_lt.2 hsector)]
        dsimp only
        split
        · rfl
        · next hread =>
            split
            · rfl
            · next hsmall =>
                refine if_pos (Classical.byContradiction fun hsig => ?_)
                exact (hfails.resolve_right hsmall) ⟨not_lt.1 hread, hsig⟩
  | chains hsize hboot hchains =>
      obtain ⟨enough, henough⟩ := search_of_chainsFail (sectorSize_nonneg hsize) hchains
      obtain ⟨ret, hneg, hret⟩ := henough enough (le_refl _) (parser.read 0).1 parser.primaries
      exact ⟨enough, ret, hneg, by rw [partitionSearch_passed hsize hboot, hret]⟩

end PartitionParser

/-! ## The manager -/

namespace DiskManager

variable {mgr mgr' : DiskManager} {disk d : Nat} {handle : DiskHandle} {name : List UInt8}
  {flags : UInt32} {probe ret : Int} {parser : PartitionParser} {rounds : Nat}
  {parts : List Partition}

/-- A registration that fails leaves the map as it was. -/
def MapKept (mgr : DiskManager) (disk : Option Nat) (name : List UInt8) (flags : UInt32)
    (probe : Int) (parser : PartitionParser) : Prop :=
  ∀ rounds ret mgr', mgr.registerDevice disk name flags probe parser rounds = (some ret, mgr') →
    ret < 0 → mgr'.devMap = mgr.devMap

/-- The registration comes to the scan. -/
structure ComesToScan (mgr : DiskManager) (disk : Option Nat) (name : List UInt8)
    (flags : UInt32) (probe : Int) : Prop where
  given : ∃ d, disk = some d ∧ (mgr.disks d).isSome
  free : mgr.devMap name = none
  probed : 0 ≤ probe
  asked : flags &&& noPartsScan = 0

/-- A scan that fails leaves the partitions as they were. -/
def PartitionsKept (mgr : DiskManager) (handle : DiskHandle) (parser : PartitionParser) :
    Prop :=
  ∀ rounds ret mgr', mgr.rereadPartitions (some handle) parser rounds = (some ret, mgr') →
    ret < 0 → mgr'.partitions handle = mgr.partitions handle

@[simp] theorem devMap_setPartitions :
    (mgr.setPartitions disk parts).devMap = mgr.devMap := rfl

theorem partitions_setPartitions (h : (mgr.disks handle.disk).isSome) :
    (mgr.setPartitions handle.disk parts).partitions handle = parts := by
  obtain ⟨d, hd⟩ := Option.isSome_iff_exists.1 h
  rw [partitions, setPartitions]
  dsimp only
  rw [Function.update_self, hd]
  rfl

theorem reread_some (h : (mgr.disks handle.disk).isSome) :
    mgr.rereadPartitions (some handle) parser rounds =
      ((parser.partitionSearch rounds).1, mgr.setPartitions handle.disk
        (if (parser.partitionSearch rounds).1 = some 0 then
          namedPartitions handle.name (parser.partitionSearch rounds).2
        else (parser.partitionSearch rounds).2)) := by
  obtain ⟨d, hd⟩ := Option.isSome_iff_exists.1 h
  rw [rereadPartitions, hd]

theorem reread_none (h : mgr.disks handle.disk = none) :
    mgr.rereadPartitions (some handle) parser rounds = (some 0, mgr) := by
  rw [rereadPartitions, h]

/-- A registration that comes to the scan has put the disk into the map. -/
theorem register_comesToScan (h : mgr.ComesToScan (some disk) name flags probe) :
    mgr.registerDevice (some disk) name flags probe parser rounds =
      { mgr with devMap := Function.update mgr.devMap name (some disk) }.rereadPartitions
        (some ⟨disk, -1, name⟩) parser rounds := by
  rw [registerDevice, h.free, if_neg (by simp), if_neg (not_lt.2 h.probed)]
  dsimp only
  rw [if_neg (not_not_intro h.asked)]

/-- Any other one returns without a scan, or succeeds. -/
theorem register_kept {disk : Option Nat} (h : ¬ mgr.ComesToScan disk name flags probe)
    (hret : mgr.registerDevice disk name flags probe parser rounds = (some ret, mgr'))
    (hneg : ret < 0) : mgr'.devMap = mgr.devMap := by
  cases disk with
  | none => exact (congrArg (·.2.devMap) hret).symm
  | some disk =>
      rw [registerDevice] at hret
      split at hret
      · exact (congrArg (·.2.devMap) hret).symm
      · next hfree =>
          split at hret
          · exact (congrArg (·.2.devMap) hret).symm
          · next hprobe =>
              dsimp only at hret
              split at hret
              · obtain rfl := Option.some.inj (Prod.mk.inj hret).1
                exact absurd hneg (lt_irrefl 0)
              · next hasked =>
                  have hgone : mgr.disks disk = none := by
                    refine Option.not_isSome_iff_eq_none.1 fun hsome => h ?_
                    exact ⟨⟨disk, rfl, hsome⟩, Option.not_isSome_iff_eq_none.1 hfree,
                      not_lt.1 hprobe, not_not.1 hasked⟩
                  rw [reread_none hgone] at hret
                  obtain rfl := Option.some.inj (Prod.mk.inj hret).1
                  exact absurd hneg (lt_irrefl 0)

theorem mapKept_iff {disk : Option Nat} : MapKept mgr disk name flags probe parser ↔
    (mgr.ComesToScan disk name flags probe → ∀ found, ¬ parser.ScanFails found) := by
  constructor
  · intro h hscan found hfails
    obtain ⟨d, rfl, hd⟩ := hscan.given
    obtain ⟨rounds, ret, hneg, hsearch⟩ := PartitionParser.search_of_scanFails hfails
    have hreg := @register_comesToScan mgr d name flags probe parser rounds hscan
    rw [reread_some hd, hsearch] at hreg
    have hkept := congrFun (h rounds ret _ hreg hneg) name
    rw [devMap_setPartitions] at hkept
    dsimp only at hkept
    rw [Function.update_self, hscan.free] at hkept
    exact Option.some_ne_none d hkept
  · intro h rounds ret mgr' hreg hneg
    by_cases hscan : mgr.ComesToScan disk name flags probe
    · obtain ⟨d, rfl, hd⟩ := hscan.given
      rw [register_comesToScan hscan, reread_some hd] at hreg
      have hsearch := (Prod.mk.inj hreg).1
      exact absurd (PartitionParser.scanFails_of_search (Prod.ext hsearch rfl) hneg)
        (h hscan _)
    · exact register_kept hscan hreg hneg

theorem partitionsKept_iff : PartitionsKept mgr handle parser ↔
    ((mgr.disks handle.disk).isSome →
      ∀ found, parser.ScanFails found → found = mgr.partitions handle) := by
  constructor
  · intro h hdisk found hfails
    obtain ⟨rounds, ret, hneg, hsearch⟩ := PartitionParser.search_of_scanFails hfails
    have hreread := @reread_some mgr handle parser rounds hdisk
    rw [hsearch] at hreread
    dsimp only at hreread
    rw [if_neg fun hzero => absurd (Option.some.inj hzero) hneg.ne] at hreread
    rw [← h rounds ret _ hreread hneg, partitions_setPartitions hdisk]
  · intro h rounds ret mgr' hreread hneg
    cases hdisk : mgr.disks handle.disk with
    | none =>
        rw [reread_none hdisk] at hreread
        rw [(Prod.mk.inj hreread).2]
    | some d =>
        have hsome := Option.isSome_of_eq_some hdisk
        rw [reread_some hsome] at hreread
        obtain ⟨hsearch, rfl⟩ := Prod.mk.inj hreread
        have hfails := PartitionParser.scanFails_of_search (Prod.ext hsearch rfl) hneg
        rw [partitions_setPartitions hsome, hsearch,
          if_neg fun hzero => absurd (Option.some.inj hzero) hneg.ne]
        exact h hsome _ hfails

/-- A failed registration leaves the map as it was exactly if it does not come to a scan
that fails, and a failed scan the partitions exactly if they are what it finds first. -/
theorem failure_kept_iff {disk : Option Nat} :
    (MapKept mgr disk name flags probe parser ↔
      (mgr.ComesToScan disk name flags probe → ∀ found, ¬ parser.ScanFails found)) ∧
    (PartitionsKept mgr handle parser ↔ ((mgr.disks handle.disk).isSome →
      ∀ found, parser.ScanFails found → found = mgr.partitions handle)) :=
  ⟨mapKept_iff, partitionsKept_iff⟩

/-- A disk without a signature stays registered under its name. -/
theorem blank_disk_registered :
    ¬ MapKept ⟨fun _ => none, fun _ => some ⟨[], fun _ => 4096⟩⟩ (some 0) [0x64] 0 0
      ⟨512, 4096, fun _ => (0, fun _ => 0), 32⟩ := by
  intro h
  have hmap := congrFun (h 0 (-6) _ rfl (by decide)) [0x64]
  exact absurd hmap (by decide)

end DiskManager

end MuditaOS.Blkdev
