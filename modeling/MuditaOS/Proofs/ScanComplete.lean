import MuditaOS.Proofs.ScanSound

/-!
# Whether all partitions on the disk are found

The bounds that the entries of an extended chain are compared with have the width of
`unsigned long`, and the end of the outer extended partition is cut to 32 bits before that.
On a platform where `unsigned long` has 32 bits, a partition of a well-formed chain is
found exactly if its size and its begin in bytes are within the bounds after the cut.
-/

namespace MuditaOS.Blkdev.PartitionParser

open MuditaOS.Lib

/-- An extended boot record: its sector, the size that leads to it, and the entry of its
partition. -/
structure Ebr where
  sector : Nat
  extent : Nat
  part : Partition

/-- The partition of the record, on the disk. -/
def Ebr.span (ebr : Ebr) : UInt64 × UInt64 × UInt16 :=
  (ebr.part.startSector + .ofNat ebr.sector, ebr.part.numSectors, ebr.part.type)

section

variable (parser : PartitionParser)

/-- A sector holds a record with these partitions and these links. -/
def RecordOn (sector : Nat) (logical links : List Partition) : Prop :=
  ∃ buf, parser.read (.ofNat sector) = (0, buf) ∧ hasSignature buf = true ∧
    (readPartitions buf).filter isLogical = logical ∧ (readPartitions buf).filter isLink = links

/-- The records from a sector on, each with one partition, and none if there is none. Links
count from the base. -/
def ChainOn (base : Nat) : Nat → Nat → List Ebr → Prop
  | sector, _, [] => RecordOn parser sector [] []
  | sector, extent, ebr :: rest =>
      ebr.sector = sector ∧ ebr.extent = extent ∧
        (rest = [] ∧ RecordOn parser sector [ebr.part] [] ∨
          ∃ link, rest ≠ [] ∧ RecordOn parser sector [ebr.part] [link] ∧
            ChainOn base (base + link.startSector.toNat) link.numSectors.toNat rest)

/-- A disk with some primary partitions, and perhaps an extended one with its chain. -/
structure WellFormed (root : Option Partition) (chain : List Ebr) : Prop where
  sized : Sized parser
  ulong : parser.ulongBits = 32
  boot : (parser.read 0).1 = 0 ∧ hasSignature (parser.read 0).2 = true
  primary : ∀ part ∈ parser.rootPart, isLogical part = true → parser.InDisk part
  extended : (parser.rootPart.filter fun part => isExtended part.type.toUInt8) = root.toList
  empty : root = none → chain = []
  records : ∀ r, root = some r → parser.InDisk r ∧
    parser.ChainOn r.startSector.toNat r.startSector.toNat r.numSectors.toNat chain ∧
    ∀ ebr ∈ chain, r.startSector.toNat ≤ ebr.sector ∧
      ebr.sector + ebr.extent ≤ r.startSector.toNat + r.numSectors.toNat ∧
      0 < ebr.part.startSector.toNat ∧
      ebr.part.startSector.toNat + ebr.part.numSectors.toNat ≤ ebr.extent
  most : chain.length ≤ 100

/-- The scan returns success, with the primary partitions and behind them those of the
chain. -/
def Complete (chain : List Ebr) : Prop :=
  ∃ rounds, (parser.partitionSearch rounds).1 = some 0 ∧
    (parser.partitionSearch rounds).2.map span =
      (parser.rootPart.filter isLogical).map span ++ chain.map Ebr.span

/-- The size in bytes of each partition, and the begin of each logical one, are no more
than what the cut leaves of the size around them. -/
structure WithinCut (root : Option Partition) (chain : List Ebr) : Prop where
  primary : ∀ part ∈ parser.rootPart, isLogical part = true →
    (part.startSector.toNat + part.numSectors.toNat) * parser.sectorSize.toNat ≤
      (UInt64.ofInt parser.sectorCount * parser.size64).toNat
  size : ∀ ebr ∈ chain,
    (ebr.part.startSector.toNat + ebr.part.numSectors.toNat) * parser.sectorSize.toNat ≤
      ebr.extent * parser.sectorSize.toNat % 2 ^ 32
  begin : ∀ r, root = some r → ∀ ebr ∈ chain,
    (ebr.sector + ebr.part.startSector.toNat) * parser.sectorSize.toNat ≤
      (r.startSector.toNat + r.numSectors.toNat) % 2 ^ 32 * parser.sectorSize.toNat % 2 ^ 32

/-- The key that a link to the record leads to. -/
def recordKey (sector extent : Nat) : Key where
  sector := .ofNat sector
  size := .ofNat (extent * parser.sectorSize.toNat % 2 ^ 32)
  blank := false

end

variable {parser : PartitionParser} {lba count : UInt32} {key : Key} {sector extent base n : Nat}
  {logical links : List Partition} {chain : List Ebr} {ebr : Ebr} {root : Option Partition}
  {part link : Partition}

/-! ## A record -/

theorem toUInt64_ofNat (h : sector < 2 ^ 32) : (UInt32.ofNat sector).toUInt64 = .ofNat sector := by
  rw [← UInt64.toNat_inj, UInt32.toNat_toUInt64, UInt32.toNat_ofNat', UInt64.toNat_ofNat']
  omega

theorem record_of_recordOn (h : parser.RecordOn sector logical links) (hlt : sector < 2 ^ 32) :
    ∃ buf, parser.record (parser.recordKey sector extent) = some buf ∧
      (parser.read (parser.recordKey sector extent).sector.toUInt64).1 = 0 ∧
      (readPartitions buf).filter isLogical = logical ∧
      (readPartitions buf).filter isLink = links := by
  obtain ⟨buf, hread, hsig, hlogical, hlinks⟩ := h
  have hsector := toUInt64_ofNat hlt
  refine ⟨buf, ?_, ?_, hlogical, hlinks⟩
  · rw [record, recordKey]
    dsimp only
    rw [if_neg Bool.false_ne_true, hsector, hread, if_neg (lt_irrefl 0), if_pos hsig]
  · rw [recordKey]
    dsimp only
    rw [hsector, hread]

/-- What a record adds, without the numbers of its entries. -/
theorem map_span_added {buf : Sector} (hrec : parser.record key = some buf) :
    (parser.added lba count key).map span =
      (((readPartitions buf).filter isLogical).filter fun part =>
        !parser.looksStrange lba count key.sector key.size part).map fun part =>
          (part.startSector + key.sector.toUInt64, part.numSectors, part.type) := by
  rw [added, accepted, hrec, Option.elim_some, List.filter_filter, List.map_map]
  conv_rhs => rw [← List.zipIdx_map_fst 0 (readPartitions buf), List.filter_map, List.map_map]
  refine congrArg (List.map _) (List.filter_congr fun entry _ => ?_)
  rw [accepts, Function.comp_apply, Bool.and_comm]

theorem nextKey_of_record {buf : Sector} (hrec : parser.record key = some buf) :
    parser.nextKey lba key =
      ((readPartitions buf).filter isLink).head?.map (parser.linkKey lba) := by
  rw [nextKey, hrec, Option.bind_some, List.head?_filter]

theorem words_of_recordOn (h : parser.RecordOn sector logical links) :
    (∀ part ∈ logical, Words part) ∧ ∀ part ∈ links, Words part := by
  obtain ⟨buf, -, -, rfl, rfl⟩ := h
  exact ⟨fun part h => words_readPartitions (List.mem_of_mem_filter h),
    fun part h => words_readPartitions (List.mem_of_mem_filter h)⟩

theorem toULong_sectors {x : UInt64} (hsized : Sized parser) (hulong : parser.ulongBits = 32)
    (hx : x.toNat < 2 ^ 32) :
    parser.toULong (x * parser.size64) = .ofNat (x.toNat * parser.sectorSize.toNat % 2 ^ 32) := by
  rw [toULong, toNat_mul_size hsized (by omega), hulong]

theorem linkKey_eq (hsized : Sized parser) (hulong : parser.ulongBits = 32)
    (hwords : Words link) : parser.linkKey lba link =
      parser.recordKey (lba.toNat + link.startSector.toNat) link.numSectors.toNat := by
  rw [linkKey, recordKey, toULong_sectors hsized hulong hwords.num]
  congr 1
  rw [← UInt32.toNat_inj, UInt64.toNat_toUInt32, UInt64.toNat_add, UInt32.toNat_toUInt64,
    UInt32.toNat_ofNat']
  omega

theorem startKey_eq (hsized : Sized parser) (hulong : parser.ulongBits = 32)
    (hlba : lba ≠ 0xFFFFFFFF) :
    parser.startKey lba count = parser.recordKey lba.toNat count.toNat := by
  have hcount := count.toNat_lt
  rw [startKey, recordKey, toULong_sectors hsized hulong (by rwa [UInt32.toNat_toUInt64]),
    UInt32.toNat_toUInt64, decide_eq_false hlba, UInt32.ofNat_toNat]

/-! ## A chain -/

/-- The partition of a record passes the sanity checks. -/
def Ebr.fits (parser : PartitionParser) (lba count : UInt32) (ebr : Ebr) : Bool :=
  !parser.looksStrange lba count (.ofNat ebr.sector)
    (.ofNat (ebr.extent * parser.sectorSize.toNat % 2 ^ 32)) ebr.part

/-- A record with one partition. -/
theorem map_span_recordOn (h : parser.RecordOn ebr.sector [ebr.part] links)
    (hlt : ebr.sector < 2 ^ 32) :
    (parser.added lba count (parser.recordKey ebr.sector ebr.extent)).map span =
      ([ebr].filter (Ebr.fits parser lba count)).map Ebr.span := by
  obtain ⟨buf, hrec, -, hlogical, -⟩ := @record_of_recordOn parser ebr.sector ebr.extent _ _ h hlt
  have hsector := toUInt64_ofNat hlt
  rw [map_span_added hrec, hlogical, List.filter_singleton, List.filter_singleton, Ebr.fits,
    recordKey]
  dsimp only
  cases parser.looksStrange lba count (.ofNat ebr.sector)
      (.ofNat (ebr.extent * parser.sectorSize.toNat % 2 ^ 32)) ebr.part with
  | true => rfl
  | false => simp [Ebr.span, hsector]

/-- A round at a record: what it adds, and where its link leads. -/
theorem record_walk (hon : parser.RecordOn sector logical links) (hlt : sector < 2 ^ 32)
    (hkey : parser.chain lba count n = some (parser.recordKey sector extent)) :
    parser.chain lba count (n + 1) = links.head?.map (parser.linkKey lba) ∧
      parser.errorBefore lba count (n + 1) = 0 ∧
      (parser.foundBefore lba count (n + 1)).map span =
        (parser.foundBefore lba count n).map span ++
          (parser.added lba count (parser.recordKey sector extent)).map span := by
  obtain ⟨buf, hrec, hread, -, hlinks⟩ := @record_of_recordOn parser sector extent _ _ hon hlt
  refine ⟨?_, ?_, ?_⟩
  · rw [chain, place, ← chain, hkey, Option.bind_some, nextKey_of_record hrec, hlinks]
  · rw [errorBefore, hkey, Option.elim_some, hread]
    rfl
  · rw [foundBefore_succ hkey, List.map_append]

/-- The walk goes along the records, and nowhere else. -/
theorem chain_walk (hsized : Sized parser) (hulong : parser.ulongBits = 32)
    (hon : parser.ChainOn lba.toNat sector extent chain) (hlt : sector < 2 ^ 32)
    (hall : ∀ ebr ∈ chain, ebr.sector < 2 ^ 32)
    (hkey : parser.chain lba count n = some (parser.recordKey sector extent)) :
    ∃ len ≤ max 1 chain.length,
      (∀ i < len, (parser.chain lba count (n + i)).isSome) ∧
      parser.chain lba count (n + len) = none ∧ parser.errorBefore lba count (n + len) = 0 ∧
      (parser.foundBefore lba count (n + len)).map span =
        (parser.foundBefore lba count n).map span ++
          (chain.filter (Ebr.fits parser lba count)).map Ebr.span := by
  have hfirst : ∀ i < 1, (parser.chain lba count (n + i)).isSome := by
    intro i hi
    rw [Nat.lt_one_iff.1 hi, Nat.add_zero, hkey, Option.isSome_some]
  induction chain generalizing sector extent n with
  | nil =>
      obtain ⟨hnext, herror, hfound⟩ := record_walk hon hlt hkey
      obtain ⟨buf, hrec, -, hlogical, -⟩ := @record_of_recordOn parser sector extent _ _ hon hlt
      refine ⟨1, le_max_left _ _, hfirst, hnext, herror, ?_⟩
      rw [hfound, map_span_added hrec, hlogical]
      rfl
  | cons ebr rest ih =>
      obtain ⟨rfl, rfl, ⟨rfl, hon⟩ | ⟨link, hrest, hon, hchain⟩⟩ := hon
      · obtain ⟨hnext, herror, hfound⟩ := record_walk hon hlt hkey
        refine ⟨1, le_max_left _ _, hfirst, hnext, herror, ?_⟩
        rw [hfound, map_span_recordOn hon hlt]
      · obtain ⟨hnext, herror, hfound⟩ := record_walk hon hlt hkey
        obtain ⟨next, rest, rfl⟩ := List.exists_cons_of_ne_nil hrest
        have hsector : lba.toNat + link.startSector.toNat < 2 ^ 32 := by
          rw [← hchain.1]
          exact hall next (.tail _ (.head _))
        have hwords := (words_of_recordOn hon).2 link (List.mem_singleton_self link)
        rw [List.head?_cons, Option.map_some, linkKey_eq hsized hulong hwords] at hnext
        obtain ⟨len, hlen, hsome, hnone, herror', hfound'⟩ := ih hchain hsector
          (fun ebr hebr => hall ebr (.tail _ hebr)) hnext (by
            intro i hi
            rw [Nat.lt_one_iff.1 hi, Nat.add_zero, hnext, Option.isSome_some])
        refine ⟨len + 1, ?_, fun i hi => ?_, ?_, ?_, ?_⟩
        · rw [List.length_cons] at hlen
          rw [List.length_cons, List.length_cons]
          omega
        · cases i with
          | zero => exact hfirst 0 Nat.zero_lt_one
          | succ i =>
              have hi := hsome i (by omega)
              rwa [Nat.add_assoc, Nat.add_comm 1 i] at hi
        · rwa [Nat.add_assoc, Nat.add_comm 1 len] at hnone
        · rwa [Nat.add_assoc, Nat.add_comm 1 len] at herror'
        · rw [Nat.add_assoc, Nat.add_comm 1 len, hfound, map_span_recordOn hon hlt,
            List.append_assoc, ← List.map_append, ← List.filter_append] at hfound'
          exact hfound'

/-- A walk of at most a hundred records goes on to the last of them. -/
theorem scans_of_chain {len : Nat} (hlen : len ≤ maxParts)
    (hsome : ∀ i < len, (parser.chain lba count i).isSome) {m : Nat} (hm : m < len) :
    parser.Scans lba count m := by
  refine ⟨hsome m hm, fun k hk => ?_⟩
  have hspent := (@quiet_of_left _ (parser.nextKey lba) (parser.adds lba count) maxParts
    (some (parser.startKey lba count)) k).1
  omega

/-- The scan of a chain whose records can be numbered. -/
theorem parseExtended_chain (hsized : Sized parser) (hulong : parser.ulongBits = 32)
    (hon : parser.ChainOn lba.toNat lba.toNat count.toNat chain) (hmost : chain.length ≤ 100)
    (hall : ∀ ebr ∈ chain, ebr.sector < 2 ^ 32) (hlba : chain ≠ [] → lba ≠ 0xFFFFFFFF) :
    ∃ len, (∀ m < len, parser.Scans lba count m) ∧ ¬ parser.Scans lba count len ∧
      parser.errorBefore lba count len = 0 ∧
      (parser.foundBefore lba count len).map span =
        (chain.filter (Ebr.fits parser lba count)).map Ebr.span := by
  by_cases hblank : lba = 0xFFFFFFFF
  · obtain rfl : chain = [] := Classical.byContradiction fun hne => hlba hne hblank
    have hrec : parser.record (parser.startKey lba count) = none := by
      rw [record, startKey, decide_eq_true hblank, if_pos rfl]
    obtain ⟨hnext, -, hadded⟩ := @ends_of_record parser lba count _ hrec
    have hkey : parser.chain lba count 0 = some (parser.startKey lba count) := rfl
    refine ⟨1, fun m hm => scans_of_chain (by decide) (fun i hi => ?_) hm, fun h => ?_, ?_, ?_⟩
    · rw [Nat.lt_one_iff.1 hi, hkey, Option.isSome_some]
    · have hplace : (parser.nextKey lba (parser.startKey lba count)).isSome = true := h.1
      rw [hnext] at hplace
      exact Bool.false_ne_true hplace
    · rw [errorBefore, hkey, Option.elim_some, startKey, decide_eq_true hblank, if_pos rfl,
        errorBefore]
    · rw [foundBefore_succ hkey, hadded, List.append_nil]
      rfl
  · have hkey : parser.chain lba count 0 = some (parser.recordKey lba.toNat count.toNat) :=
      congrArg some (startKey_eq hsized hulong hblank)
    obtain ⟨len, hlen, hsome, hnone, herror, hfound⟩ :=
      chain_walk hsized hulong hon lba.toNat_lt hall hkey
    rw [Nat.zero_add] at hnone herror hfound
    refine ⟨len, fun m hm => scans_of_chain ?_ (fun i hi => ?_) hm, fun h => ?_, herror, ?_⟩
    · exact hlen.trans (max_le (by decide) hmost)
    · have hi := hsome i hi
      rwa [Nat.zero_add] at hi
    · have hplace : (parser.chain lba count len).isSome = true := h.1
      rw [hnone] at hplace
      exact Bool.false_ne_true hplace
    · rw [hfound]
      rfl

/-! ## The disk -/

theorem searchExtended_filter {rounds : Nat} {roots parts : List Partition} {ret : Int} :
    parser.searchExtended rounds roots ret parts =
      parser.searchExtended rounds
        (roots.filter fun part => isExtended part.type.toUInt8) ret parts := by
  induction roots generalizing ret parts with
  | nil => rfl
  | cons first roots ih =>
      rw [List.filter_cons, searchExtended]
      split
      · next hfirst =>
          rw [searchExtended, if_pos hfirst]
          split
          · rfl
          · split
            · rfl
            · exact ih
      · exact ih

/-- The scan of a disk with one extended partition or none. -/
theorem partitionSearch_eq (hwell : parser.WellFormed root chain) {rounds : Nat} :
    parser.partitionSearch rounds =
      parser.searchExtended rounds root.toList 0 parser.primaries := by
  have hpos := sectorSize_nonneg hwell.sized.least
  obtain ⟨hread, hsig⟩ := hwell.boot
  have hboot : ¬ ((parser.read 0).2 mbrSignatureOffs ≠ 0x55 ∧
      (parser.read 0).2 (mbrSignatureOffs + 1) ≠ 0xAA) := by
    rw [hasSignature, Bool.and_eq_true, decide_eq_true_iff] at hsig
    exact fun h => h.1 hsig.1
  have hextended := hwell.extended
  rw [rootPart] at hextended
  rw [partitionSearch, if_neg (not_lt.2 hpos)]
  dsimp only
  rw [if_neg (by rw [hread]; decide), if_neg (not_lt.2 hwell.sized.least), if_neg hboot,
    searchExtended_filter, hextended, hread, ← rootPart, ← primaries]

theorem searchExtended_single (hsize : 0 ≤ parser.sectorSize) {rounds : Nat} {r : Partition}
    {parts : List Partition} (hext : isExtended r.type.toUInt8 = true) :
    parser.searchExtended rounds [r] 0 parts =
      ((parser.logicals rounds r).1, parts ++ (parser.logicals rounds r).2) := by
  rw [searchExtended, if_pos hext, parseExtended_append hsize, ← logicals]
  generalize parser.logicals rounds r = scanned
  obtain ⟨ret | ret, found⟩ := scanned
  · rfl
  · dsimp only
    split
    · rfl
    · rfl

theorem map_span_primaries : parser.primaries.map span =
    (parser.rootPart.filter fun part => isLogical part && parser.checkPartition part).map
      span := by
  rw [primaries, map_span_addPrimary, List.map_nil, List.nil_append]

/-- All primary partitions are found where as many are found as there are. -/
theorem length_primaries : parser.primaries.length ≤ (parser.rootPart.filter isLogical).length ∧
    (parser.primaries.length = (parser.rootPart.filter isLogical).length ↔
      ∀ part ∈ parser.rootPart, isLogical part = true → parser.checkPartition part = true) := by
  have hlength : parser.primaries.length =
      ((parser.rootPart.filter isLogical).filter parser.checkPartition).length := by
    rw [← List.length_map (f := span), map_span_primaries, List.length_map, List.filter_filter]
    simp only [Bool.and_comm]
  rw [hlength]
  refine ⟨List.length_filter_le _ _, ?_⟩
  rw [List.length_filter_eq_length_iff]
  simp only [List.mem_filter, and_imp]

theorem words_of_chainOn (hon : parser.ChainOn base sector extent chain) :
    ∀ ebr ∈ chain, Words ebr.part := by
  induction chain generalizing sector extent with
  | nil => exact fun _ h => absurd h List.not_mem_nil
  | cons first rest ih =>
      obtain ⟨-, -, ⟨rfl, hrecord⟩ | ⟨link, -, hrecord, hrest⟩⟩ := hon
      · intro ebr hebr
        rw [List.mem_singleton.1 hebr]
        exact (words_of_recordOn hrecord).1 _ (List.mem_singleton_self _)
      · intro ebr hebr
        rcases List.mem_cons.1 hebr with rfl | hebr
        · exact (words_of_recordOn hrecord).1 _ (List.mem_singleton_self _)
        · exact ih hrest ebr hebr

theorem root_of_wellFormed {r : Partition} (hwell : parser.WellFormed (some r) chain) :
    Words r ∧ isExtended r.type.toUInt8 = true := by
  have hmem : r ∈ (some r).toList := List.mem_singleton_self r
  rw [← hwell.extended] at hmem
  obtain ⟨hroot, hext⟩ := List.mem_filter.1 hmem
  exact ⟨words_readPartitions hroot, hext⟩

/-- The checks on the partition of a record of the chain, in numbers. -/
theorem fits_iff {r : Partition} (hwell : parser.WellFormed (some r) chain)
    (hebr : ebr ∈ chain) (hlt : ebr.sector < 2 ^ 32) :
    ebr.fits parser r.startSector.toUInt32 r.numSectors.toUInt32 = true ↔
      (ebr.part.startSector.toNat + ebr.part.numSectors.toNat) * parser.sectorSize.toNat ≤
        ebr.extent * parser.sectorSize.toNat % 2 ^ 32 ∧
      (ebr.sector + ebr.part.startSector.toNat) * parser.sectorSize.toNat ≤
        (r.startSector.toNat + r.numSectors.toNat) % 2 ^ 32 * parser.sectorSize.toNat %
          2 ^ 32 := by
  obtain ⟨hwords, -⟩ := root_of_wellFormed hwell
  obtain ⟨-, hon, hinside⟩ := hwell.records r rfl
  obtain ⟨hstart, hnum⟩ := hwords.toUInt32
  have hsector : (UInt32.ofNat ebr.sector).toNat = ebr.sector := by
    rw [UInt32.toNat_ofNat', Nat.mod_eq_of_lt hlt]
  have hsize : (UInt64.ofNat (ebr.extent * parser.sectorSize.toNat % 2 ^ 32)).toNat =
      ebr.extent * parser.sectorSize.toNat % 2 ^ 32 := by
    rw [UInt64.toNat_ofNat']
    omega
  have hfront : r.startSector.toNat * parser.sectorSize.toNat % 2 ^ 32 ≤
      (ebr.sector + ebr.part.startSector.toNat) * parser.sectorSize.toNat :=
    (Nat.mod_le _ _).trans (Nat.mul_le_mul_right _ ((hinside ebr hebr).1.trans
      (Nat.le_add_right _ _)))
  rw [Ebr.fits, Bool.not_eq_true', looksStrange_iff hwell.sized (words_of_chainOn hon ebr hebr),
    hwell.ulong, hstart, hnum, hsector, hsize, and_iff_right hfront]

/-- What the scan of the chain returns, where its records can be numbered. -/
theorem logicals_chain {r : Partition} (hwell : parser.WellFormed (some r) chain)
    (hall : ∀ ebr ∈ chain, ebr.sector + ebr.part.startSector.toNat < 2 ^ 32) :
    (∃ rounds, (parser.logicals rounds r).1 = some 0) ∧
      ∀ rounds, (parser.logicals rounds r).1.isSome →
        (parser.logicals rounds r).2.map span =
          (chain.filter (Ebr.fits parser r.startSector.toUInt32 r.numSectors.toUInt32)).map
            Ebr.span := by
  have hpos := sectorSize_nonneg hwell.sized.least
  obtain ⟨hwords, -⟩ := root_of_wellFormed hwell
  obtain ⟨-, hon, hinside⟩ := hwell.records r rfl
  obtain ⟨hstart, hnum⟩ := hwords.toUInt32
  have hlba : chain ≠ [] → r.startSector.toUInt32 ≠ 0xFFFFFFFF := by
    intro hne heq
    obtain ⟨first, rest, rfl⟩ := List.exists_cons_of_ne_nil hne
    have hfirst := hall first (.head _)
    have hbehind := (hinside first (.head _)).2.2.1
    have hmax : (0xFFFFFFFF : UInt32).toNat = 2 ^ 32 - 1 := rfl
    rw [hon.1, ← hstart, heq, hmax] at hfirst
    omega
  obtain ⟨len, hscans, hend, herror, hfound⟩ := @parseExtended_chain parser
    r.startSector.toUInt32 r.numSectors.toUInt32 chain hwell.sized hwell.ulong
    (by rwa [hstart, hnum]) hwell.most
    (fun ebr hebr => lt_of_le_of_lt (Nat.le_add_right _ _) (hall ebr hebr)) hlba
  constructor
  · obtain ⟨enough, henough⟩ := logicals_of_chainEnds hpos ⟨len, hscans, hend, herror⟩
    exact ⟨enough, henough enough (le_refl _)⟩
  · intro rounds hsome
    obtain ⟨n, -, hscans', -, hparts, hret⟩ := @parseExtended_eq parser
      r.startSector.toUInt32 r.numSectors.toUInt32 [] rounds hpos
    have hend' : ¬ parser.Scans r.startSector.toUInt32 r.numSectors.toUInt32 n := by
      rcases hret with ⟨hnone, -⟩ | ⟨-, hend'⟩
      · rw [logicals, hnone] at hsome
        exact absurd hsome Bool.false_ne_true
      · exact hend'
    obtain rfl : n = len := by
      rcases Nat.lt_trichotomy n len with hlt | heq | hlt
      · exact absurd (hscans n hlt) hend'
      · exact heq
      · exact absurd (hscans' len hlt) hend
    rw [logicals, hparts, List.nil_append, hfound]

/-- Whatever is added begins at a sector with a number of 32 bits. -/
theorem start_lt_of_added (hsized : Sized parser) (hulong : parser.ulongBits = 32)
    (h : part ∈ parser.added lba count key) : part.startSector.toNat < 2 ^ 32 := by
  obtain ⟨entry, hentry, rfl⟩ := List.mem_map.1 h
  have hwords := words_accepted hentry
  have haccepts := (List.mem_filter.1 hentry).2
  rw [accepts, Bool.and_eq_true, Bool.not_eq_true'] at haccepts
  obtain ⟨-, -, hle⟩ := (looksStrange_iff hsized hwords).1 haccepts.2
  have hleast : 512 ≤ parser.sectorSize := hsized.least
  rw [toNat_addedPart hwords]
  rw [hulong] at hle
  calc key.sector.toNat + entry.1.startSector.toNat
      ≤ (key.sector.toNat + entry.1.startSector.toNat) * parser.sectorSize.toNat :=
        Nat.le_mul_of_pos_right _ (by omega)
    _ < 2 ^ 32 := lt_of_le_of_lt hle (Nat.mod_lt _ (by norm_num))

theorem start_lt_of_primary (h : part ∈ parser.primaries) :
    part.startSector.toNat < 2 ^ 32 := by
  obtain ⟨raw, hraw, -, -, hspan⟩ := mem_primaries_span.1 ⟨part, h, rfl⟩
  have hstart : raw.startSector = part.startSector := congrArg Prod.fst hspan
  rw [← hstart]
  exact (words_readPartitions hraw).start

/-! ## Complete or cut -/

theorem primary_iff (hsized : Sized parser) :
    (∀ part ∈ parser.rootPart, isLogical part = true → parser.checkPartition part = true) ↔
      ∀ part ∈ parser.rootPart, isLogical part = true →
        (part.startSector.toNat + part.numSectors.toNat) * parser.sectorSize.toNat ≤
          (UInt64.ofInt parser.sectorCount * parser.size64).toNat :=
  forall₃_congr fun _ hpart _ => checkPartition_iff hsized (words_readPartitions hpart)

theorem map_span_primaries_iff :
    parser.primaries.map span = (parser.rootPart.filter isLogical).map span ↔
      ∀ part ∈ parser.rootPart, isLogical part = true → parser.checkPartition part = true := by
  refine ⟨fun h => ?_, fun h => ?_⟩
  · have hlength := congrArg List.length h
    rw [List.length_map, List.length_map] at hlength
    exact length_primaries.2.1 hlength
  · rw [map_span_primaries]
    refine congrArg (List.map span) (List.filter_congr fun part hpart => ?_)
    cases hlogical : isLogical part with
    | false => rfl
    | true => exact h part hpart hlogical

theorem complete_none (hwell : parser.WellFormed none chain) :
    parser.Complete chain ↔ parser.WithinCut none chain := by
  obtain rfl := hwell.empty rfl
  have hsearch : ∀ rounds, parser.partitionSearch rounds = (some 0, parser.primaries) :=
    fun rounds => partitionSearch_eq hwell
  have hcomplete : parser.Complete [] ↔
      parser.primaries.map span = (parser.rootPart.filter isLogical).map span := by
    rw [Complete, List.map_nil, List.append_nil]
    simp only [hsearch, true_and, exists_const]
  rw [hcomplete, map_span_primaries_iff, primary_iff hwell.sized]
  exact ⟨fun h => ⟨h, fun _ hebr => absurd hebr List.not_mem_nil,
    fun _ hr => absurd hr.symm (Option.some_ne_none _)⟩, fun h => h.primary⟩

/-- What a complete scan has found begins at sectors with numbers of 32 bits. -/
theorem starts_of_complete {r : Partition} (hwell : parser.WellFormed (some r) chain)
    {rounds : Nat} (hspans : (parser.primaries ++ (parser.logicals rounds r).2).map span =
      (parser.rootPart.filter isLogical).map span ++ chain.map Ebr.span) :
    ∀ ebr ∈ chain, ebr.sector + ebr.part.startSector.toNat < 2 ^ 32 := by
  intro ebr hebr
  have hpos := sectorSize_nonneg hwell.sized.least
  obtain ⟨hwords, -⟩ := root_of_wellFormed hwell
  obtain ⟨-, hon, hinside⟩ := hwell.records r rfl
  have hmem : ebr.span ∈ (parser.primaries ++ (parser.logicals rounds r).2).map span := by
    rw [hspans]
    exact List.mem_append_right _ (List.mem_map_of_mem hebr)
  obtain ⟨part, hpart, hspan⟩ := List.mem_map.1 hmem
  have hlt : part.startSector.toNat < 2 ^ 32 := by
    rcases List.mem_append.1 hpart with hpart | hpart
    · exact start_lt_of_primary hpart
    · obtain ⟨key, -, hadded⟩ := recordOf_of_logicals hpos hpart
      exact start_lt_of_added hwell.sized hwell.ulong hadded
  have hstart : part.startSector = ebr.part.startSector + .ofNat ebr.sector :=
    congrArg Prod.fst hspan
  have hword := (words_of_chainOn hon ebr hebr).start
  have hsector := (hinside ebr hebr).2.1
  have hstart' := hwords.start
  have hnum' := hwords.num
  rw [hstart, UInt64.toNat_add, UInt64.toNat_ofNat'] at hlt
  omega

theorem complete_some {r : Partition} (hwell : parser.WellFormed (some r) chain) :
    parser.Complete chain ↔ parser.WithinCut (some r) chain := by
  have hpos := sectorSize_nonneg hwell.sized.least
  obtain ⟨-, hext⟩ := root_of_wellFormed hwell
  have hsearch : ∀ rounds, parser.partitionSearch rounds =
      ((parser.logicals rounds r).1, parser.primaries ++ (parser.logicals rounds r).2) :=
    fun rounds => (partitionSearch_eq hwell).trans (searchExtended_single hpos hext)
  constructor
  · intro ⟨rounds, hret, hspans⟩
    rw [hsearch] at hret hspans
    have hstarts := starts_of_complete hwell hspans
    have hfound := (logicals_chain hwell hstarts).2 rounds (Option.isSome_of_eq_some hret)
    rw [List.map_append, hfound] at hspans
    have hlength := congrArg List.length hspans
    simp only [List.length_append, List.length_map] at hlength
    have hprimary := @length_primaries parser
    have hlogical := List.length_filter_le
      (Ebr.fits parser r.startSector.toUInt32 r.numSectors.toUInt32) chain
    have hfits := List.length_filter_eq_length_iff.1 (show (chain.filter
      (Ebr.fits parser r.startSector.toUInt32 r.numSectors.toUInt32)).length = chain.length by
        omega)
    refine ⟨(primary_iff hwell.sized).1 (hprimary.2.1 (by omega)), fun ebr hebr => ?_, ?_⟩
    · have hsum := hstarts ebr hebr
      exact ((fits_iff hwell hebr (by omega)).1 (hfits ebr hebr)).1
    · intro r' hr' ebr hebr
      obtain rfl := Option.some.inj hr'
      have hsum := hstarts ebr hebr
      exact ((fits_iff hwell hebr (by omega)).1 (hfits ebr hebr)).2
  · intro h
    have hleast : 512 ≤ parser.sectorSize := hwell.sized.least
    have hstarts : ∀ ebr ∈ chain, ebr.sector + ebr.part.startSector.toNat < 2 ^ 32 :=
      fun ebr hebr =>
        calc ebr.sector + ebr.part.startSector.toNat
            ≤ (ebr.sector + ebr.part.startSector.toNat) * parser.sectorSize.toNat :=
              Nat.le_mul_of_pos_right _ (by omega)
          _ < 2 ^ 32 := lt_of_le_of_lt (h.begin r rfl ebr hebr) (Nat.mod_lt _ (by norm_num))
    obtain ⟨⟨rounds, hret⟩, hfound⟩ := logicals_chain hwell hstarts
    refine ⟨rounds, by rw [hsearch]; exact hret, ?_⟩
    rw [hsearch, List.map_append, hfound rounds (Option.isSome_of_eq_some hret),
      map_span_primaries_iff.2 ((primary_iff hwell.sized).2 h.primary)]
    refine congrArg (_ ++ List.map Ebr.span ·) (List.filter_eq_self.2 fun ebr hebr => ?_)
    have hsum := hstarts ebr hebr
    exact (fits_iff hwell hebr (by omega)).2 ⟨h.size ebr hebr, h.begin r rfl ebr hebr⟩

/-- An extended boot record with a partition of 50 sectors. -/
def logicalRecord : Sector :=
  sectorOf [(0x1C2, 0x83), (0x1C6, 1), (0x1CA, 50), (0x1FE, 0x55), (0x1FF, 0xAA)]

/-- A disk whose extended partition begins at sector 1000 with that record. -/
def extendedDisk (boot : Sector) : PartitionParser :=
  ⟨512, 10000000, fun sector => (0, if sector = 0 then boot else logicalRecord), 32⟩

/-- An extended partition of 1000 sectors. -/
def smallBoot : Sector :=
  sectorOf [(0x1C2, 0x05), (0x1C6, 0xE8), (0x1C7, 0x03), (0x1CA, 0xE8), (0x1CB, 0x03),
    (0x1FE, 0x55), (0x1FF, 0xAA)]

/-- An extended partition of four gigabytes. -/
def largeBoot : Sector :=
  sectorOf [(0x1C2, 0x05), (0x1C6, 0xE8), (0x1C7, 0x03), (0x1CC, 0x80), (0x1FE, 0x55),
    (0x1FF, 0xAA)]

/-- A disk is scanned completely where the sizes stay below the cut. -/
theorem complete_iff (hwell : parser.WellFormed root chain) :
    parser.Complete chain ↔ parser.WithinCut root chain := by
  cases root with
  | none => exact complete_none hwell
  | some r => exact complete_some hwell

/-- The record of an extended partition that is long enough for its partition. -/
theorem wellFormed_extendedDisk {boot : Sector} (hsig : hasSignature boot = true)
    (hprimary : (readPartitions boot).filter isLogical = [])
    (hextended : ((readPartitions boot).filter fun part => isExtended part.type.toUInt8) =
      [readPartition boot ptblOffs])
    (hstart : (readPartition boot ptblOffs).startSector = 1000)
    (hnum : 51 ≤ (readPartition boot ptblOffs).numSectors.toNat ∧
      (readPartition boot ptblOffs).numSectors.toNat ≤ 9999000) :
    (extendedDisk boot).WellFormed (some (readPartition boot ptblOffs))
      [⟨1000, (readPartition boot ptblOffs).numSectors.toNat,
        readPartition logicalRecord ptblOffs⟩] where
  sized := ⟨le_refl (512 : Int), (by norm_num : (512 : Int) < 2 ^ 31)⟩
  ulong := rfl
  boot := ⟨rfl, hsig⟩
  primary := fun part hpart hlogical => by
    have hmem := List.mem_filter.2 ⟨hpart, hlogical⟩
    rw [rootPart, extendedDisk] at hmem
    exact absurd (hprimary ▸ hmem) List.not_mem_nil
  extended := hextended
  empty := fun h => absurd h (by simp)
  records := by
    intro r hr
    obtain rfl := Option.some.inj hr
    have hstart' : (readPartition boot ptblOffs).startSector.toNat = 1000 := by rw [hstart]; rfl
    have hentry : (readPartition logicalRecord ptblOffs).startSector.toNat = 1 ∧
        (readPartition logicalRecord ptblOffs).numSectors.toNat = 50 := by decide
    have hlogical : (readPartitions logicalRecord).filter isLogical =
        [readPartition logicalRecord ptblOffs] := by decide
    refine ⟨?_, ⟨hstart'.symm, rfl, .inl ⟨rfl, logicalRecord, ?_, by decide, hlogical,
      by decide⟩⟩, fun ebr hebr => ?_⟩
    · rw [InDisk, hstart']
      change ((_ : Nat) : Int) ≤ 10000000
      omega
    · rw [hstart', extendedDisk]
      exact congrArg (Prod.mk 0) (if_neg (by decide))
    · rw [List.mem_singleton.1 hebr, hstart']
      dsimp only
      omega
  most := (by norm_num : 1 ≤ 100)

theorem complete_iff_small :
    (extendedDisk smallBoot).Complete
        [⟨1000, (readPartition smallBoot ptblOffs).numSectors.toNat,
          readPartition logicalRecord ptblOffs⟩] ↔
      (extendedDisk smallBoot).WithinCut (some (readPartition smallBoot ptblOffs))
        [⟨1000, (readPartition smallBoot ptblOffs).numSectors.toNat,
          readPartition logicalRecord ptblOffs⟩] :=
  complete_iff (wellFormed_extendedDisk (by decide) (by decide) (by decide) (by decide)
    (by decide))

/-- In an extended partition of four gigabytes nothing is found. -/
theorem cut_to_nothing : ∃ root chain, (extendedDisk largeBoot).WellFormed root chain ∧
    ¬ (extendedDisk largeBoot).Complete chain := by
  have hwell := @wellFormed_extendedDisk largeBoot (by decide) (by decide) (by decide)
    (by decide) (by decide)
  refine ⟨_, _, hwell, fun h => ?_⟩
  have hsize := ((complete_some hwell).1 h).size _ (List.mem_singleton_self _)
  exact absurd hsize (by decide)

end MuditaOS.Blkdev.PartitionParser
