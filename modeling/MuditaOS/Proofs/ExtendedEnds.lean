import Mathlib.Data.List.Sigma
import MuditaOS.Proofs.ExtendedChain

/-!
# Whether a scan of the chain ends

The counter of `parse_extended` is set back at each partition added, so it is no bound
on the rounds of a chain that leads back to a record with a partition. A chain that
never does, or only after a hundred records in a row without one, is read within a
hundred rounds for each such record, and none of its partitions is added twice.
-/

namespace MuditaOS.Blkdev.PartitionParser

open MuditaOS.Lib

section

variable (parser : PartitionParser) (lba count : UInt32)

/-- The state of the loop after some rounds. -/
def walkAfter (m : Nat) : Walk :=
  runFor (parser.round lba count) m (parser.startWalk lba count [])

/-- How many of the first rounds read a sector. -/
def reads (rounds : Nat) : Nat :=
  ((Finset.range rounds).filter fun m =>
    (parser.round lba count (parser.walkAfter lba count m)).isSome = true ∧
      (parser.walkAfter lba count m).sectorInBuf ≠
        (parser.walkAfter lba count m).currentSector).card

/-- What a round adds, by the sector of the record and the number of the entry. -/
def addedIn (m : Nat) : List (UInt32 × Int) :=
  let w := parser.walkAfter lba count m
  (((parser.round lba count w).getD w).parts.drop w.parts.length).map fun part =>
    (w.currentSector, part.physicalNumber)

/-- The sectors with a record that holds a partition. -/
def partitionRecords : Set UInt32 :=
  {sector | ∃ buf, parser.record ⟨sector, 0, false⟩ = some buf ∧
    ∃ part ∈ readPartitions buf, isLogical part = true}

/-- The scan returns, reads no more than a hundred sectors for each record with a
partition, and adds no entry twice. -/
def EndsBounded : Prop :=
  (∃ rounds, (parser.parseExtended lba count rounds []).1.isSome = true) ∧
    (∀ rounds, parser.reads lba count rounds ≤
      maxParts * (parser.partitionRecords.ncard + 1)) ∧
    ∀ rounds, ((List.range rounds).flatMap (parser.addedIn lba count)).Nodup

/-- Where the chain comes back to a record that adds a partition, a hundred records in a
row before that have added none. -/
def ChainNoReturn : Prop :=
  NoReturn (parser.nextKey lba) (parser.adds lba count) maxParts
    (some (parser.startKey lba count))

end

variable {parser : PartitionParser} {lba count : UInt32} {key : Key} {n m : Nat}

theorem finite_uint32 : Finite UInt32 :=
  Finite.of_injective UInt32.toFin fun _ _ => UInt32.toFin_inj.1

instance : Finite Key := by
  have h32 := finite_uint32
  have h64 : Finite UInt64 := Finite.of_injective UInt64.toFin fun _ _ => UInt64.toFin_inj.1
  refine Finite.of_injective (fun key : Key => (key.sector, key.size, key.blank)) ?_
  intro ⟨_, _, _⟩ ⟨_, _, _⟩ h
  simp only [Prod.mk.injEq] at h
  obtain ⟨rfl, rfl, rfl⟩ := h
  rfl

/-! ## Rounds and places -/

/-- Where the walk has ended, so has the loop. -/
theorem scans_of_round (h : (parser.round lba count (parser.walkAfter lba count m)).isSome) :
    parser.Scans lba count m := by
  obtain ⟨n, hn, hscans, hend⟩ := @exists_rounds parser lba count m
  have hround := @round_eq_none parser lba count n [] hscans
  rcases hend with rfl | hend
  · refine Classical.byContradiction fun hnot => ?_
    rw [walkAfter, hround.2 hnot] at h
    exact Bool.false_ne_true h
  · rw [walkAfter, runFor_of_le (hround.2 hend) hn, hround.2 hend] at h
    exact absurd h Bool.false_ne_true

theorem addedIn_eq_nil (h : ¬ parser.Scans lba count m) : parser.addedIn lba count m = [] := by
  have hround : parser.round lba count (parser.walkAfter lba count m) = none := by
    rw [← Option.isNone_iff_eq_none, ← Option.isSome_eq_false_iff]
    exact Bool.eq_false_iff.2 fun hsome => h (scans_of_round hsome)
  rw [addedIn, hround, Option.getD_none, List.drop_length, List.map_nil]

theorem addedIn_eq (h : parser.Scans lba count m) (hkey : parser.chain lba count m = some key) :
    parser.addedIn lba count m =
      (parser.accepted lba count key).map fun entry => (key.sector, (entry.2 : Int) + 1) := by
  have hfollows := @walk_follows parser lba count m [] fun m' hm => h.of_le hm.le
  rw [hkey] at hfollows
  obtain ⟨w', hround, hw'⟩ := round_follows hfollows (h.2 m (le_refl m))
  have hsector := (hfollows.place key rfl).1
  have hparts := hfollows.found
  rw [addedIn, walkAfter, hround, Option.getD_some, hw'.found, hparts, hsector, List.drop_left,
    added, List.map_map]
  rfl

/-! ## The three bounds -/

theorem nextKey_congr {a b : Key} (h : (a.sector, a.blank) = (b.sector, b.blank)) :
    parser.nextKey lba a = parser.nextKey lba b := by
  obtain ⟨hsector, hblank⟩ := Prod.mk.inj h
  rw [nextKey, nextKey, record, record, hsector, hblank]

theorem adds_eq_true : parser.adds lba count key = true ↔
    ∃ entry, entry ∈ parser.accepted lba count key := by
  rw [adds, Bool.not_eq_true', List.isEmpty_eq_false_iff_exists_mem]

/-- Only a record that was read holds partitions to add. -/
theorem mem_partitionRecords (h : parser.adds lba count key = true) :
    key.blank = false ∧ key.sector ∈ parser.partitionRecords := by
  obtain ⟨entry, hentry⟩ := adds_eq_true.1 h
  obtain ⟨buf, hrec, hmem, haccepts⟩ := mem_accepted.1 hentry
  have hblank : key.blank = false := by
    rw [record] at hrec
    split at hrec
    · cases hrec
    · next hblank => exact Bool.eq_false_iff.2 hblank
  refine ⟨hblank, buf, ?_, entry.1, List.fst_mem_of_mem_zipIdx hmem, ?_⟩
  · rw [← hrec, record, record, hblank]
  · rw [accepts, Bool.and_eq_true] at haccepts
    exact haccepts.1

theorem finds_le (h : parser.ChainNoReturn lba count)
    (hscans : ∀ m < n, parser.Scans lba count m) :
    findsBefore (parser.nextKey lba) (parser.adds lba count)
      (some (parser.startKey lba count)) n ≤ parser.partitionRecords.ncard := by
  have h32 := finite_uint32
  have hinj : Function.Injective fun sector : UInt32 => (sector, false) :=
    fun _ _ h => congrArg Prod.fst h
  rw [← Set.ncard_image_of_injective _ hinj]
  refine findsBefore_le (β := UInt32 × Bool) (fun _ _ => nextKey_congr) h hscans
    (Set.toFinite _) fun key hadds => ?_
  obtain ⟨hblank, hmem⟩ := mem_partitionRecords hadds
  exact ⟨key.sector, hmem, by rw [hblank]⟩

theorem reads_le (h : parser.ChainNoReturn lba count) {rounds : Nat} :
    parser.reads lba count rounds ≤ maxParts * (parser.partitionRecords.ncard + 1) := by
  obtain ⟨n, -, hscans, hend⟩ := @exists_rounds parser lba count rounds
  calc parser.reads lba count rounds ≤ (Finset.range n).card := by
        refine Finset.card_le_card fun m hm => ?_
        obtain ⟨hlt, hround, -⟩ := Finset.mem_filter.1 hm
        have hm := scans_of_round hround
        rw [Finset.mem_range] at hlt ⊢
        rcases hend with rfl | hend
        · exact hlt
        · exact Nat.lt_of_not_le fun hle => hend (hm.of_le hle)
    _ = n := Finset.card_range n
    _ ≤ n + parser.triesLeft lba count n := Nat.le_add_right _ _
    _ ≤ maxParts * (findsBefore (parser.nextKey lba) (parser.adds lba count)
          (some (parser.startKey lba count)) n + 1) := length_add_left_le hscans
    _ ≤ maxParts * (parser.partitionRecords.ncard + 1) :=
        Nat.mul_le_mul_left _ (Nat.succ_le_succ (finds_le h hscans))

theorem nodup_addedIn : (parser.addedIn lba count m).Nodup := by
  by_cases hm : parser.Scans lba count m
  · obtain ⟨key, hkey⟩ := Option.isSome_iff_exists.1 hm.1
    have hindices : ((parser.accepted lba count key).map Prod.snd).Nodup := by
      refine (List.Sublist.map _ List.filter_sublist).nodup ?_
      cases parser.record key with
      | none => exact List.nodup_nil
      | some buf => exact List.nodup_zipIdx_map_snd _
    have hnodup := hindices.map (f := fun i : Nat => (key.sector, (i : Int) + 1))
      fun i j (h : (_, _) = (_, _)) => by simpa using h
    rw [addedIn_eq hm hkey]
    rwa [List.map_map] at hnodup
  · rw [addedIn_eq_nil hm]
    exact List.nodup_nil

/-- An entry added in a round is of the record at that place. -/
theorem mem_addedIn {added : UInt32 × Int} (h : added ∈ parser.addedIn lba count m) :
    ∃ key, parser.Scans lba count m ∧ parser.chain lba count m = some key ∧
      added.1 = key.sector ∧ parser.adds lba count key = true := by
  by_cases hm : parser.Scans lba count m
  · obtain ⟨key, hkey⟩ := Option.isSome_iff_exists.1 hm.1
    rw [addedIn_eq hm hkey, List.mem_map] at h
    obtain ⟨entry, hentry, rfl⟩ := h
    exact ⟨key, hm, hkey, rfl, adds_eq_true.2 ⟨entry, hentry⟩⟩
  · rw [addedIn_eq_nil hm] at h
    exact absurd h List.not_mem_nil

theorem disjoint_addedIn (h : parser.ChainNoReturn lba count) (hlt : n < m) :
    (parser.addedIn lba count n).Disjoint (parser.addedIn lba count m) := by
  intro added hn hm
  obtain ⟨a, -, ha, hsector, hadds⟩ := mem_addedIn hn
  obtain ⟨b, hscans, hb, hsector', hadds'⟩ := mem_addedIn hm
  refine mark_ne_of_noReturn (fun _ _ => nextKey_congr) h hlt hscans ha hb hadds' ?_
  rw [(mem_partitionRecords hadds).1, (mem_partitionRecords hadds').1, ← hsector, hsector']

theorem returns_iff (hsize : 0 ≤ parser.sectorSize) :
    (∃ rounds, (parser.parseExtended lba count rounds []).1.isSome = true) ↔
      ∃ n, ¬ parser.Scans lba count n := by
  constructor
  · intro ⟨rounds, hreturns⟩
    obtain ⟨n, -, -, -, -, hret⟩ := @parseExtended_eq parser lba count [] rounds hsize
    rcases hret with ⟨hnone, -⟩ | ⟨-, hend⟩
    · rw [hnone] at hreturns
      exact absurd hreturns Bool.false_ne_true
    · exact ⟨n, hend⟩
  · intro ⟨n, hend⟩
    obtain ⟨n', hle, -, hn', -, hret⟩ := @parseExtended_eq parser lba count [] n hsize
    refine ⟨n, ?_⟩
    rcases hret with ⟨-, hscans⟩ | ⟨hsome, -⟩
    · rcases hn' with rfl | hnot
      · exact absurd hscans hend
      · exact absurd hscans hnot
    · rw [hsome, Option.isSome_some]

theorem endsBounded_iff (hsize : 0 ≤ parser.sectorSize) :
    parser.EndsBounded lba count ↔ parser.ChainNoReturn lba count := by
  rw [EndsBounded, returns_iff hsize]
  constructor
  · rintro ⟨hends, -⟩
    exact ends_iff.1 hends
  · intro h
    refine ⟨ends_iff.2 h, fun rounds => reads_le h, fun rounds => List.nodup_flatMap.2 ⟨?_, ?_⟩⟩
    · exact fun m _ => nodup_addedIn
    · exact List.pairwise_lt_range.imp fun hlt => disjoint_addedIn h hlt

/-- A record with a partition and a link to itself. -/
def selfLinked : Sector :=
  sectorOf [(0x1C2, 0x83), (0x1C6, 1), (0x1CA, 50), (0x1D2, 0x05), (0x1DA, 0xE8),
    (0x1DB, 0x03), (0x1FE, 0x55), (0x1FF, 0xAA)]

/-- A disk of such records. -/
def selfLinkedDisk : PartitionParser := ⟨512, 2000, fun _ => (0, selfLinked), 32⟩

theorem endsBounded_iff_selfLinked :
    selfLinkedDisk.EndsBounded 1000 1000 ↔ selfLinkedDisk.ChainNoReturn 1000 1000 :=
  endsBounded_iff (by decide)

theorem scans_forever : ¬ selfLinkedDisk.EndsBounded 1000 1000 := by
  rintro ⟨hends, -⟩
  obtain ⟨n, hend⟩ := (returns_iff (by decide)).1 hends
  have hback : selfLinkedDisk.chain 1000 1000 1 =
      some (selfLinkedDisk.startKey 1000 1000) := by decide
  have hadds : selfLinkedDisk.adds 1000 1000 (selfLinkedDisk.startKey 1000 1000) = true := by
    decide
  refine hend (visits_of_return Nat.zero_lt_one rfl hback hadds ?_)
  exact visits_iff.2 ⟨Option.isSome_of_eq_some hback,
    fun g hg _ => absurd hg (by rw [maxParts]; omega)⟩

end MuditaOS.Blkdev.PartitionParser
