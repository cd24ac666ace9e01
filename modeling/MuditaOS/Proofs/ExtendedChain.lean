import MuditaOS.Blkdev.PartitionParser
import MuditaOS.Lib.Patience

/-!
# The chain of extended records

`parse_extended` is a walk along the links of the records: a place is a sector together
with the size that the link to it gave, what it finds there are the entries that pass
the checks, and the counter is its patience. A link names the sector only from the
second record on, so the first one may be that which the empty buffer counts as.
-/

namespace MuditaOS.Blkdev.PartitionParser

open MuditaOS.Lib

structure Key where
  sector : UInt32
  size : UInt64
  /-- The buffer counts as holding the sector, and holds none. -/
  blank : Bool
  deriving DecidableEq

section

variable (parser : PartitionParser) (lba count : UInt32)

/-- The record that the walk sees. -/
def record (key : Key) : Option Sector :=
  if key.blank then none
  else if (parser.read key.sector.toUInt64).1 < 0 then none
  else if hasSignature (parser.read key.sector.toUInt64).2 then
    some (parser.read key.sector.toUInt64).2
  else none

def isLink (part : Partition) : Bool := part.numSectors ≠ 0 && isExtended part.type.toUInt8

def isLogical (part : Partition) : Bool := part.numSectors ≠ 0 && !isExtended part.type.toUInt8

def linkKey (link : Partition) : Key where
  sector := (lba.toUInt64 + link.startSector).toUInt32
  size := parser.toULong (link.numSectors * parser.size64)
  blank := false

def nextKey (key : Key) : Option Key :=
  (parser.record key).bind fun buf =>
    ((readPartitions buf).find? isLink).map (parser.linkKey lba)

def accepts (key : Key) (entry : Partition × Nat) : Bool :=
  isLogical entry.1 && !parser.looksStrange lba count key.sector key.size entry.1

/-- The entries of a record that are added, with their indices. -/
def accepted (key : Key) : List (Partition × Nat) :=
  ((parser.record key).elim [] fun buf => (readPartitions buf).zipIdx).filter
    (parser.accepts lba count key)

def addedPart (key : Key) (entry : Partition × Nat) : Partition :=
  { entry.1 with
    physicalNumber := entry.2 + 1
    startSector := entry.1.startSector + key.sector.toUInt64 }

def added (key : Key) : List Partition :=
  (parser.accepted lba count key).map (addedPart key)

def adds (key : Key) : Bool := !(parser.accepted lba count key).isEmpty

def startKey : Key where
  sector := lba
  size := parser.toULong (count.toUInt64 * parser.size64)
  blank := lba = 0xFFFFFFFF

/-- The place that the links lead to behind `n` records. -/
def chain (n : Nat) : Option Key :=
  place (parser.nextKey lba) (some (parser.startKey lba count)) n

def Scans (n : Nat) : Prop :=
  Visits (parser.nextKey lba) (parser.adds lba count) maxParts
    (some (parser.startKey lba count)) n

def triesLeft (n : Nat) : Nat :=
  patienceLeft (parser.nextKey lba) (parser.adds lba count) maxParts
    (some (parser.startKey lba count)) n

def foundBefore (n : Nat) : List Partition :=
  (List.range n).flatMap fun m => (parser.chain lba count m).elim [] (parser.added lba count)

/-- What the last read returned. -/
def errorBefore : Nat → Int
  | 0 => 0
  | n + 1 => (parser.chain lba count n).elim (errorBefore n) fun key =>
      if key.blank then errorBefore n else (parser.read key.sector.toUInt64).1

/-- What the state of the loop says of the walk. -/
structure Follows (key : Option Key) (tries : Nat) (parts : List Partition) (error : Int)
    (w : Walk) : Prop where
  left : w.left = key.isNone
  tryCount : w.tryCount = tries
  found : w.parts = parts
  ret : w.error = error
  place : ∀ k, key = some k → w.currentSector = k.sector ∧ w.thisSize = k.size ∧
    if k.blank then w.sectorInBuf = k.sector ∧ hasSignature w.sectBuf = false
    else w.sectorInBuf = k.sector →
      0 ≤ w.error ∧ parser.read k.sector.toUInt64 = (w.error, w.sectBuf)

end

variable {parser : PartitionParser} {lba count : UInt32} {key : Key} {w : Walk}
  {tries n m : Nat} {parts : List Partition} {error : Int}

/-! ## A record -/

theorem mem_accepted {entry : Partition × Nat} : entry ∈ parser.accepted lba count key ↔
    ∃ buf, parser.record key = some buf ∧ entry ∈ (readPartitions buf).zipIdx ∧
      parser.accepts lba count key entry = true := by
  rw [accepted, List.mem_filter]
  cases parser.record key with
  | none =>
      refine iff_of_false (fun h => List.not_mem_nil h.1) ?_
      intro ⟨_, hnone, _⟩
      cases hnone
  | some buf =>
      constructor
      · intro ⟨hentry, haccepts⟩
        exact ⟨buf, rfl, hentry, haccepts⟩
      · intro ⟨_, hbuf, hentry, haccepts⟩
        cases hbuf
        exact ⟨hentry, haccepts⟩

theorem examineEntry_eq {s : Entries} {entry : Partition × Nat} :
    parser.examineEntry lba count key.sector key.size s entry =
      ⟨s.extendedPartNum.or (if isLink entry.1 then some entry.2 else none),
        s.parts ++ if parser.accepts lba count key entry then [addedPart key entry] else [],
        if parser.accepts lba count key entry then maxParts else s.tryCount⟩ := by
  obtain ⟨part, partitionNum⟩ := entry
  rw [examineEntry, accepts]
  by_cases hempty : part.numSectors = 0
  · simp [hempty, isLink, isLogical]
  · by_cases hext : isExtended part.type.toUInt8 = true
    · simp [hempty, hext, isLink, isLogical]
    · by_cases hstrange : parser.looksStrange lba count key.sector key.size part = true
      · simp [hempty, hext, hstrange, isLink, isLogical]
      · simp [hempty, hext, hstrange, isLink, isLogical, addedPart]

theorem foldl_examineEntry {es : List (Partition × Nat)} {s : Entries} :
    es.foldl (parser.examineEntry lba count key.sector key.size) s =
      ⟨s.extendedPartNum.or ((es.find? fun entry => isLink entry.1).map Prod.snd),
        s.parts ++ (es.filter (parser.accepts lba count key)).map (addedPart key),
        if (es.filter (parser.accepts lba count key)).isEmpty then s.tryCount
        else maxParts⟩ := by
  induction es generalizing s with
  | nil => simp
  | cons entry es ih =>
      rw [List.foldl_cons, ih, examineEntry_eq, List.find?_cons, List.filter_cons]
      cases isLink entry.1 <;> cases parser.accepts lba count key entry <;> simp

/-- The index that was kept is that of the first link. -/
theorem link_of_index {parts : List Partition} :
    ((parts.zipIdx.find? fun entry => isLink entry.1).map Prod.snd).bind (parts[·]?) =
      parts.find? isLink := by
  have hfst : parts.find? isLink =
      (parts.zipIdx.find? fun entry => isLink entry.1).map Prod.fst := by
    conv_lhs => rw [← List.zipIdx_map_fst 0 parts, List.find?_map]
    rfl
  rw [hfst]
  cases hfind : parts.zipIdx.find? fun entry => isLink entry.1 with
  | none => rfl
  | some entry =>
      exact List.mem_zipIdx_iff_getElem?.1 (List.mem_of_find?_eq_some hfind)

/-- What a look at the record in the buffer comes to. -/
theorem examine_eq (hsector : w.currentSector = key.sector) (hsize : w.thisSize = key.size)
    (hrec : parser.record key = some w.sectBuf) (hsig : hasSignature w.sectBuf = true) :
    parser.examine lba count w =
      let w := { w with
        parts := w.parts ++ parser.added lba count key
        tryCount := if parser.adds lba count key then maxParts else w.tryCount }
      match parser.nextKey lba key with
      | none => { w with left := true }
      | some next => { w with currentSector := next.sector, thisSize := next.size } := by
  have hnext : parser.nextKey lba key =
      ((readPartitions w.sectBuf).find? isLink).map (parser.linkKey lba) := by
    rw [nextKey, hrec, Option.bind_some]
  have hadded : parser.accepted lba count key =
      (readPartitions w.sectBuf).zipIdx.filter (parser.accepts lba count key) := by
    rw [accepted, hrec, Option.elim_some]
  rw [examine, hsig, Bool.not_true, if_neg Bool.false_ne_true, hsector, hsize, hnext]
  dsimp only
  rw [foldl_examineEntry, Option.none_or, link_of_index, ← hadded]
  cases hfind : (readPartitions w.sectBuf).find? isLink <;>
    cases hempty : (parser.accepted lba count key).isEmpty <;>
    simp [adds, added, linkKey, hempty]

/-- A sector that is not blank is in the buffer then, or its read has failed. -/
theorem load_eq (hblank : key.blank = false) (h : Follows parser (some key) tries parts error w) :
    (parser.load w).left = decide ((parser.read key.sector.toUInt64).1 < 0) ∧
      (parser.load w).error = (parser.read key.sector.toUInt64).1 ∧
      (0 ≤ (parser.read key.sector.toUInt64).1 →
        parser.load w = { w with
          error := (parser.read key.sector.toUInt64).1
          sectBuf := (parser.read key.sector.toUInt64).2
          sectorInBuf := key.sector }) ∧
      (parser.load w).tryCount = w.tryCount ∧ (parser.load w).parts = w.parts := by
  obtain ⟨hsector, hsize, hbuf⟩ := h.place key rfl
  have hleft := h.left
  rw [hblank, if_neg Bool.false_ne_true] at hbuf
  rw [load, hsector]
  by_cases hin : w.sectorInBuf = key.sector
  · obtain ⟨herr, hread⟩ := hbuf hin
    rw [if_neg (not_not_intro hin), hread]
    refine ⟨hleft.trans (decide_eq_false (not_lt.2 herr)).symm, rfl, fun _ => ?_, rfl, rfl⟩
    cases w
    dsimp only at hin hsector ⊢
    rw [hin, hsector]
  · rw [if_pos hin]
    dsimp only
    split
    · next herr =>
        exact ⟨(decide_eq_true herr).symm, rfl, fun hnot => absurd herr (not_lt.2 hnot), rfl, rfl⟩
    · next herr =>
        exact ⟨hleft.trans (decide_eq_false herr).symm, rfl, fun _ => rfl, rfl, rfl⟩

/-- Without a record the walk ends, and finds nothing. -/
theorem ends_of_record (h : parser.record key = none) :
    parser.nextKey lba key = none ∧ parser.adds lba count key = false ∧
      parser.added lba count key = [] := by
  refine ⟨by rw [nextKey, h, Option.bind_none], ?_, ?_⟩
  · rw [adds, accepted, h]
    rfl
  · rw [added, accepted, h]
    rfl

theorem follows_left (hrec : parser.record key = none) (hleft : w.left = true)
    (htries : w.tryCount = tries) (hparts : w.parts = parts) (herror : w.error = error) :
    Follows parser (parser.nextKey lba key)
      (if parser.adds lba count key then maxParts else tries)
      (parts ++ parser.added lba count key) error w := by
  obtain ⟨hnext, hadds, hadded⟩ := @ends_of_record parser lba count key hrec
  rw [hnext, hadds, hadded, if_neg Bool.false_ne_true, List.append_nil]
  exact ⟨hleft, htries, hparts, herror, fun k hk => absurd hk (by simp)⟩

theorem nextKey_blank {next : Key} (h : parser.nextKey lba key = some next) :
    next.blank = false := by
  rw [nextKey, Option.bind_eq_some_iff] at h
  obtain ⟨buf, -, hlink⟩ := h
  obtain ⟨link, -, rfl⟩ := Option.map_eq_some_iff.1 hlink
  rfl

/-- A round looks at the place, and goes where its link leads. -/
theorem round_follows (h : Follows parser (some key) tries parts error w) (htries : tries ≠ 0) :
    ∃ w', parser.round lba count w = some w' ∧
      Follows parser (parser.nextKey lba key)
        (if parser.adds lba count key then maxParts else tries - 1)
        (parts ++ parser.added lba count key)
        (if key.blank then error else (parser.read key.sector.toUInt64).1) w' := by
  obtain ⟨hsector, hsize, hbuf⟩ := h.place key rfl
  have hgo : (w.left || decide (w.tryCount = 0)) = false := by
    rw [h.left, h.tryCount, decide_eq_false htries]
    rfl
  rw [round, hgo, if_neg Bool.false_ne_true]
  dsimp only
  have hspent : Follows parser (some key) (tries - 1) parts error
      { w with tryCount := w.tryCount - 1 } :=
    ⟨h.left, by rw [h.tryCount], h.found, h.ret, h.place⟩
  cases hblank : key.blank with
  | true =>
      obtain ⟨hin, hsig⟩ : w.sectorInBuf = key.sector ∧ hasSignature w.sectBuf = false := by
        rwa [hblank, if_pos rfl] at hbuf
      have hrec : parser.record key = none := by rw [record, if_pos hblank]
      have hload : parser.load { w with tryCount := w.tryCount - 1 } =
          { w with tryCount := w.tryCount - 1 } := by
        rw [load, if_neg (not_not_intro (hin.trans hsector.symm))]
      rw [hload, if_neg (by rw [h.left]; exact Bool.false_ne_true), examine, hsig, Bool.not_false,
        if_pos rfl]
      exact ⟨_, rfl, follows_left hrec rfl hspent.tryCount h.found h.ret⟩
  | false =>
      obtain ⟨hleft, herr, hload, htry, hparts⟩ := load_eq hblank hspent
      rw [if_neg Bool.false_ne_true]
      by_cases hread : (parser.read key.sector.toUInt64).1 < 0
      · rw [decide_eq_true hread] at hleft
        have hrec : parser.record key = none := by
          rw [record, if_neg (by rw [hblank]; exact Bool.false_ne_true), if_pos hread]
        rw [if_pos hleft]
        exact ⟨_, rfl, follows_left hrec hleft (htry.trans hspent.tryCount)
          (hparts.trans h.found) herr⟩
      · rw [decide_eq_false hread] at hleft
        rw [if_neg (by rw [hleft]; exact Bool.false_ne_true), hload (not_lt.1 hread)]
        by_cases hsig : hasSignature (parser.read key.sector.toUInt64).2 = true
        · have hrec : parser.record key = some (parser.read key.sector.toUInt64).2 := by
            rw [record, if_neg (by rw [hblank]; exact Bool.false_ne_true), if_neg hread,
              if_pos hsig]
          have hexamine := @examine_eq parser lba count key { w with
            tryCount := w.tryCount - 1
            error := (parser.read key.sector.toUInt64).1
            sectBuf := (parser.read key.sector.toUInt64).2
            sectorInBuf := key.sector } hsector hsize hrec hsig
          rw [hexamine]
          dsimp only
          refine ⟨_, rfl, ?_⟩
          cases hnext : parser.nextKey lba key with
          | none =>
              refine ⟨rfl, ?_, congrArg (· ++ _) h.found, rfl, fun k hk => absurd hk (by simp)⟩
              rw [h.tryCount]
          | some next =>
              refine ⟨h.left, ?_, congrArg (· ++ _) h.found, rfl, fun k hk => ?_⟩
              · rw [h.tryCount]
              · obtain rfl := Option.some.inj hk
                refine ⟨rfl, rfl, ?_⟩
                rw [nextKey_blank hnext, if_neg Bool.false_ne_true]
                intro (heq : key.sector = next.sector)
                rw [← heq]
                exact ⟨not_lt.1 hread, rfl⟩
        · have hrec : parser.record key = none := by
            rw [record, if_neg (by rw [hblank]; exact Bool.false_ne_true), if_neg hread,
              if_neg hsig]
          rw [examine, Bool.eq_false_iff.2 hsig, Bool.not_false, if_pos rfl]
          exact ⟨_, rfl, follows_left hrec rfl hspent.tryCount h.found rfl⟩

/-! ## The whole walk -/

theorem follows_start :
    Follows parser (some (parser.startKey lba count)) maxParts parts 0
      (parser.startWalk lba count parts) := by
  refine ⟨rfl, rfl, rfl, rfl, fun k hk => ?_⟩
  obtain rfl := Option.some.inj hk
  refine ⟨rfl, rfl, ?_⟩
  rw [startKey, startWalk]
  dsimp only
  by_cases hlba : lba = 0xFFFFFFFF
  · rw [decide_eq_true hlba, if_pos rfl]
    exact ⟨hlba.symm, by decide⟩
  · rw [decide_eq_false hlba, if_neg Bool.false_ne_true]
    exact fun h => absurd h.symm hlba

theorem foundBefore_succ (h : parser.chain lba count n = some key) :
    parser.foundBefore lba count (n + 1) =
      parser.foundBefore lba count n ++ parser.added lba count key := by
  rw [foundBefore, List.range_succ, List.flatMap_append, List.flatMap_singleton, h,
    Option.elim_some, foundBefore]

/-- As long as it goes on, the loop follows the walk. -/
theorem walk_follows (h : ∀ m < n, parser.Scans lba count m) :
    Follows parser (parser.chain lba count n) (parser.triesLeft lba count n)
      (parts ++ parser.foundBefore lba count n) (parser.errorBefore lba count n)
      (runFor (parser.round lba count) n (parser.startWalk lba count parts)) := by
  induction n with
  | zero =>
      rw [foundBefore, List.range_zero, List.flatMap_nil, List.append_nil]
      exact follows_start
  | succ n ih =>
      obtain ⟨hplace, hleft⟩ := h n (Nat.lt_succ_self n)
      obtain ⟨key, hkey⟩ := Option.isSome_iff_exists.1 hplace
      have hfollows := ih fun m hm => h m (by omega)
      rw [chain, hkey] at hfollows
      obtain ⟨w', hround, hw'⟩ := round_follows hfollows (hleft n (le_refl n))
      rw [runFor_succ hround, foundBefore_succ hkey, ← List.append_assoc]
      have hchain : parser.chain lba count (n + 1) = parser.nextKey lba key := by
        rw [chain, place, hkey, Option.bind_some]
      have htries : parser.triesLeft lba count (n + 1) =
          if parser.adds lba count key then maxParts else parser.triesLeft lba count n - 1 := by
        rw [triesLeft, patienceLeft, foundAt_of_place hkey]
        rfl
      have herror : parser.errorBefore lba count (n + 1) =
          if key.blank then parser.errorBefore lba count n
          else (parser.read key.sector.toUInt64).1 := by
        rw [errorBefore, chain, hkey, Option.elim_some]
      rw [hchain, htries, herror]
      exact hw'

/-- The loop ends where the walk does. -/
theorem round_eq_none (h : ∀ m < n, parser.Scans lba count m) :
    parser.round lba count
        (runFor (parser.round lba count) n (parser.startWalk lba count parts)) = none ↔
      ¬ parser.Scans lba count n := by
  have hfollows := @walk_follows parser lba count n parts h
  have hscans : parser.Scans lba count n ↔
      (parser.chain lba count n).isSome ∧ parser.triesLeft lba count n ≠ 0 := by
    refine and_congr_right fun _ => ⟨fun hall => hall n (le_refl n), fun hn m hm => ?_⟩
    by_cases hlast : m = n
    · rwa [hlast]
    · exact (h m (by omega)).2 m (le_refl m)
  rw [hscans]
  cases hkey : parser.chain lba count n with
  | none =>
      have hleft := hfollows.left
      rw [hkey, Option.isNone_none] at hleft
      rw [round, hleft, Bool.true_or, if_pos rfl]
      exact iff_of_true rfl fun hsome => absurd hsome.1 (by simp)
  | some key =>
      rw [hkey] at hfollows
      by_cases htries : parser.triesLeft lba count n = 0
      · rw [round, hfollows.tryCount, decide_eq_true htries, Bool.or_true, if_pos rfl]
        exact iff_of_true rfl fun hsome => hsome.2 htries
      · obtain ⟨w', hround, -⟩ := round_follows hfollows htries
        rw [hround]
        exact iff_of_false (by simp) (not_not_intro ⟨rfl, htries⟩)

theorem exists_rounds {rounds : Nat} : ∃ n ≤ rounds, (∀ m < n, parser.Scans lba count m) ∧
    (n = rounds ∨ ¬ parser.Scans lba count n) := by
  classical
  by_cases hall : ∃ m, m < rounds ∧ ¬ parser.Scans lba count m
  · obtain ⟨hlt, hend⟩ := Nat.find_spec hall
    refine ⟨Nat.find hall, hlt.le, fun m hm => ?_, .inr hend⟩
    exact Classical.byContradiction fun hnot => Nat.find_min hall hm ⟨hm.trans hlt, hnot⟩
  · refine ⟨rounds, le_refl _, fun m hm => ?_, .inl rfl⟩
    exact Classical.byContradiction fun hnot => hall ⟨m, hm, hnot⟩

/-- Some rounds of `parse_extended` are a part of the walk, or all of it. -/
theorem parseExtended_eq {rounds : Nat} (hsize : 0 ≤ parser.sectorSize) :
    ∃ n ≤ rounds, (∀ m < n, parser.Scans lba count m) ∧
      (n = rounds ∨ ¬ parser.Scans lba count n) ∧
      (parser.parseExtended lba count rounds parts).2 =
        parts ++ parser.foundBefore lba count n ∧
      ((parser.parseExtended lba count rounds parts).1 = none ∧ parser.Scans lba count n ∨
        (parser.parseExtended lba count rounds parts).1 =
          some (parser.errorBefore lba count n) ∧ ¬ parser.Scans lba count n) := by
  obtain ⟨n, hn, hscans, hend⟩ := @exists_rounds parser lba count rounds
  have hfollows := @walk_follows parser lba count n parts hscans
  have hround := @round_eq_none parser lba count n parts hscans
  have hrun : runFor (parser.round lba count) rounds (parser.startWalk lba count parts) =
      runFor (parser.round lba count) n (parser.startWalk lba count parts) := by
    rcases hend with rfl | hend
    · rfl
    · exact runFor_of_le (hround.2 hend) hn
  refine ⟨n, hn, hscans, hend, ?_⟩
  rw [parseExtended, if_neg (not_lt.2 hsize)]
  dsimp only
  rw [hrun]
  refine ⟨hfollows.found, ?_⟩
  by_cases hn : parser.Scans lba count n
  · refine .inl ⟨if_neg ?_, hn⟩
    rw [Option.isNone_iff_eq_none, hround]
    exact not_not_intro hn
  · refine .inr ⟨?_, hn⟩
    rw [if_pos (Option.isNone_iff_eq_none.2 (hround.2 hn)), hfollows.ret]

/-- A sector of zeros, but for some bytes. -/
def sectorOf (bytes : List (Nat × UInt8)) : Sector := fun i => (bytes.lookup i).getD 0

end MuditaOS.Blkdev.PartitionParser
