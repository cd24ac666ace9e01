import MuditaOS.Lib.Paging
import MuditaOS.Proofs.FileTransfers

/-!
# A download

The chunks of a file are its pages. A request that asks for the next one is served, and every
other changes nothing; behind the last page there is no next one. All this is counted in 32
bits: a file of which the size, rounded up to whole chunks, has more is not served to its end.
-/

namespace MuditaOS.Desktop

open MuditaOS.Lib FileOperations Transfers

variable {δ : Type}

/-- A state, and the chunks of the file that have been served. -/
structure Download (δ : Type) where
  ops : FileOperations δ
  served : Nat

/-- How many chunks so many bytes make. -/
def chunksOf (size : Nat) : Nat := (size + (chunkSize.toNat - 1)) / chunkSize.toNat

namespace Download

section Requests

variable (crc : Crc32 δ) (base64 : Base64) (hash : List UInt8 → List UInt8)
  (bytes : List UInt8) (rxID : UInt32) (s : Download δ)

/-- The request is for the next chunk, and there is one. -/
def InTurn (chunkNo : UInt32) : Prop :=
  chunkNo.toNat = s.served + 1 ∧ chunkNo.toNat ≤ chunksOf bytes.length

instance {chunkNo : UInt32} : Decidable (s.InTurn bytes chunkNo) :=
  inferInstanceAs (Decidable (_ ∧ _))

/-- The next page, with the checksum where it is the last; or nothing. -/
def due (chunkNo : UInt32) : List UInt8 × List UInt8 :=
  if s.InTurn bytes chunkNo then
    (encodeDataAsBase64 base64 (page bytes chunkSize.toNat s.served),
      if chunkNo.toNat = chunksOf bytes.length then hash bytes else [])
  else ([], [])

def step (s : Download δ) (chunkNo : UInt32) : Download δ where
  ops := (s.ops.getDataForReceiveID crc base64 rxID chunkNo (.content bytes)).2
  served := if s.InTurn bytes chunkNo then s.served + 1 else s.served

/-- What is due is served, and a request out of turn changes nothing. -/
def Delivers (chunkNo : UInt32) : Prop :=
  (s.ops.getDataForReceiveID crc base64 rxID chunkNo (.content bytes)).1 =
      .ok (s.due base64 hash bytes chunkNo) ∧
    (¬ s.InTurn bytes chunkNo →
      (s.ops.getDataForReceiveID crc base64 rxID chunkNo (.content bytes)).2 = s.ops)

end Requests

end Download

/-! ## The context of a download -/

section Context

variable {crc : Crc32 δ} {base64 : Base64} {n : UInt32} {k : Nat} {ctx : FileContext δ}
  {bytes : List UInt8} {rxID chunkNo : UInt32} {ops : FileOperations δ}

/-- So many chunks of a file of this size have been read. -/
structure Reaches (n : UInt32) (k : Nat) (ctx : FileContext δ) : Prop where
  size : ctx.size = n
  chunkSize : ctx.chunkSize = FileOperations.chunkSize
  offset : ctx.offset.toNat = min (k * 147456) n.toNat
  within : k ≤ chunksOf n.toNat

theorem chunksOf_eq {size : Nat} : chunksOf size = (size + 147455) / 147456 := rfl

theorem Reaches.offset_le (h : Reaches n k ctx) : ctx.offset ≤ ctx.size := by
  rw [UInt32.le_iff_toNat_le, h.offset, h.size]
  exact Nat.min_le_right _ _

theorem Reaches.validate_iff (h : Reaches n k ctx) :
    ctx.validateChunkRequest chunkNo = true ↔
      chunkNo.toNat = k + 1 ∧ k < chunksOf n.toNat ∧ n.toNat + 147456 ≤ 2 ^ 32 := by
  have hwithin := h.within
  rw [chunksOf_eq] at hwithin ⊢
  rw [validate_iff_of_le h.chunkSize h.offset_le, h.size, h.offset]
  omega

theorem Reaches.dataLeft (h : Reaches n k ctx) :
    ctx.dataLeft.toNat = min 147456 (n.toNat - k * 147456) := by
  rw [toNat_dataLeft h.chunkSize h.offset_le, h.size, h.offset]
  omega

theorem Reaches.dataLeft_ne_zero (h : Reaches n k ctx) (hk : k < chunksOf n.toNat) :
    ctx.dataLeft.toNat ≠ 0 := by
  rw [chunksOf_eq] at hk
  rw [h.dataLeft]
  omega

/-- What is read is a page of the file. -/
theorem Reaches.page_eq (h : Reaches n k ctx) (hk : k < chunksOf n.toNat)
    (hlength : n.toNat = bytes.length) :
    ((List.range ctx.dataLeft.toNat).map fun i => bytes.getD (ctx.offset.toNat + i) 0) =
      page bytes FileOperations.chunkSize.toNat k := by
  rw [chunksOf_eq] at hk
  have hoffset : ctx.offset.toNat = k * 147456 := by rw [h.offset]; omega
  refine List.ext_getElem? fun i => ?_
  by_cases hi : i < ctx.dataLeft.toNat
  · rw [h.dataLeft] at hi
    rw [List.getElem?_map, List.getElem?_range (by rw [h.dataLeft]; exact hi), Option.map_some,
      getElem?_page (by rw [toNat_chunkSize]; omega), List.getD_eq_getElem?_getD, hoffset,
      toNat_chunkSize, List.getElem?_eq_getElem (by omega), Option.getD_some]
  · rw [List.getElem?_eq_none (by simpa using hi), List.getElem?_eq_none]
    rw [length_page, toNat_chunkSize, ← hlength, ← h.dataLeft]
    exact Nat.le_of_not_lt hi

/-- A chunk that is read. -/
def afterRead (crc : Crc32 δ) (bytes : List UInt8) (ctx : FileContext δ) : FileContext δ :=
  (ctx.digest crc ((List.range ctx.dataLeft.toNat).map fun i =>
    bytes.getD (ctx.offset.toNat + i) 0)).advanceFileOffset ctx.dataLeft

theorem Reaches.afterRead (h : Reaches n k ctx) (hk : k < chunksOf n.toNat) :
    Reaches n (k + 1) (afterRead crc bytes ctx) := by
  have hsize := n.toNat_lt
  have hleft := h.dataLeft
  rw [chunksOf_eq] at hk
  refine ⟨h.size, h.chunkSize, ?_, by rw [chunksOf_eq]; omega⟩
  show (ctx.offset + ctx.dataLeft).toNat = _
  rw [UInt32.toNat_add, h.offset, hleft]
  omega

/-- The digest of the pages read so far goes on with the next one. -/
theorem Reaches.digest_afterRead (h : Reaches n k ctx) (hk : k < chunksOf n.toNat)
    (hlength : n.toNat = bytes.length) {parts : List (List UInt8)}
    (hdigest : ctx.runningCrc32Digest = parts.foldl crc.add crc.reset)
    (hparts : parts.flatten = bytes.take (k * FileOperations.chunkSize.toNat)) :
    (Desktop.afterRead crc bytes ctx).runningCrc32Digest =
        (parts ++ [page bytes FileOperations.chunkSize.toNat k]).foldl crc.add crc.reset ∧
      (parts ++ [page bytes FileOperations.chunkSize.toNat k]).flatten =
        bytes.take ((k + 1) * FileOperations.chunkSize.toNat) := by
  constructor
  · rw [List.foldl_append, ← hdigest, ← h.page_eq hk hlength]
    rfl
  · rw [List.flatten_append, hparts, List.flatten_singleton, page, Nat.succ_mul, List.take_add]

theorem Reaches.reachedEOF (h : Reaches n k ctx) :
    ctx.reachedEOF = decide (k = chunksOf n.toNat) := by
  have hwithin := h.within
  rw [chunksOf_eq] at hwithin ⊢
  rw [FileContext.reachedEOF, decide_eq_decide, UInt32.le_iff_toNat_le, h.offset, h.size]
  omega

/-! ## A request -/

theorem entry_setKey {γ : Type} {id : UInt32} {old new : γ} {transfers : List (UInt32 × γ)}
    (h : entry transfers id = some old) : entry (setKey transfers id new) id = some new := by
  induction transfers with
  | nil => cases h
  | cons e transfers ih =>
      obtain ⟨other, x⟩ := e
      rw [setKey, List.map_cons]
      dsimp only
      rw [entry_cons] at h
      by_cases hid : id = other
      · rw [if_pos hid.symm, entry_cons, if_pos rfl]
      · rw [if_neg hid] at h
        rw [if_neg (Ne.symm hid), entry_cons, if_neg hid]
        exact ih h

theorem getData_refused (hentry : entry ops.readTransfers rxID = some ctx)
    (h : ¬ ctx.validateChunkRequest chunkNo = true) {answer : ReadAnswer} :
    ops.getDataForReceiveID crc base64 rxID chunkNo answer = (.ok ([], []), ops) := by
  rw [getDataForReceiveID, hentry]
  exact if_pos h

theorem getData_served (hentry : entry ops.readTransfers rxID = some ctx)
    (hvalid : ctx.validateChunkRequest chunkNo = true) (hleft : ctx.dataLeft.toNat ≠ 0) :
    ∃ ops', ops.getDataForReceiveID crc base64 rxID chunkNo (.content bytes) =
        (.ok (encodeDataAsBase64 base64 ((List.range ctx.dataLeft.toNat).map fun i =>
            bytes.getD (ctx.offset.toNat + i) 0),
          if (afterRead crc bytes ctx).reachedEOF then (afterRead crc bytes ctx).fileHash crc
          else []), ops') ∧
      entry ops'.readTransfers rxID = some (afterRead crc bytes ctx) := by
  have hdata : ((List.range ctx.dataLeft.toNat).map fun i =>
      bytes.getD (ctx.offset.toNat + i) 0) ≠ [] := by
    rwa [Ne, List.map_eq_nil_iff, List.range_eq_nil]
  rw [getDataForReceiveID, hentry]
  dsimp only
  rw [if_neg (not_not_intro hvalid), FileContext.read]
  dsimp only
  rw [if_neg hdata]
  by_cases heof : (afterRead crc bytes ctx).reachedEOF
  · rw [if_pos heof]
    exact ⟨_, if_pos heof, entry_setKey hentry⟩
  · rw [if_neg heof]
    exact ⟨_, if_neg heof, entry_setKey hentry⟩

end Context

namespace Download

variable {crc : Crc32 δ} {base64 : Base64} {hash : List UInt8 → List UInt8} {bytes : List UInt8}
  {rxID n : UInt32} {s : Download δ} {ops : FileOperations δ} {ctx : FileContext δ}

/-! ## Files that are delivered -/

/-- The context of the download is where the count is, its digest that of the pages before. -/
structure Inv (crc : Crc32 δ) (bytes : List UInt8) (rxID n : UInt32) (s : Download δ) :
    Prop where
  intro ::
  context : ∃ ctx, entry s.ops.readTransfers rxID = some ctx ∧ Reaches n s.served ctx ∧
    ∃ parts : List (List UInt8), ctx.runningCrc32Digest = parts.foldl crc.add crc.reset ∧
      parts.flatten = bytes.take (s.served * chunkSize.toNat)

theorem inv_start (hctx : entry ops.readTransfers rxID = some ctx) (hreaches : Reaches n 0 ctx)
    (hdigest : ctx.runningCrc32Digest = crc.reset) : Inv crc bytes rxID n ⟨ops, 0⟩ := by
  refine ⟨ctx, hctx, hreaches, [], hdigest, ?_⟩
  rw [List.flatten_nil, Nat.zero_mul, List.take_zero]

theorem inTurn_iff {chunkNo : UInt32} :
    s.InTurn bytes chunkNo ↔ chunkNo.toNat = s.served + 1 ∧ s.served < chunksOf bytes.length := by
  rw [InTurn]
  omega

theorem served_inTurn {chunkNo : UInt32} (h : s.InTurn bytes chunkNo) :
    (step crc base64 bytes rxID s chunkNo).served = s.served + 1 := if_pos h

theorem served_outOfTurn {chunkNo : UInt32} (h : ¬ s.InTurn bytes chunkNo) :
    (step crc base64 bytes rxID s chunkNo).served = s.served := if_neg h

theorem step_ops {chunkNo : UInt32} {answer : Except String (List UInt8 × List UInt8)}
    (h : s.ops.getDataForReceiveID crc base64 rxID chunkNo (.content bytes) = (answer, ops)) :
    (step crc base64 bytes rxID s chunkNo).ops = ops := congrArg Prod.snd h

theorem delivers_of_inv (hlength : n.toNat = bytes.length)
    (hfits : bytes.length + chunkSize.toNat ≤ 2 ^ 32) (hstreams : Streams crc hash)
    {chunkNo : UInt32} (hinv : Inv crc bytes rxID n s) :
    s.Delivers crc base64 hash bytes rxID chunkNo ∧
      Inv crc bytes rxID n (step crc base64 bytes rxID s chunkNo) := by
  obtain ⟨ctx, hentry, hreaches, parts, hdigest, hparts⟩ := hinv
  rw [toNat_chunkSize, ← hlength] at hfits
  have hvalid := @Reaches.validate_iff _ _ _ _ chunkNo hreaches
  rw [hlength] at hvalid
  by_cases hturn : s.InTurn bytes chunkNo
  · obtain ⟨hnext, hmore⟩ := inTurn_iff.1 hturn
    have hk : s.served < chunksOf n.toNat := by rwa [hlength]
    have hafter := @Reaches.afterRead _ crc _ _ _ bytes hreaches hk
    obtain ⟨ops', hserved, hentry'⟩ := @getData_served _ crc base64 _ bytes rxID chunkNo s.ops
      hentry (hvalid.2 ⟨hnext, hmore, hlength ▸ hfits⟩) (hreaches.dataLeft_ne_zero hk)
    rw [hreaches.page_eq hk hlength] at hserved
    have hparts' := @Reaches.digest_afterRead _ crc _ _ _ bytes hreaches hk hlength _ hdigest hparts
    refine ⟨⟨?_, fun hnot => absurd hturn hnot⟩, ⟨afterRead crc bytes ctx, ?_, ?_, ?_⟩⟩
    · rw [hserved, due, if_pos hturn, hafter.reachedEOF, hnext, hlength]
      by_cases hlast : s.served + 1 = chunksOf bytes.length
      · have hall : bytes.length ≤ (s.served + 1) * chunkSize.toNat := by
          rw [hlast, chunksOf_eq, toNat_chunkSize]
          omega
        rw [if_pos (decide_eq_true hlast), if_pos hlast, FileContext.fileHash, hparts'.1, hstreams,
          hparts'.2, List.take_of_length_le hall]
      · rw [if_neg (by simpa using hlast), if_neg hlast]
    · rwa [step_ops hserved]
    · rw [served_inTurn hturn]
      exact hafter
    · rw [served_inTurn hturn]
      exact ⟨_, hparts'⟩
  · have hinvalid : ¬ ctx.validateChunkRequest chunkNo = true := fun hv =>
      hturn (inTurn_iff.2 ⟨(hvalid.1 hv).1, (hvalid.1 hv).2.1⟩)
    have hrefused := @getData_refused _ crc base64 _ rxID chunkNo s.ops hentry hinvalid
      (.content bytes)
    refine ⟨⟨?_, fun _ => ?_⟩, ⟨ctx, ?_, ?_, parts, hdigest, ?_⟩⟩
    · rw [hrefused, due, if_neg hturn]
    · rw [hrefused]
    · rwa [step_ops hrefused]
    · rw [served_outOfTurn hturn]
      exact hreaches
    · rw [served_outOfTurn hturn]
      exact hparts

theorem cancelRead_runningRxId :
    ops.cancelTimedOutReadTransfer.runningRxId = ops.runningRxId := by
  rw [cancelTimedOutReadTransfer]
  split <;> rfl

/-- A download that has just been opened. -/
theorem opened {path : List UInt8} {size : UInt64}
    (hcreated : (ops.createReceiveIDForFile crc path (.ok size)).1 = .ok (rxID, n))
    (hnew : entry ops.readTransfers rxID = none) :
    n = size.toUInt32 ∧ 0 < n.toNat ∧
      ∃ ctx, entry (ops.createReceiveIDForFile crc path (.ok size)).2.readTransfers rxID =
          some ctx ∧
        Reaches n 0 ctx ∧ ctx.runningCrc32Digest = crc.reset := by
  rw [createReceiveIDForFile] at hcreated ⊢
  dsimp only at hcreated ⊢
  rw [make_eq] at hcreated ⊢
  by_cases hempty : size = 0
  · rw [if_pos hempty] at hcreated
    cases hcreated
  rw [if_neg hempty] at hcreated ⊢
  by_cases hzero : size.toUInt32 = 0
  · rw [if_pos hzero] at hcreated
    cases hcreated
  rw [if_neg hzero] at hcreated ⊢
  cases hcreated
  have hnone : entry ops.cancelTimedOutReadTransfer.readTransfers
      (ops.cancelTimedOutReadTransfer.runningRxId + 1) = none := by
    rw [cancelRead_runningRxId] at hnew ⊢
    rw [cancelTimedOutReadTransfer]
    split
    · exact hnew
    · rw [eraseKey, entry_filter]
      split
      · rfl
      · exact hnew
  refine ⟨rfl, ?_, ⟨path, size.toUInt32, 0, chunkSize, crc.reset⟩, ?_,
    ⟨rfl, rfl, ?_, Nat.zero_le _⟩, rfl⟩
  · exact Nat.pos_of_ne_zero fun h => hzero (UInt32.toNat_inj.1 h)
  · show entry (insertKey _ _ _) _ = _
    rw [insertKey, hnone, if_neg (by simp), entry_cons]
    exact if_pos rfl
  · rw [Nat.zero_mul, Nat.zero_min]
    rfl

/-! ## Files that are not -/

/-- The first requests of a peer that asks for one chunk after the other. -/
def inOrder (k : Nat) : List UInt32 := (List.range k).map fun i => UInt32.ofNat (i + 1)

/-- How many of them are let in. -/
def letIn (n : UInt32) : Nat := if n.toNat + 147456 ≤ 2 ^ 32 then chunksOf n.toNat else 0

theorem letIn_lt {size : Nat} (hn : n.toNat = size % 2 ^ 32)
    (h : ¬ size + chunkSize.toNat ≤ 2 ^ 32) : letIn n < chunksOf size := by
  rw [toNat_chunkSize] at h
  rw [letIn, chunksOf_eq, chunksOf_eq]
  split <;> omega

theorem letIn_small : letIn n + 1 < 2 ^ 32 := by
  have := n.toNat_lt
  rw [letIn, chunksOf_eq]
  split <;> omega

theorem inOrder_reaches (hctx : entry ops.readTransfers rxID = some ctx) (hstart : Reaches n 0 ctx)
    (hmore : letIn n < chunksOf bytes.length) : ∀ {k : Nat}, k ≤ letIn n →
      ((inOrder k).foldl (step crc base64 bytes rxID) ⟨ops, 0⟩).served = k ∧
      ∃ ctx, entry ((inOrder k).foldl (step crc base64 bytes rxID) ⟨ops, 0⟩).ops.readTransfers
          rxID = some ctx ∧ Reaches n k ctx := by
  intro k
  induction k with
  | zero => exact fun _ => ⟨rfl, ctx, hctx, hstart⟩
  | succ k ih =>
      intro hk
      obtain ⟨hserved, ctx', hctx', hreaches⟩ := ih (Nat.le_of_succ_le hk)
      have hsmall := @letIn_small n
      have hno : (UInt32.ofNat (k + 1)).toNat = k + 1 := by
        rw [UInt32.toNat_ofNat', Nat.mod_eq_of_lt (by omega)]
      have hfits : n.toNat + 147456 ≤ 2 ^ 32 ∧ k < chunksOf n.toNat := by
        rw [letIn] at hk
        split at hk
        · exact ⟨by assumption, hk⟩
        · exact absurd hk (Nat.not_succ_le_zero k)
      rw [inOrder, List.range_succ, List.map_append, List.foldl_append]
      rw [inOrder] at hserved hctx'
      generalize ((List.range k).map fun i => UInt32.ofNat (i + 1)).foldl
        (step crc base64 bytes rxID) ⟨ops, 0⟩ = s at hserved hctx'
      obtain ⟨ops', hget, hentry⟩ := @getData_served _ crc base64 _ bytes rxID
        (UInt32.ofNat (k + 1)) s.ops hctx'
        (hreaches.validate_iff.2 ⟨hno, hfits.2, hfits.1⟩) (hreaches.dataLeft_ne_zero hfits.2)
      have hturn : s.InTurn bytes (UInt32.ofNat (k + 1)) := ⟨by rw [hno, hserved], by omega⟩
      refine ⟨(served_inTurn hturn).trans (by rw [hserved]), _, ?_,
        @Reaches.afterRead _ crc _ _ _ bytes hreaches hfits.2⟩
      show entry (step crc base64 bytes rxID s (UInt32.ofNat (k + 1))).ops.readTransfers rxID = _
      rwa [step_ops hget]

theorem encode_ne_nil {data : List UInt8} : encodeDataAsBase64 base64 data ≠ [] := by
  intro h
  have hlength := congrArg List.length h
  rw [encodeDataAsBase64, List.length_append, List.length_replicate, encodedSize,
    List.length_nil] at hlength
  omega

/-- The request behind those that are let in is due and refused. -/
theorem not_delivers {k : Nat} {chunkNo : UInt32} (hk : k = letIn n)
    (hctx : entry s.ops.readTransfers rxID = some ctx) (hreaches : Reaches n k ctx)
    (hserved : s.served = k) (hno : chunkNo.toNat = k + 1) (hmore : k < chunksOf bytes.length) :
    ¬ s.Delivers crc base64 hash bytes rxID chunkNo := by
  intro hdelivers
  have hinvalid : ¬ ctx.validateChunkRequest chunkNo = true := by
    rw [hreaches.validate_iff]
    rintro ⟨-, hless, hfits⟩
    rw [letIn, if_pos hfits] at hk
    exact Nat.ne_of_lt hless hk
  have hturn : s.InTurn bytes chunkNo := inTurn_iff.2 ⟨hserved ▸ hno, hserved ▸ hmore⟩
  have hdue := hdelivers.1
  rw [getData_refused hctx hinvalid, due, if_pos hturn] at hdue
  exact encode_ne_nil (congrArg Prod.fst (Except.ok.inj hdue)).symm

theorem not_everyStep (hctx : entry ops.readTransfers rxID = some ctx) (hstart : Reaches n 0 ctx)
    (hmore : letIn n < chunksOf bytes.length) :
    ∃ requests, ¬ EveryStep (Delivers crc base64 hash bytes rxID) (step crc base64 bytes rxID)
      ⟨ops, 0⟩ requests := by
  obtain ⟨k, hk⟩ : ∃ k, k = letIn n := ⟨_, rfl⟩
  obtain ⟨hserved, ctx', hctx', hreaches⟩ := @inOrder_reaches _ crc base64 bytes rxID n ops ctx
    hctx hstart hmore k (Nat.le_of_eq hk)
  have hno : (UInt32.ofNat (k + 1)).toNat = k + 1 := by
    rw [UInt32.toNat_ofNat', Nat.mod_eq_of_lt (hk ▸ letIn_small)]
  refine ⟨inOrder k ++ [UInt32.ofNat (k + 1)], fun hevery => ?_⟩
  exact not_delivers hk hctx' hreaches hserved hno (hk ▸ hmore) (everyStep_append.1 hevery).2.1

/-- Every sequence of requests is answered as it should be exactly where the size of the file,
rounded up to whole chunks, is still a number of 32 bits; the pages are the file then. -/
theorem delivers_iff {path : List UInt8} {size : UInt64} (hsize : size.toNat = bytes.length)
    (hcreated : (ops.createReceiveIDForFile crc path (.ok size)).1 = .ok (rxID, n))
    (hnew : entry ops.readTransfers rxID = none) (hstreams : Streams crc hash) :
    (∀ requests, EveryStep (Delivers crc base64 hash bytes rxID) (step crc base64 bytes rxID)
        ⟨(ops.createReceiveIDForFile crc path (.ok size)).2, 0⟩ requests) ∧
      ((List.range (chunksOf bytes.length)).map (page bytes chunkSize.toNat)).flatten = bytes ↔
    bytes.length + chunkSize.toNat ≤ 2 ^ 32 := by
  obtain ⟨hn, hpos, ctx, hctx, hreaches, hdigest⟩ := opened hcreated hnew
  have hmod : n.toNat = bytes.length % 2 ^ 32 := by
    rw [hn, UInt64.toNat_toUInt32, hsize]
  constructor
  · rintro ⟨hevery, -⟩
    by_contra hlarge
    obtain ⟨requests, hnot⟩ := @not_everyStep _ crc base64 hash bytes rxID n _ ctx hctx hreaches
      (letIn_lt hmod hlarge)
    exact hnot (hevery requests)
  · intro hfits
    have hlength : n.toNat = bytes.length := by
      rw [toNat_chunkSize] at hfits
      omega
    refine ⟨fun requests => ?_, ?_⟩
    · have hstart : Inv crc bytes rxID n _ := inv_start hctx hreaches hdigest
      exact (@everyStep_of_inv _ _ (Inv crc bytes rxID n) (Delivers crc base64 hash bytes rxID)
        (step crc base64 bytes rxID)
        (fun _ _ hinv => (delivers_of_inv hlength hfits hstreams hinv).1)
        (fun _ _ hinv => (delivers_of_inv hlength hfits hstreams hinv).2) _ _ hstart).1
    · rw [flatten_pages, List.take_of_length_le]
      rw [chunksOf_eq, toNat_chunkSize]
      omega

/-- The file `f` of one byte is delivered. -/
theorem one_byte_delivered :
    (∀ requests, EveryStep
        (Delivers plainCrc plainBase64 (fun bytes => crc32Text (bytes.foldl crc32Byte 0xFFFFFFFF))
          [0x61] 1) (step plainCrc plainBase64 [0x61] 1)
        ⟨(FileOperations.initial.createReceiveIDForFile plainCrc [0x66] (.ok 1)).2, 0⟩ requests) ∧
      ((List.range (chunksOf 1)).map (page [0x61] chunkSize.toNat)).flatten = [(0x61 : UInt8)] :=
  (delivers_iff (n := 1) rfl rfl rfl streams_plainCrc).2 (by decide)

/-- Of the largest file that has a size of 32 bits, the first chunk is refused. -/
theorem large_file_refused :
    ¬ EveryStep
        (Delivers plainCrc plainBase64 (fun bytes => crc32Text (bytes.foldl crc32Byte 0xFFFFFFFF))
          (List.replicate 0xFFFFFFFF 0) 1)
        (step plainCrc plainBase64 (List.replicate 0xFFFFFFFF 0) 1)
        ⟨(FileOperations.initial.createReceiveIDForFile plainCrc [0x66] (.ok 0xFFFFFFFF)).2, 0⟩
        [1] := by
  intro hevery
  obtain ⟨hn, hpos, ctx, hctx, hreaches, -⟩ := @opened _ plainCrc 1 0xFFFFFFFF
    FileOperations.initial [0x66] 0xFFFFFFFF rfl rfl
  have hmore : 0 < chunksOf (List.replicate 0xFFFFFFFF (0 : UInt8)).length := by
    rw [List.length_replicate, chunksOf_eq]
    omega
  exact not_delivers (by decide) hctx hreaches rfl rfl hmore hevery.1

end Download

end MuditaOS.Desktop
