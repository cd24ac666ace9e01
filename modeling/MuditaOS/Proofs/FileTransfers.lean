import MuditaOS.Desktop.FileOperations
import MuditaOS.Lib.Run

/-!
# Transfers that do not disturb each other

Beside the transfers stands the upload that was started last, with the chunks it got in
their order. As long as no id runs over, each kind has one transfer at most, and the upload
is it; a chunk in its turn is taken, and the last one decides by the checksum whether the
file stays. The end of a download takes the upload of the same number with it, and that is
all that one kind can do to the other.
-/

namespace MuditaOS.Desktop

open MuditaOS.Lib FileOperations

variable {δ : Type}

/-! ## What is promised -/

/-- The upload that was started last, while chunks of it are missing. -/
structure Upload where
  id : UInt32
  path : List UInt8
  size : UInt32
  crc32 : List UInt8
  chunks : Nat
  written : List UInt8

/-- How many chunks the file has. -/
def Upload.total (u : Upload) : Nat := (u.size.toNat + (chunkSize.toNat - 1)) / chunkSize.toNat

/-- How many bytes the next chunk has. -/
def Upload.left (u : Upload) : Nat :=
  min chunkSize.toNat (u.size.toNat - u.chunks * chunkSize.toNat)

inductive TransferCall where
  | createReceive (file : List UInt8) (size : Except String UInt64)
  | getData (rxID chunkNo : UInt32) (answer : ReadAnswer)
  | createTransmit (file : List UInt8) (size : UInt32) (crc32 : List UInt8)
  | sendData (txID chunkNo : UInt32) (data : List UInt8) (behind : Nat → UInt8)
      (answer : WriteAnswer)

structure Transfers (δ : Type) where
  ops : FileOperations δ
  upload : Option Upload

namespace Transfers

def initial : Transfers δ := ⟨.initial, none⟩

section Calls

variable (crc : Crc32 δ) (base64 : Base64) (hash : List UInt8 → List UInt8) (s : Transfers δ)

/-- The chunk is the next one of the upload, and the file takes it. -/
def Next (u : Upload) (txID chunkNo : UInt32) (answer : WriteAnswer) : Prop :=
  txID = u.id ∧ chunkNo.toNat = u.chunks + 1 ∧ u.chunks < u.total ∧ answer = .written

instance {u : Upload} {txID chunkNo : UInt32} {answer : WriteAnswer} :
    Decidable (Next u txID chunkNo answer) := inferInstanceAs (Decidable (_ ∧ _ ∧ _ ∧ _))

/-- What is written of a chunk. -/
def chunkBytes (u : Upload) (data : List UInt8) (behind : Nat → UInt8) : List UInt8 :=
  (List.range u.left).map fun i =>
    (base64.decode (s.ops.resized data) data).getD i (behind i)

def step (s : Transfers δ) : TransferCall → Transfers δ
  | .createReceive file size => { s with ops := (s.ops.createReceiveIDForFile crc file size).2 }
  | .getData rxID chunkNo answer =>
      { s with ops := (s.ops.getDataForReceiveID crc base64 rxID chunkNo answer).2 }
  | .createTransmit file size crc32 =>
      let (result, _, ops) := s.ops.createTransmitIDForFile crc file size crc32
      match result with
      | .ok id => ⟨ops, some ⟨id, file, size, crc32, 0, []⟩⟩
      | .error _ => ⟨ops, none⟩
  | .sendData txID chunkNo data behind answer =>
      { ops := (s.ops.sendDataForTransmitID crc base64 txID chunkNo data behind answer).2.2
        upload := s.upload.bind fun u =>
          if Next u txID chunkNo answer then
            if u.chunks + 1 = u.total then none
            else some { u with
              chunks := u.chunks + 1
              written := u.written ++ s.chunkBytes base64 u data behind }
          else some u }

/-- A chunk of the upload is taken, and the last one completes it: its file is removed where
the checksum of what was written is not the announced one, and only there. -/
def Received (u : Upload) (txID chunkNo : UInt32) (data : List UInt8) (behind : Nat → UInt8)
    (answer : WriteAnswer) : Prop :=
  let (result, removed, ops) :=
    s.ops.sendDataForTransmitID crc base64 txID chunkNo data behind answer
  if u.chunks + 1 = u.total then
    entry ops.writeTransfers u.id = none ∧
      if hash (u.written ++ s.chunkBytes base64 u data behind) = u.crc32 then
        result = .ok .success ∧ removed = []
      else result = .error "File CRC32 mismatch" ∧ removed = [u.path]
  else (entry ops.writeTransfers u.id).isSome ∧ result = .ok .success ∧ removed = []

def ReadApart (s s' : Transfers δ) : Prop :=
  s'.ops.writeTransfers = s.ops.writeTransfers ∧ s'.ops.runningTxId = s.ops.runningTxId ∧
    s'.ops.fileData = s.ops.fileData

def WriteApart (s s' : Transfers δ) : Prop :=
  s'.ops.readTransfers = s.ops.readTransfers ∧ s'.ops.runningRxId = s.ops.runningRxId

/-- A call leaves the transfers of the other kind alone and each kind with one at most; a chunk
in its turn is received. -/
def Undisturbed (c : TransferCall) : Prop :=
  (step crc base64 s c).ops.readTransfers.length ≤ 1 ∧
  (step crc base64 s c).ops.writeTransfers.length ≤ 1 ∧
  match c with
  | .createReceive _ _ => ReadApart s (step crc base64 s c)
  | .getData _ _ _ => ReadApart s (step crc base64 s c)
  | .createTransmit _ _ _ => WriteApart s (step crc base64 s c)
  | .sendData txID chunkNo data behind answer =>
      WriteApart s (step crc base64 s c) ∧
      ∀ u, s.upload = some u → Next u txID chunkNo answer →
        s.Received crc base64 hash u txID chunkNo data behind answer

/-- The request is the last one of a download. -/
def Finishes (rxID chunkNo : UInt32) (answer : ReadAnswer) : Prop :=
  ∃ ctx bytes, entry s.ops.readTransfers rxID = some ctx ∧
    ctx.validateChunkRequest chunkNo = true ∧ answer = .content bytes ∧ ctx.dataLeft ≠ 0 ∧
    ctx.size ≤ ctx.offset + ctx.dataLeft

/-- A transfer is not started while the one that is open has another number than the last, or
number zero; a download does not end under the number of an open upload; and a chunk belongs
to a file the size of which, rounded up, is still a number. -/
def Clear : TransferCall → Prop
  | .createReceive _ size => ∀ n, size = .ok n → n.toUInt32 ≠ 0 → ∀ other ∈ s.ops.readTransfers,
      other.1 = s.ops.runningRxId ∧ s.ops.runningRxId ≠ 0
  | .getData rxID chunkNo answer => s.Finishes rxID chunkNo answer →
      entry s.ops.writeTransfers rxID = none
  | .createTransmit _ size _ => size ≠ 0 → ∀ other ∈ s.ops.writeTransfers,
      other.1 = s.ops.runningTxId ∧ s.ops.runningTxId ≠ 0
  | .sendData txID chunkNo _ _ answer => ∀ u, s.upload = some u → Next u txID chunkNo answer →
      u.size.toNat + chunkSize.toNat ≤ 2 ^ 32

end Calls

end Transfers

/-! ## One transfer of a kind -/

section Keys

variable {γ : Type} {transfers : List (UInt32 × γ)} {id : UInt32} {ctx other : γ}

theorem eraseKey_eq_self (h : entry transfers id = none) : eraseKey transfers id = transfers := by
  rw [entry_eq_none, List.find?_eq_none] at h
  refine List.filter_eq_self.2 fun other hother => ?_
  rw [decide_eq_true_iff]
  exact fun hid => h other hother (decide_eq_true hid)

theorem length_eraseKey : (eraseKey transfers id).length ≤ transfers.length :=
  List.length_filter_le _ _

theorem length_setKey : (setKey transfers id ctx).length = transfers.length := List.length_map _

theorem entry_singleton : entry [(id, ctx)] id = some ctx := by
  rw [entry_cons, if_pos rfl]

theorem eraseKey_singleton : eraseKey [(id, ctx)] id = [] := by simp [eraseKey]

theorem setKey_singleton : setKey [(id, other)] id ctx = [(id, ctx)] := by simp [setKey]

theorem eraseKey_of_all (h : ∀ other ∈ transfers, other.1 = id) : eraseKey transfers id = [] := by
  refine List.filter_eq_nil_iff.2 fun other hother => ?_
  rw [decide_eq_true_iff]
  exact fun hne => hne (h other hother)

end Keys

/-! ## The chunks of an upload -/

variable {crc : Crc32 δ} {u : Upload} {ctx : FileWriteContext δ}

/-- A context is that of the upload. -/
structure Tracks (crc : Crc32 δ) (u : Upload) (ctx : FileWriteContext δ) : Prop where
  path : ctx.context.path = u.path
  size : ctx.context.size = u.size
  crc32 : ctx.crc32Digest = u.crc32
  chunkSize : ctx.context.chunkSize = FileOperations.chunkSize
  offset : ctx.context.offset.toNat = u.chunks * FileOperations.chunkSize.toNat
  pending : u.chunks < u.total
  digest : ∃ parts : List (List UInt8),
    ctx.context.runningCrc32Digest = parts.foldl crc.add crc.reset ∧ parts.flatten = u.written

theorem toNat_chunkSize : FileOperations.chunkSize.toNat = 147456 := rfl

theorem Upload.lt_of_pending (h : u.chunks < u.total) : u.chunks * 147456 < u.size.toNat := by
  rw [Upload.total, toNat_chunkSize] at h
  omega

theorem toNat_dataLeft {context : FileContext δ}
    (hchunk : context.chunkSize = FileOperations.chunkSize) (hle : context.offset ≤ context.size) :
    context.dataLeft.toNat = min 147456 (context.size.toNat - context.offset.toNat) := by
  rw [FileContext.dataLeft, hchunk, ← UInt32.toNat_sub_of_le _ _ hle]
  show (if FileOperations.chunkSize ≤ context.size - context.offset then FileOperations.chunkSize
    else context.size - context.offset).toNat = _
  simp only [UInt32.le_iff_toNat_le, toNat_chunkSize]
  split
  · next hle => rw [Nat.min_eq_left hle, toNat_chunkSize]
  · next hgt => rw [Nat.min_eq_right (by omega)]

theorem Tracks.offset_le (h : Tracks crc u ctx) : ctx.context.offset ≤ ctx.context.size := by
  have hlt := u.lt_of_pending h.pending
  have hoffset := h.offset
  rw [toNat_chunkSize] at hoffset
  rw [h.size, UInt32.le_iff_toNat_le]
  omega

theorem Tracks.dataLeft (h : Tracks crc u ctx) : ctx.context.dataLeft.toNat = u.left := by
  rw [toNat_dataLeft h.chunkSize h.offset_le, h.size, h.offset]
  rfl

theorem toNat_chunksInQuantity {context : FileContext δ} {quantity : UInt32}
    (h : context.chunkSize = FileOperations.chunkSize) :
    (context.chunksInQuantity quantity).toNat =
      if quantity.toNat + 147456 ≤ 2 ^ 32 then (quantity.toNat + 147455) / 147456 else 0 := by
  have hlt := quantity.toNat_lt
  have hone : (1 : UInt32).toNat = 1 := rfl
  rw [FileContext.chunksInQuantity, h, UInt32.toNat_div, UInt32.toNat_sub, UInt32.toNat_add,
    toNat_chunkSize, hone]
  split
  · omega
  · omega

/-- The chunk behind those that the offset makes is let in, and no other; and none where the
number of chunks runs over. -/
theorem validate_iff_of_le {context : FileContext δ} {chunkNo : UInt32}
    (hchunk : context.chunkSize = FileOperations.chunkSize) (hle : context.offset ≤ context.size) :
    context.validateChunkRequest chunkNo = true ↔
      chunkNo.toNat = (context.offset.toNat + 147455) / 147456 + 1 ∧
        chunkNo.toNat ≤ (context.size.toNat + 147455) / 147456 ∧
        context.size.toNat + 147456 ≤ 2 ^ 32 := by
  rw [UInt32.le_iff_toNat_le] at hle
  have hone : (1 : UInt32).toNat = 1 := rfl
  have htotal : (context.totalChunksInFile).toNat = _ := toNat_chunksInQuantity hchunk
  have hexpected : (context.expectedChunkInFile).toNat = _ := UInt32.toNat_add _ _
  rw [toNat_chunksInQuantity hchunk, hone] at hexpected
  rw [FileContext.validateChunkRequest, Bool.not_eq_true', Bool.or_eq_false_iff,
    Bool.or_eq_false_iff, decide_eq_false_iff_not, decide_eq_false_iff_not,
    decide_eq_false_iff_not, UInt32.lt_iff_toNat_lt, UInt32.lt_iff_toNat_lt, not_not,
    ← UInt32.toNat_inj, htotal, hexpected, hone]
  by_cases hfits : context.size.toNat + 147456 ≤ 2 ^ 32
  · rw [if_pos hfits, if_pos (by omega)]
    omega
  · rw [if_neg hfits]
    omega

theorem Tracks.validate_iff (h : Tracks crc u ctx) {chunkNo : UInt32} :
    ctx.context.validateChunkRequest chunkNo = true ↔
      chunkNo.toNat = u.chunks + 1 ∧ u.size.toNat + 147456 ≤ 2 ^ 32 := by
  have hpending := h.pending
  have hoffset := h.offset
  rw [toNat_chunkSize] at hoffset
  rw [Upload.total, toNat_chunkSize] at hpending
  rw [validate_iff_of_le h.chunkSize h.offset_le, h.size, hoffset]
  omega

theorem make_eq {path : List UInt8} {size : UInt32} :
    FileContext.make crc path size FileOperations.chunkSize =
      if size = 0 then .error "Invalid FileContext arguments"
      else .ok ⟨path, size, 0, FileOperations.chunkSize, crc.reset⟩ := by
  have hchunk : FileOperations.chunkSize ≠ 0 := by decide
  rw [FileContext.make]
  simp only [hchunk, or_false]

theorem tracks_make {id : UInt32} {path crc32 : List UInt8} {size : UInt32} (h : size ≠ 0) :
    Tracks crc ⟨id, path, size, crc32, 0, []⟩
      ⟨⟨path, size, 0, FileOperations.chunkSize, crc.reset⟩, crc32⟩ := by
  refine ⟨rfl, rfl, rfl, rfl, (Nat.zero_mul _).symm, ?_, [], rfl, rfl⟩
  have hpos : size.toNat ≠ 0 := fun hzero => h (UInt32.toNat_inj.1 hzero)
  rw [Upload.total, toNat_chunkSize]
  show 0 < (size.toNat + (147456 - 1)) / 147456
  omega

/-- The upload with one more chunk. -/
def Upload.next (u : Upload) (bytes : List UInt8) : Upload :=
  { u with chunks := u.chunks + 1, written := u.written ++ bytes }

theorem offset_write (h : Tracks crc u ctx) :
    (ctx.context.offset + ctx.context.dataLeft).toNat =
      min ((u.chunks + 1) * 147456) u.size.toNat := by
  have hlt := u.lt_of_pending h.pending
  have hsize := u.size.toNat_lt
  have hoffset := h.offset
  have hleft := h.dataLeft
  rw [Upload.left] at hleft
  rw [toNat_chunkSize] at hoffset hleft
  rw [UInt32.toNat_add, hoffset, hleft]
  omega

/-- A chunk that is written. -/
theorem Tracks.write (h : Tracks crc u ctx) {data : List UInt8} {behind : Nat → UInt8} :
    ∃ ctx', ctx.write crc data behind .written = .ok ctx' ∧
      ctx'.context.path = u.path ∧ ctx'.crc32Digest = u.crc32 ∧
      ctx'.context.reachedEOF = decide (u.chunks + 1 = u.total) ∧
      (∃ parts : List (List UInt8), ctx'.context.runningCrc32Digest =
        parts.foldl crc.add crc.reset ∧
        parts.flatten = u.written ++ ctx.bytesOf data behind) ∧
      (u.chunks + 1 ≠ u.total → Tracks crc (u.next (ctx.bytesOf data behind)) ctx') := by
  have hpending := h.pending
  have hlt := u.lt_of_pending hpending
  have hoffset := offset_write h
  rw [Upload.total, toNat_chunkSize] at hpending
  obtain ⟨parts, hdigest, hwritten⟩ := h.digest
  have hparts : ∃ parts' : List (List UInt8),
      crc.add ctx.context.runningCrc32Digest (ctx.bytesOf data behind) =
        parts'.foldl crc.add crc.reset ∧
      parts'.flatten = u.written ++ ctx.bytesOf data behind := by
    refine ⟨parts ++ [ctx.bytesOf data behind], ?_, ?_⟩
    · rw [List.foldl_append, ← hdigest]
      rfl
    · rw [List.flatten_append, hwritten, List.flatten_cons, List.flatten_nil, List.append_nil]
  refine ⟨_, rfl, h.path, h.crc32, ?_, hparts, fun hmore => ?_⟩
  · show decide (ctx.context.size ≤ ctx.context.offset + ctx.context.dataLeft) = _
    rw [decide_eq_decide, UInt32.le_iff_toNat_le, h.size, hoffset, Upload.total, toNat_chunkSize]
    omega
  · refine ⟨h.path, h.size, h.crc32, h.chunkSize, ?_, ?_, hparts⟩
    · show (ctx.context.offset + ctx.context.dataLeft).toNat = (u.chunks + 1) * _
      rw [Upload.total, toNat_chunkSize] at hmore
      rw [hoffset, toNat_chunkSize]
      omega
    · show u.chunks + 1 < u.total
      have hbefore := h.pending
      omega

/-! ## The calls -/

namespace Transfers

variable {base64 : Base64} {hash : List UInt8 → List UInt8} {s : Transfers δ}

structure Inv (crc : Crc32 δ) (s : Transfers δ) : Prop where
  reads : s.ops.readTransfers.length ≤ 1
  writes : s.ops.writeTransfers.length ≤ 1
  upload : ∀ u, s.upload = some u →
    ∃ ctx, s.ops.writeTransfers = [(u.id, ctx)] ∧ Tracks crc u ctx

theorem inv_initial : Inv crc (initial : Transfers δ) := by
  refine ⟨Nat.zero_le _, Nat.zero_le _, fun u hu => ?_⟩
  exact absurd hu (by simp [initial])

/-! ### Starting a download -/

theorem cancelRead_apart {ops : FileOperations δ} :
    ops.cancelTimedOutReadTransfer.writeTransfers = ops.writeTransfers ∧
    ops.cancelTimedOutReadTransfer.runningTxId = ops.runningTxId ∧
    ops.cancelTimedOutReadTransfer.fileData = ops.fileData ∧
    ops.cancelTimedOutReadTransfer.readTransfers.length ≤ ops.readTransfers.length := by
  rw [cancelTimedOutReadTransfer]
  split
  · exact ⟨rfl, rfl, rfl, Nat.le_refl _⟩
  · exact ⟨rfl, rfl, rfl, length_eraseKey⟩

/-- The open download is cancelled where it has the number of the last one. -/
theorem cancelRead_of_clear {ops : FileOperations δ}
    (h : ∀ other ∈ ops.readTransfers, other.1 = ops.runningRxId ∧ ops.runningRxId ≠ 0) :
    ops.cancelTimedOutReadTransfer.readTransfers = [] := by
  rw [cancelTimedOutReadTransfer]
  split
  · next hzero =>
      refine List.eq_nil_iff_forall_not_mem.2 fun other hother => ?_
      exact (h other hother).2 hzero
  · exact eraseKey_of_all fun other hother => (h other hother).1

theorem createReceive_apart {file : List UInt8} {size : Except String UInt64} :
    ReadApart s (step crc base64 s (.createReceive file size)) := by
  obtain ⟨hwrites, hid, hdata, -⟩ := @cancelRead_apart _ s.ops
  show (s.ops.createReceiveIDForFile crc file size).2.writeTransfers = _ ∧
    (s.ops.createReceiveIDForFile crc file size).2.runningTxId = _ ∧
    (s.ops.createReceiveIDForFile crc file size).2.fileData = _
  cases size with
  | error e => exact ⟨hwrites, hid, hdata⟩
  | ok n =>
      rw [createReceiveIDForFile]
      dsimp only
      split
      · exact ⟨hwrites, hid, hdata⟩
      · split
        · exact ⟨hwrites, hid, hdata⟩
        · exact ⟨hwrites, hid, hdata⟩

theorem createReceive_reads {file : List UInt8} {size : Except String UInt64}
    (hinv : Inv crc s) (hclear : s.Clear (.createReceive file size)) :
    (step crc base64 s (.createReceive file size)).ops.readTransfers.length ≤ 1 := by
  have hless := (@cancelRead_apart _ s.ops).2.2.2.trans hinv.reads
  show (s.ops.createReceiveIDForFile crc file size).2.readTransfers.length ≤ 1
  cases size with
  | error e => exact hless
  | ok n =>
      rw [createReceiveIDForFile]
      dsimp only
      split
      · exact hless
      · rw [make_eq]
        split
        · exact hless
        · next ctx hmake =>
            have hn : n.toUInt32 ≠ 0 := fun hzero => by
              rw [if_pos hzero] at hmake
              exact absurd hmake (by simp)
            show (insertKey s.ops.cancelTimedOutReadTransfer.readTransfers _ _).length ≤ 1
            rw [cancelRead_of_clear (hclear n rfl hn)]
            exact Nat.le_refl _

/-! ### Getting a chunk -/

/-- The end of a download erases the upload of its number, and that is all that is done to
uploads. -/
theorem getData_cases {rxID chunkNo : UInt32} {answer : ReadAnswer} :
    (s.ops.getDataForReceiveID crc base64 rxID chunkNo answer).2.runningTxId =
        s.ops.runningTxId ∧
    (s.ops.getDataForReceiveID crc base64 rxID chunkNo answer).2.fileData = s.ops.fileData ∧
    (s.ops.getDataForReceiveID crc base64 rxID chunkNo answer).2.readTransfers.length =
        s.ops.readTransfers.length ∧
    (s.Finishes rxID chunkNo answer ∧
        (s.ops.getDataForReceiveID crc base64 rxID chunkNo answer).2.writeTransfers =
          eraseKey s.ops.writeTransfers rxID ∨
      ¬ s.Finishes rxID chunkNo answer ∧
        (s.ops.getDataForReceiveID crc base64 rxID chunkNo answer).2.writeTransfers =
          s.ops.writeTransfers) := by
  rw [getDataForReceiveID]
  cases hentry : entry s.ops.readTransfers rxID with
  | none =>
      refine ⟨rfl, rfl, rfl, .inr ⟨fun h => ?_, rfl⟩⟩
      obtain ⟨ctx, bytes, hctx, -⟩ := h
      exact absurd (hentry.symm.trans hctx) (by simp)
  | some ctx =>
      have hsame : ∀ {other}, entry s.ops.readTransfers rxID = some other → other = ctx :=
        fun hother => Option.some.inj (hother.symm.trans hentry)
      dsimp only
      split
      · next hinvalid =>
          refine ⟨rfl, rfl, rfl, .inr ⟨fun h => ?_, rfl⟩⟩
          obtain ⟨other, bytes, hother, hvalid, -⟩ := h
          exact hinvalid (hsame hother ▸ hvalid)
      · next hvalid =>
          rw [not_not] at hvalid
          cases answer with
          | openError =>
              refine ⟨rfl, rfl, rfl, .inr ⟨fun h => ?_, rfl⟩⟩
              obtain ⟨_, _, -, -, hcontent, -⟩ := h
              exact ReadAnswer.noConfusion hcontent
          | readError =>
              refine ⟨rfl, rfl, rfl, .inr ⟨fun h => ?_, rfl⟩⟩
              obtain ⟨_, _, -, -, hcontent, -⟩ := h
              exact ReadAnswer.noConfusion hcontent
          | content bytes =>
              rw [FileContext.read]
              dsimp only
              split
              · next hempty =>
                  refine ⟨rfl, rfl, length_setKey, .inr ⟨fun h => ?_, rfl⟩⟩
                  obtain ⟨other, _, hother, -, -, hleft, -⟩ := h
                  rw [List.map_eq_nil_iff, List.range_eq_nil] at hempty
                  exact (hsame hother ▸ hleft) (UInt32.toNat_inj.1 hempty)
              · next hsome =>
                  rw [List.map_eq_nil_iff, List.range_eq_nil] at hsome
                  have hleft : ctx.dataLeft ≠ 0 := fun hzero => hsome (hzero ▸ rfl)
                  split
                  · next heof =>
                      have hfinishes : s.Finishes rxID chunkNo (.content bytes) :=
                        ⟨ctx, bytes, hentry, hvalid, rfl, hleft, of_decide_eq_true heof⟩
                      exact ⟨rfl, rfl, length_setKey, .inl ⟨hfinishes, rfl⟩⟩
                  · next heof =>
                      refine ⟨rfl, rfl, length_setKey, .inr ⟨fun h => ?_, rfl⟩⟩
                      obtain ⟨other, _, hother, -, -, -, hend⟩ := h
                      exact heof (decide_eq_true (hsame hother ▸ hend))

theorem getData_apart {rxID chunkNo : UInt32} {answer : ReadAnswer}
    (hclear : s.Clear (.getData rxID chunkNo answer)) :
    ReadApart s (step crc base64 s (.getData rxID chunkNo answer)) := by
  obtain ⟨hid, hdata, -, hwrites⟩ := @getData_cases _ crc base64 s rxID chunkNo answer
  refine ⟨?_, hid, hdata⟩
  rcases hwrites with ⟨hfinishes, herased⟩ | ⟨-, hsame⟩
  · exact herased.trans (eraseKey_eq_self (hclear hfinishes))
  · exact hsame

/-- The end of a download takes an open upload of its number with it. -/
theorem not_apart_of_finishes {rxID chunkNo : UInt32} {answer : ReadAnswer}
    (h : s.Finishes rxID chunkNo answer) (hopen : entry s.ops.writeTransfers rxID ≠ none) :
    ¬ ReadApart s (step crc base64 s (.getData rxID chunkNo answer)) := by
  intro hapart
  obtain ⟨-, -, -, ⟨-, herased⟩ | ⟨hnot, -⟩⟩ :=
    @getData_cases _ crc base64 s rxID chunkNo answer
  · refine hopen ?_
    rw [← hapart.1, show (step crc base64 s (.getData rxID chunkNo answer)).ops.writeTransfers =
      eraseKey s.ops.writeTransfers rxID from herased, eraseKey, entry_filter, if_pos rfl]
  · exact hnot h

/-! ### Starting an upload -/

theorem cancelWrite_apart {ops : FileOperations δ} :
    ops.cancelTimedOutWriteTransfer.2.readTransfers = ops.readTransfers ∧
    ops.cancelTimedOutWriteTransfer.2.runningRxId = ops.runningRxId ∧
    ops.cancelTimedOutWriteTransfer.2.writeTransfers.length ≤ ops.writeTransfers.length := by
  rw [cancelTimedOutWriteTransfer]
  split
  · exact ⟨rfl, rfl, Nat.le_refl _⟩
  · split
    · exact ⟨rfl, rfl, Nat.le_refl _⟩
    · exact ⟨rfl, rfl, length_eraseKey⟩

theorem cancelWrite_of_clear {ops : FileOperations δ}
    (h : ∀ other ∈ ops.writeTransfers, other.1 = ops.runningTxId ∧ ops.runningTxId ≠ 0) :
    ops.cancelTimedOutWriteTransfer.2.writeTransfers = [] := by
  rw [cancelTimedOutWriteTransfer]
  split
  · next hzero =>
      refine List.eq_nil_iff_forall_not_mem.2 fun other hother => ?_
      exact (h other hother).2 hzero
  · split
    · next hnone =>
        rw [entry_eq_none, List.find?_eq_none] at hnone
        refine List.eq_nil_iff_forall_not_mem.2 fun other hother => ?_
        exact hnone other hother (decide_eq_true (h other hother).1)
    · exact eraseKey_of_all fun other hother => (h other hother).1

theorem createTransmit_apart {file crc32 : List UInt8} {size : UInt32} :
    WriteApart s (step crc base64 s (.createTransmit file size crc32)) := by
  obtain ⟨hreads, hid, -⟩ := @cancelWrite_apart _ s.ops
  rw [step, createTransmitIDForFile, make_eq]
  by_cases hsize : size = 0
  · rw [if_pos hsize]
    exact ⟨hreads, hid⟩
  · rw [if_neg hsize]
    exact ⟨hreads, hid⟩

theorem inv_createTransmit {file crc32 : List UInt8} {size : UInt32} (hinv : Inv crc s)
    (hclear : s.Clear (.createTransmit file size crc32)) :
    Inv crc (step crc base64 s (.createTransmit file size crc32)) := by
  obtain ⟨hreads, -, hless⟩ := @cancelWrite_apart _ s.ops
  rw [step, createTransmitIDForFile, make_eq]
  by_cases hsize : size = 0
  · rw [if_pos hsize]
    refine ⟨?_, hless.trans hinv.writes, fun u hu => absurd hu (by simp)⟩
    show s.ops.cancelTimedOutWriteTransfer.2.readTransfers.length ≤ 1
    rw [hreads]
    exact hinv.reads
  · rw [if_neg hsize]
    have hnone := cancelWrite_of_clear (hclear hsize)
    have hwrites : ∀ {id : UInt32} {ctx : FileWriteContext δ},
        insertKey s.ops.cancelTimedOutWriteTransfer.2.writeTransfers id ctx = [(id, ctx)] := by
      intro id ctx
      rw [hnone]
      rfl
    refine ⟨?_, ?_, fun u hu => ?_⟩
    · show s.ops.cancelTimedOutWriteTransfer.2.readTransfers.length ≤ 1
      rw [hreads]
      exact hinv.reads
    · dsimp only
      rw [hwrites]
      exact Nat.le_refl _
    · obtain rfl := Option.some.inj hu
      exact ⟨_, hwrites, tracks_make hsize⟩

/-! ### Sending a chunk -/

theorem sendData_apart {txID chunkNo : UInt32} {data : List UInt8} {behind : Nat → UInt8}
    {answer : WriteAnswer} :
    WriteApart s (step crc base64 s (.sendData txID chunkNo data behind answer)) ∧
    (step crc base64 s (.sendData txID chunkNo data behind answer)).ops.writeTransfers.length ≤
      s.ops.writeTransfers.length := by
  show (_ ∧ _) ∧ (s.ops.sendDataForTransmitID crc base64 txID chunkNo data behind
    answer).2.2.writeTransfers.length ≤ _
  show ((s.ops.sendDataForTransmitID crc base64 txID chunkNo data behind
    answer).2.2.readTransfers = _ ∧ (s.ops.sendDataForTransmitID crc base64 txID chunkNo data
      behind answer).2.2.runningRxId = _) ∧ _
  rw [sendDataForTransmitID]
  split
  · exact ⟨⟨rfl, rfl⟩, Nat.le_refl _⟩
  · split
    · exact ⟨⟨rfl, rfl⟩, Nat.le_refl _⟩
    · dsimp only
      split
      · exact ⟨⟨rfl, rfl⟩, Nat.le_refl _⟩
      · split
        · split
          · exact ⟨⟨rfl, rfl⟩, length_eraseKey⟩
          · exact ⟨⟨rfl, rfl⟩, length_eraseKey⟩
        · exact ⟨⟨rfl, rfl⟩, Nat.le_of_eq length_setKey⟩

/-- The digest is that of the bytes in their order, however they are cut. -/
def Streams (crc : Crc32 δ) (hash : List UInt8 → List UInt8) : Prop :=
  ∀ parts : List (List UInt8), crc.getHash (parts.foldl crc.add crc.reset) = hash parts.flatten

section Send

variable {u : Upload} {ctx : FileWriteContext δ} {txID chunkNo : UInt32} {data : List UInt8}
  {behind : Nat → UInt8} {answer : WriteAnswer}

/-- Any chunk but the next one leaves the upload as it is. -/
theorem sendData_of_not_next (hopen : s.ops.writeTransfers = [(u.id, ctx)])
    (htracks : Tracks crc u ctx) (h : ¬ Next u txID chunkNo answer) :
    (s.ops.sendDataForTransmitID crc base64 txID chunkNo data behind answer).2.2.writeTransfers =
      s.ops.writeTransfers := by
  rw [sendDataForTransmitID, hopen, entry_cons]
  by_cases hid : txID = u.id
  · rw [if_pos hid]
    dsimp only
    split
    · exact hopen
    · next hvalid =>
        rw [not_not, htracks.validate_iff] at hvalid
        cases answer with
        | openError => exact hopen
        | writeError => exact hopen
        | written => exact absurd ⟨hid, hvalid.1, htracks.pending, rfl⟩ h
  · rw [if_neg hid]
    exact hopen

/-- The next chunk is written; the last one closes the upload. -/
theorem sendData_of_next (hopen : s.ops.writeTransfers = [(u.id, ctx)])
    (htracks : Tracks crc u ctx) (h : Next u txID chunkNo answer)
    (hsize : u.size.toNat + chunkSize.toNat ≤ 2 ^ 32) (hstreams : Streams crc hash) :
    ∃ ctx', s.ops.sendDataForTransmitID crc base64 txID chunkNo data behind answer =
      (if u.chunks + 1 = u.total then
        if hash (u.written ++ s.chunkBytes base64 u data behind) = u.crc32 then
          (.ok .success, [], { s.ops.decodeDataFromBase64 base64 data with
            writeTransfers := [], fileData := none })
        else (.error "File CRC32 mismatch", [u.path], { s.ops.decodeDataFromBase64 base64 data with
            writeTransfers := [], fileData := none })
      else (.ok .success, [], { s.ops.decodeDataFromBase64 base64 data with
            writeTransfers := [(u.id, ctx')] })) ∧
      (u.chunks + 1 ≠ u.total →
        Tracks crc (u.next (s.chunkBytes base64 u data behind)) ctx') := by
  obtain ⟨rfl, hchunk, -, rfl⟩ := h
  have hvalid : ctx.context.validateChunkRequest chunkNo = true :=
    htracks.validate_iff.2 ⟨hchunk, hsize⟩
  have hbytes : ctx.bytesOf ((s.ops.decodeDataFromBase64 base64 data).fileData.getD []) behind =
      s.chunkBytes base64 u data behind := by
    rw [FileWriteContext.bytesOf, htracks.dataLeft]
    rfl
  obtain ⟨ctx', hwrite, hpath, hcrc, heof, ⟨parts, hdigest, hwritten⟩, hnext⟩ :=
    @Tracks.write _ _ _ _ htracks ((s.ops.decodeDataFromBase64 base64 data).fileData.getD []) behind
  rw [hbytes] at hwritten hnext
  have hmatches : ctx'.crc32Matches crc =
      decide (hash (u.written ++ s.chunkBytes base64 u data behind) = u.crc32) := by
    rw [FileWriteContext.crc32Matches, FileContext.fileHash, hdigest, hstreams, hwritten, hcrc,
      decide_eq_decide, eq_comm]
  refine ⟨ctx', ?_, hnext⟩
  rw [sendDataForTransmitID, hopen, entry_singleton]
  dsimp only
  rw [if_neg (not_not_intro hvalid), hwrite]
  dsimp only
  have hwrites : (s.ops.decodeDataFromBase64 base64 data).writeTransfers = [(u.id, ctx)] := hopen
  rw [heof, hmatches, hpath, hwrites, eraseKey_singleton, setKey_singleton]
  simp only [decide_eq_true_eq]

theorem inv_sendData (hinv : Inv crc s)
    (hclear : s.Clear (.sendData txID chunkNo data behind answer)) (hstreams : Streams crc hash) :
    Inv crc (step crc base64 s (.sendData txID chunkNo data behind answer)) := by
  obtain ⟨⟨hreads, -⟩, hless⟩ :=
    @sendData_apart _ crc base64 s txID chunkNo data behind answer
  refine ⟨?_, hless.trans hinv.writes, fun u' hu' => ?_⟩
  · rw [hreads]
    exact hinv.reads
  · obtain ⟨u, hu, hafter⟩ := Option.bind_eq_some_iff.1
      (show (s.upload.bind _) = some u' from hu')
    obtain ⟨ctx, hopen, htracks⟩ := hinv.upload u hu
    by_cases hnext : Next u txID chunkNo answer
    · obtain ⟨ctx', hsend, htracks'⟩ := @sendData_of_next _ crc base64 hash s u ctx txID chunkNo data
        behind answer hopen htracks hnext (hclear u hu hnext) hstreams
      rw [if_pos hnext] at hafter
      split at hafter
      · exact absurd hafter (by simp)
      · next hmore =>
          obtain rfl := Option.some.inj hafter
          refine ⟨ctx', ?_, htracks' hmore⟩
          show (s.ops.sendDataForTransmitID crc base64 txID chunkNo data behind
            answer).2.2.writeTransfers = _
          rw [hsend, if_neg hmore]
    · rw [if_neg hnext] at hafter
      obtain rfl := Option.some.inj hafter
      exact ⟨ctx, (sendData_of_not_next hopen htracks hnext).trans hopen, htracks⟩

/-- A chunk in its turn is received. -/
theorem received (hinv : Inv crc s) (hstreams : Streams crc hash) (hu : s.upload = some u)
    (hclear : s.Clear (.sendData txID chunkNo data behind answer))
    (hnext : Next u txID chunkNo answer) :
    s.Received crc base64 hash u txID chunkNo data behind answer := by
  obtain ⟨ctx, hopen, htracks⟩ := hinv.upload u hu
  obtain ⟨ctx', hsend, -⟩ := @sendData_of_next _ crc base64 hash s u ctx txID chunkNo data behind
    answer hopen htracks hnext (hclear u hu hnext) hstreams
  rw [Received, hsend]
  by_cases hlast : u.chunks + 1 = u.total
  · rw [if_pos hlast]
    by_cases hmatches : hash (u.written ++ s.chunkBytes base64 u data behind) = u.crc32
    · rw [if_pos hmatches]
      dsimp only
      rw [if_pos hlast, if_pos hmatches]
      exact ⟨rfl, rfl, rfl⟩
    · rw [if_neg hmatches]
      dsimp only
      rw [if_pos hlast, if_neg hmatches]
      exact ⟨rfl, rfl, rfl⟩
  · rw [if_neg hlast]
    dsimp only
    rw [if_neg hlast, entry_singleton]
    exact ⟨rfl, rfl, rfl⟩

end Send

/-! ### Every call -/

theorem inv_step {c : TransferCall} (hinv : Inv crc s) (hclear : s.Clear c)
    (hstreams : Streams crc hash) : Inv crc (step crc base64 s c) := by
  cases c with
  | createReceive file size =>
      obtain ⟨hwrites, -⟩ := @createReceive_apart _ crc base64 s file size
      refine ⟨createReceive_reads hinv hclear, ?_, fun u hu => ?_⟩
      · rw [hwrites]
        exact hinv.writes
      · rw [hwrites]
        exact hinv.upload u hu
  | getData rxID chunkNo answer =>
      obtain ⟨hwrites, -⟩ := @getData_apart _ crc base64 s rxID chunkNo answer hclear
      refine ⟨?_, ?_, fun u hu => ?_⟩
      · exact (@getData_cases _ crc base64 s rxID chunkNo answer).2.2.1 ▸ hinv.reads
      · rw [hwrites]
        exact hinv.writes
      · rw [hwrites]
        exact hinv.upload u hu
  | createTransmit file size crc32 => exact inv_createTransmit hinv hclear
  | sendData txID chunkNo data behind answer => exact inv_sendData hinv hclear hstreams

theorem undisturbed_of_clear {c : TransferCall} (hinv : Inv crc s) (hclear : s.Clear c)
    (hstreams : Streams crc hash) : s.Undisturbed crc base64 hash c := by
  have hafter := @inv_step _ crc base64 hash s c hinv hclear hstreams
  refine ⟨hafter.reads, hafter.writes, ?_⟩
  cases c with
  | createReceive file size => exact createReceive_apart
  | getData rxID chunkNo answer => exact getData_apart hclear
  | createTransmit file size crc32 => exact createTransmit_apart
  | sendData txID chunkNo data behind answer =>
      exact ⟨sendData_apart.1, fun u hu hnext => received hinv hstreams hu hclear hnext⟩

/-- In a run in which no number runs over and no download ends under the number of an open
upload, transfers do not disturb each other. -/
theorem undisturbed_run (hstreams : Streams crc hash) {calls : List TransferCall}
    (h : EveryStep Clear (step crc base64) initial calls) :
    EveryStep (Undisturbed crc base64 hash) (step crc base64) initial calls :=
  (@everyStep_of_rule _ _ (Inv crc) (Undisturbed crc base64 hash) Clear (step crc base64)
    (fun _ _ hinv hclear => undisturbed_of_clear hinv hclear hstreams)
    (fun _ _ hinv hclear => inv_step hinv hclear hstreams) _ _ inv_initial h).1

/-! ### With the libraries in place -/

def crc32Byte (register : UInt32) (byte : UInt8) : UInt32 :=
  (List.range 8).foldl
    (fun r _ => if r &&& 1 = 1 then (r >>> 1) ^^^ 0xEDB88320 else r >>> 1)
    (register ^^^ byte.toUInt32)

/-- The eight hexadecimal digits of the checksum. -/
def crc32Text (register : UInt32) : List UInt8 :=
  (List.range 8).map fun i =>
    let digit := (~~~register >>> (28 - 4 * i).toUInt32) &&& 0xF
    (if digit < 10 then 0x30 + digit else 0x57 + digit).toUInt8

def plainCrc : Crc32 UInt32 :=
  ⟨0xFFFFFFFF, fun register bytes => bytes.foldl crc32Byte register, crc32Text⟩

theorem streams_plainCrc :
    Streams plainCrc fun bytes => crc32Text (bytes.foldl crc32Byte 0xFFFFFFFF) := by
  intro parts
  show _ = crc32Text (parts.flatten.foldl crc32Byte 0xFFFFFFFF)
  rw [List.foldl_flatten]
  rfl

def base64Alphabet : List UInt8 :=
  (List.range 26).map (fun i => 0x41 + i.toUInt8) ++
    (List.range 26).map (fun i => 0x61 + i.toUInt8) ++
    (List.range 10).map (fun i => 0x30 + i.toUInt8) ++ [0x2B, 0x2F]

def base64Encode : List UInt8 → List UInt8
  | a :: b :: c :: rest =>
      [a >>> 2, (a &&& 3) <<< 4 ||| b >>> 4, (b &&& 15) <<< 2 ||| c >>> 6, c &&& 63].map
        (fun n => base64Alphabet.getD n.toNat 0) ++ base64Encode rest
  | [a, b] =>
      [a >>> 2, (a &&& 3) <<< 4 ||| b >>> 4, (b &&& 15) <<< 2].map
        (fun n => base64Alphabet.getD n.toNat 0) ++ [0x3D]
  | [a] =>
      [a >>> 2, (a &&& 3) <<< 4].map (fun n => base64Alphabet.getD n.toNat 0) ++ [0x3D, 0x3D]
  | [] => []

def base64Decode : List UInt8 → List UInt8
  | a :: b :: c :: d :: rest =>
      let value (x : UInt8) : UInt8 := (base64Alphabet.idxOf x).toUInt8
      let bytes := [value a <<< 2 ||| value b >>> 4, value b <<< 4 ||| value c >>> 2,
        value c <<< 6 ||| value d]
      bytes.take (if c = 0x3D then 1 else if d = 0x3D then 2 else 3) ++ base64Decode rest
  | _ => []

def plainBase64 : Base64 :=
  ⟨base64Encode, fun dest src =>
    base64Decode src ++ dest.drop (base64Decode src).length⟩

/-- The file `f` of one byte is announced, with its checksum, and sent. -/
def oneByte : List TransferCall :=
  [.createTransmit [0x66] 1 [0x65, 0x38, 0x62, 0x37, 0x62, 0x65, 0x34, 0x33],
    .sendData 1 1 [0x59, 0x51, 0x3D, 0x3D] (fun _ => 0) .written]

theorem undisturbed_one_byte :
    EveryStep (Undisturbed plainCrc plainBase64
        fun bytes => crc32Text (bytes.foldl crc32Byte 0xFFFFFFFF))
      (step plainCrc plainBase64) initial oneByte := by
  refine undisturbed_run streams_plainCrc ⟨fun _ other hother => ?_, fun u hu _ => ?_, trivial⟩
  · exact absurd hother List.not_mem_nil
  · obtain rfl := Option.some.inj hu
    decide

/-- A download of one byte ends while an upload of two is open, both numbered one. -/
theorem download_drops_upload :
    ¬ EveryStep (Undisturbed plainCrc plainBase64
        fun bytes => crc32Text (bytes.foldl crc32Byte 0xFFFFFFFF))
      (step plainCrc plainBase64) initial
      [.createReceive [0x67] (.ok 1),
        .createTransmit [0x66] 2 [0x34, 0x65, 0x66, 0x66, 0x62, 0x36, 0x65, 0x62],
        .getData 1 1 (.content [0x61])] := by
  intro h
  have hapart := h.2.2.1.2.2
  exact absurd (congrArg List.length hapart.1) (by decide)

end Transfers

end MuditaOS.Desktop
