import MuditaOS.Proofs.Downloads

/-!
# The bytes of a chunk

What an upload writes is as long as the next chunk of the announced file; the buffer it is
written from is as long as the text that has just come asks for. Nothing compares the two: a
text that decodes to something shorter is written with what the buffer held, or with what lies
behind it, and one that decodes to something longer loses its end.
-/

namespace MuditaOS.Desktop

open MuditaOS.Lib FileOperations Transfers

variable {δ : Type}

/-! ## What is promised -/

/-- The decoder writes the bytes of a text at the front of a buffer that has the room for them,
and four characters are no more than three bytes. -/
structure Decodes (base64 : Base64) (decoded : List UInt8 → List UInt8) : Prop where
  decode : ∀ buffer text, (decoded text).length ≤ buffer.length →
    base64.decode buffer text = decoded text ++ buffer.drop (decoded text).length
  length : ∀ text, (decoded text).length ≤ text.length / 4 * 3

namespace Chunk

section Call

variable (crc : Crc32 δ) (base64 : Base64) (decoded : List UInt8 → List UInt8)
  (ops : FileOperations δ) (ctx : FileWriteContext δ) (txID chunkNo : UInt32)
  (text : List UInt8) (behind : Nat → UInt8) (answer : WriteAnswer)

/-- The buffer that is written from. -/
def buffer : List UInt8 := (ops.decodeDataFromBase64 base64 text).fileData.getD []

/-- The text is decoded, and the file is open for it. -/
def Writes : Prop := ctx.context.validateChunkRequest chunkNo = true ∧ answer ≠ .openError

/-- The digest goes on with these bytes, and the transfer with it; behind the last chunk it is
compared with the announced one. -/
def Digested (bytes : List UInt8) : Prop :=
  let (result, _, ops') := ops.sendDataForTransmitID crc base64 txID chunkNo text behind answer
  let digest := crc.add ctx.context.runningCrc32Digest bytes
  if ctx.context.size ≤ ctx.context.offset + ctx.context.dataLeft then
    result = if ctx.crc32Digest = crc.getHash digest then .ok .success
      else .error "File CRC32 mismatch"
  else ∃ ctx', entry ops'.writeTransfers txID = some ctx' ∧
    ctx'.context.runningCrc32Digest = digest

/-- There is a buffer where a text is decoded. What is written to the file and added to the
digest lies in it and is what the text decodes to, which has the expected length; what is not
written is refused. -/
structure WritesWhatWasSent : Prop where
  hasBuffer : ctx.context.validateChunkRequest chunkNo = true → ops.fileData.isSome
  inBuffer : Writes ctx chunkNo answer →
    ctx.context.dataLeft.toNat ≤ (buffer base64 ops text).length
  bytes : Writes ctx chunkNo answer →
    ctx.bytesOf (buffer base64 ops text) behind = decoded text
  digest : Writes ctx chunkNo answer → answer = .written →
    Digested crc base64 ops ctx txID chunkNo text behind answer (decoded text)
  refused : ¬ Writes ctx chunkNo answer ∨ (decoded text).length ≠ ctx.context.dataLeft.toNat →
    (ops.sendDataForTransmitID crc base64 txID chunkNo text behind answer).1 ≠ .ok .success ∧
    (ops.sendDataForTransmitID crc base64 txID chunkNo text behind answer).2.2.writeTransfers =
      ops.writeTransfers

/-- A chunk that is let in finds a buffer, and, where the file is open, has the expected
length. -/
def Fits : Prop :=
  ctx.context.validateChunkRequest chunkNo = true → ops.fileData.isSome ∧
    (answer ≠ .openError → (decoded text).length = ctx.context.dataLeft.toNat)

end Call

/-! ## Chunks that fit -/

section Proofs

variable {crc : Crc32 δ} {base64 : Base64} {decoded : List UInt8 → List UInt8}
  {ops : FileOperations δ} {ctx : FileWriteContext δ} {txID chunkNo : UInt32}
  {text : List UInt8} {behind : Nat → UInt8} {answer : WriteAnswer}

theorem length_resized : (ops.resized text).length = decodedSize text.length := by
  rw [resized, List.length_append, List.length_take, List.length_replicate]
  omega

/-- The buffer holds what the text decodes to, and begins with it. -/
theorem buffer_eq (hdecodes : Decodes base64 decoded) :
    (decoded text).length ≤ (buffer base64 ops text).length ∧
      buffer base64 ops text =
        decoded text ++ (ops.resized text).drop (decoded text).length := by
  have hroom : (decoded text).length ≤ (ops.resized text).length := by
    have hlength := hdecodes.length text
    rw [length_resized, decodedSize]
    omega
  have hbuffer : buffer base64 ops text = decoded text ++ _ :=
    hdecodes.decode (ops.resized text) text hroom
  refine ⟨?_, hbuffer⟩
  rw [hbuffer, List.length_append]
  exact Nat.le_add_right _ _

theorem length_bytesOf {data : List UInt8} :
    (ctx.bytesOf data behind).length = ctx.context.dataLeft.toNat := by
  rw [FileWriteContext.bytesOf, List.length_map, List.length_range]

/-- A chunk of the expected length is written as it is. -/
theorem bytesOf_buffer (hdecodes : Decodes base64 decoded)
    (hlength : (decoded text).length = ctx.context.dataLeft.toNat) :
    ctx.bytesOf (buffer base64 ops text) behind = decoded text := by
  refine List.ext_getElem (by rw [length_bytesOf, hlength]) fun i hi hi' => ?_
  simp only [FileWriteContext.bytesOf, List.getElem_map, List.getElem_range]
  rw [(buffer_eq hdecodes).2, List.getD_eq_getElem?_getD, List.getElem?_append_left hi',
    List.getElem?_eq_getElem hi', Option.getD_some]

/-! ## A call -/

theorem send_refused (hentry : entry ops.writeTransfers txID = some ctx)
    (h : ¬ Writes ctx chunkNo answer) :
    (ops.sendDataForTransmitID crc base64 txID chunkNo text behind answer).1 ≠ .ok .success ∧
    (ops.sendDataForTransmitID crc base64 txID chunkNo text behind answer).2.2.writeTransfers =
      ops.writeTransfers := by
  rw [sendDataForTransmitID, hentry]
  dsimp only
  by_cases hvalid : ctx.context.validateChunkRequest chunkNo = true
  · rw [if_neg (not_not_intro hvalid)]
    obtain rfl : answer = .openError := not_not.1 fun hopen => h ⟨hvalid, hopen⟩
    exact ⟨by simp [FileWriteContext.write], rfl⟩
  · rw [if_pos hvalid]
    exact ⟨by simp, rfl⟩

theorem write_written {data : List UInt8} :
    ∃ ctx', ctx.write crc data behind .written = .ok ctx' ∧
      ctx'.context.reachedEOF =
        decide (ctx.context.size ≤ ctx.context.offset + ctx.context.dataLeft) ∧
      ctx'.context.runningCrc32Digest =
        crc.add ctx.context.runningCrc32Digest (ctx.bytesOf data behind) ∧
      ctx'.crc32Digest = ctx.crc32Digest := ⟨_, rfl, rfl, rfl, rfl⟩

theorem send_digested (hentry : entry ops.writeTransfers txID = some ctx)
    (hvalid : ctx.context.validateChunkRequest chunkNo = true) :
    Digested crc base64 ops ctx txID chunkNo text behind .written
      (ctx.bytesOf (buffer base64 ops text) behind) := by
  obtain ⟨ctx', hwrite, heof, hdigest, hannounced⟩ :=
    @write_written _ crc ctx behind (buffer base64 ops text)
  rw [buffer] at hwrite
  rw [Digested, sendDataForTransmitID, hentry]
  dsimp only
  rw [if_neg (not_not_intro hvalid), hwrite]
  dsimp only
  rw [heof, FileWriteContext.crc32Matches, FileContext.fileHash, hdigest, hannounced]
  simp only [decide_eq_true_eq]
  split
  · split <;> rfl
  · exact ⟨ctx', entry_setKey hentry, hdigest⟩

/-- Exactly a chunk that fits is written as it was sent, or refused. -/
theorem writes_what_was_sent_iff (hentry : entry ops.writeTransfers txID = some ctx)
    (hdecodes : Decodes base64 decoded) :
    WritesWhatWasSent crc base64 decoded ops ctx txID chunkNo text behind answer ↔
      Fits decoded ops ctx chunkNo text answer := by
  constructor
  · intro h hvalid
    refine ⟨h.hasBuffer hvalid, fun hopen => ?_⟩
    rw [← h.bytes ⟨hvalid, hopen⟩, length_bytesOf]
  · intro hfits
    have hlength : Writes ctx chunkNo answer →
        (decoded text).length = ctx.context.dataLeft.toNat := fun hwrites =>
      (hfits hwrites.1).2 hwrites.2
    refine ⟨fun hvalid => (hfits hvalid).1, fun hwrites => ?_, fun hwrites => ?_,
      fun hwrites hwritten => ?_, fun hnot => ?_⟩
    · rw [← hlength hwrites]
      exact (buffer_eq hdecodes).1
    · exact bytesOf_buffer hdecodes (hlength hwrites)
    · subst hwritten
      have hbytes : ctx.bytesOf (buffer base64 ops text) behind = decoded text :=
        bytesOf_buffer hdecodes (hlength hwrites)
      rw [← hbytes]
      exact send_digested hentry hwrites.1
    · refine send_refused hentry fun hwrites => ?_
      exact hnot.elim (fun h => h hwrites) fun h => h (hlength hwrites)

end Proofs

/-! ## With the libraries in place -/

theorem length_base64Decode : ∀ {text : List UInt8},
    (base64Decode text).length ≤ text.length / 4 * 3 := by
  intro text
  induction text using base64Decode.induct with
  | case1 a b c d rest ih =>
      rw [base64Decode, List.length_append, List.length_take]
      simp only [List.length_cons, List.length_nil]
      split
      · omega
      · split <;> omega
  | case2 text hshort =>
      rw [base64Decode]
      · exact Nat.zero_le _
      · exact hshort

theorem decodes_plainBase64 : Decodes plainBase64 base64Decode :=
  ⟨fun _ _ _ => rfl, fun _ => length_base64Decode⟩

/-- An upload of so many bytes to the file `f`. -/
def opened (size : UInt32) : FileOperations UInt32 :=
  (FileOperations.initial.createTransmitIDForFile plainCrc [0x66] size []).2.2

def context (size : UInt32) : FileWriteContext UInt32 :=
  ⟨⟨[0x66], size, 0, chunkSize, plainCrc.reset⟩, []⟩

/-- One byte is announced and one is sent. -/
theorem one_byte_sent :
    WritesWhatWasSent plainCrc plainBase64 base64Decode (opened 1) (context 1) 1 1
      [0x59, 0x51, 0x3D, 0x3D] (fun _ => 0) .written :=
  (writes_what_was_sent_iff rfl decodes_plainBase64).2 fun _ => ⟨rfl, by decide⟩

/-- Five bytes are announced and the text is empty: four bytes behind the buffer are written. -/
theorem bytes_behind_buffer_written :
    ¬ WritesWhatWasSent plainCrc plainBase64 base64Decode (opened 5) (context 5) 1 1 []
      (fun _ => 0) .written := by
  intro h
  have hlength : (buffer plainBase64 (opened 5) []).length = 1 := length_resized
  have hinside := h.inBuffer ⟨by decide, by decide⟩
  rw [hlength] at hinside
  exact absurd hinside (by decide)

end Chunk

end MuditaOS.Desktop
