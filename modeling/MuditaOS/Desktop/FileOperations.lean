import Mathlib.Data.UInt
import MuditaOS.Lib.Keyed

/-!
# File transfers

A transcription of `FileContext.cpp` and of `FileOperations.cpp`. A `std::size_t` has 32
bits. The digest and the base64 text are those of other libraries and come in as
parameters; what the file system answers comes in with the call, and so do the bytes of the
memory behind a vector that is written past its end. An exception is its text.
-/

namespace MuditaOS.Desktop

open MuditaOS.Lib

/-- `CRC32`, of the state `δ`. -/
structure Crc32 (δ : Type) where
  reset : δ
  add : δ → List UInt8 → δ
  getHash : δ → List UInt8

/-- `bintob64`, and `b64tobin` into a buffer. -/
structure Base64 where
  encode : List UInt8 → List UInt8
  decode : List UInt8 → List UInt8 → List UInt8

variable {δ : Type}

/-! ## Contexts -/

structure FileContext (δ : Type) where
  path : List UInt8
  size : UInt32
  offset : UInt32
  chunkSize : UInt32
  runningCrc32Digest : δ
  deriving DecidableEq

namespace FileContext

def make (crc : Crc32 δ) (path : List UInt8) (size chunkSize : UInt32) :
    Except String (FileContext δ) :=
  if size = 0 ∨ chunkSize = 0 then .error "Invalid FileContext arguments"
  else .ok ⟨path, size, 0, chunkSize, crc.reset⟩

variable (ctx : FileContext δ)

def advanceFileOffset (bySize : UInt32) : FileContext δ :=
  { ctx with offset := ctx.offset + bySize }

def reachedEOF : Bool := ctx.size ≤ ctx.offset

def chunksInQuantity (quantity : UInt32) : UInt32 := (quantity + ctx.chunkSize - 1) / ctx.chunkSize

def totalChunksInFile : UInt32 := ctx.chunksInQuantity ctx.size

def expectedChunkInFile : UInt32 := 1 + ctx.chunksInQuantity ctx.offset

def validateChunkRequest (chunkNo : UInt32) : Bool :=
  !(chunkNo < 1 || ctx.totalChunksInFile < chunkNo || chunkNo ≠ ctx.expectedChunkInFile)

def fileHash (crc : Crc32 δ) : List UInt8 := crc.getHash ctx.runningCrc32Digest

/-- The size of the next chunk. -/
def dataLeft : UInt32 := min ctx.chunkSize (ctx.size - ctx.offset)

/-- The bytes go into the digest. -/
def digest (crc : Crc32 δ) (data : List UInt8) : FileContext δ :=
  { ctx with runningCrc32Digest := crc.add ctx.runningCrc32Digest data }

end FileContext

/-- How a file answers to a read, with its bytes. -/
inductive ReadAnswer where
  | openError
  | readError
  | content (bytes : List UInt8)

/-- How a file answers to a write. -/
inductive WriteAnswer where
  | openError
  | writeError
  | written
  deriving DecidableEq

/-- `FileReadContext::read`. A buffer is all zeros before it is read into. -/
def FileContext.read (crc : Crc32 δ) (ctx : FileContext δ) (answer : ReadAnswer) :
    Except String (List UInt8 × FileContext δ) :=
  match answer with
  | .openError => .error "File open error"
  | .readError => .error "File read error"
  | .content bytes =>
      let buffer := (List.range ctx.dataLeft.toNat).map fun i =>
        bytes.getD (ctx.offset.toNat + i) 0
      .ok (buffer, (ctx.digest crc buffer).advanceFileOffset ctx.dataLeft)

structure FileWriteContext (δ : Type) where
  context : FileContext δ
  crc32Digest : List UInt8
  deriving DecidableEq

namespace FileWriteContext

variable (crc : Crc32 δ) (ctx : FileWriteContext δ)

/-- What is written of a vector: as much as is left, with what lies behind it. -/
def bytesOf (data : List UInt8) (behind : Nat → UInt8) : List UInt8 :=
  (List.range ctx.context.dataLeft.toNat).map fun i => data.getD i (behind i)

def write (data : List UInt8) (behind : Nat → UInt8) (answer : WriteAnswer) :
    Except String (FileWriteContext δ) :=
  match answer with
  | .openError => .error "File open error"
  | .writeError => .error "File write error"
  | .written =>
      .ok { ctx with
        context := (ctx.context.digest crc (ctx.bytesOf data behind)).advanceFileOffset
          ctx.context.dataLeft }

def crc32Matches : Bool := ctx.crc32Digest = ctx.context.fileHash crc

end FileWriteContext

/-! ## Operations -/

inductive ReturnCodes where
  | success | failure
  deriving DecidableEq, Repr

structure FileOperations (δ : Type) where
  readTransfers : List (UInt32 × FileContext δ)
  writeTransfers : List (UInt32 × FileWriteContext δ)
  runningRxId : UInt32
  runningTxId : UInt32
  fileData : Option (List UInt8)

/-- `find`, `erase` and `insert` of a map, and a change of the value under a key. -/
def eraseKey {γ : Type} (transfers : List (UInt32 × γ)) (id : UInt32) : List (UInt32 × γ) :=
  transfers.filter fun entry => entry.1 ≠ id

def insertKey {γ : Type} (transfers : List (UInt32 × γ)) (id : UInt32) (ctx : γ) :
    List (UInt32 × γ) :=
  if (entry transfers id).isSome then transfers else (id, ctx) :: transfers

def setKey {γ : Type} (transfers : List (UInt32 × γ)) (id : UInt32) (ctx : γ) :
    List (UInt32 × γ) :=
  transfers.map fun entry => if entry.1 = id then (id, ctx) else entry

namespace FileOperations

def initial : FileOperations δ := ⟨[], [], 0, 0, none⟩

def singleChunkSize : UInt32 := 3 * 4 * 1024

def chunkSize : UInt32 := 12 * singleChunkSize

def encodedSize (binarySize : Nat) : Nat := (binarySize + 2) / 3 * 4 + 1

def decodedSize (encodedSize : Nat) : Nat := (encodedSize + 3) / 4 * 3 + 1

/-- The text goes into a string of zeros, which is a byte longer than it. -/
def encodeDataAsBase64 (base64 : Base64) (binaryData : List UInt8) : List UInt8 :=
  let encodedData := base64.encode binaryData
  encodedData ++ List.replicate (encodedSize binaryData.length - encodedData.length) 0

variable (crc : Crc32 δ) (base64 : Base64) (ops : FileOperations δ)

/-! ### Reading -/

def cancelTimedOutReadTransfer : FileOperations δ :=
  if ops.runningRxId = 0 then ops
  else { ops with readTransfers := eraseKey ops.readTransfers ops.runningRxId }

/-- `size` is what `file_size` returns or throws. -/
def createReceiveIDForFile (file : List UInt8) (size : Except String UInt64) :
    Except String (UInt32 × UInt32) × FileOperations δ :=
  let ops := ops.cancelTimedOutReadTransfer
  let rxID := ops.runningRxId + 1
  let ops := { ops with runningRxId := rxID }
  match size with
  | .error e => (.error e, ops)
  | .ok size =>
      if size = 0 then (.error "File size error", ops)
      else
        match FileContext.make crc file size.toUInt32 chunkSize with
        | .error e => (.error e, ops)
        | .ok ctx =>
            (.ok (rxID, size.toUInt32),
              { ops with readTransfers := insertKey ops.readTransfers rxID ctx })

/-- The text and the checksum, both empty where the request is refused. -/
def getDataForReceiveID (rxID chunkNo : UInt32) (answer : ReadAnswer) :
    Except String (List UInt8 × List UInt8) × FileOperations δ :=
  match entry ops.readTransfers rxID with
  | none => (.ok ([], []), ops)
  | some ctx =>
      if ¬ ctx.validateChunkRequest chunkNo then (.ok ([], []), ops)
      else
        match ctx.read crc answer with
        | .error e => (.error e, ops)
        | .ok (data, ctx) =>
            let ops := { ops with readTransfers := setKey ops.readTransfers rxID ctx }
            if data = [] then (.ok ([], []), ops)
            else if ctx.reachedEOF then
              (.ok (encodeDataAsBase64 base64 data, ctx.fileHash crc),
                { ops with writeTransfers := eraseKey ops.writeTransfers rxID })
            else (.ok (encodeDataAsBase64 base64 data, []), ops)

/-! ### Writing -/

/-- With the file that is removed. -/
def cancelTimedOutWriteTransfer : List (List UInt8) × FileOperations δ :=
  if ops.runningTxId = 0 then ([], ops)
  else
    match entry ops.writeTransfers ops.runningTxId with
    | none => ([], ops)
    | some ctx =>
        ([ctx.context.path],
          { ops with writeTransfers := eraseKey ops.writeTransfers ops.runningTxId })

/-- What is returned, the files that are removed, and the state. -/
def createTransmitIDForFile (file : List UInt8) (size : UInt32) (crc32 : List UInt8) :
    Except String UInt32 × List (List UInt8) × FileOperations δ :=
  let (removed, ops) := ops.cancelTimedOutWriteTransfer
  let txID := ops.runningTxId + 1
  let ops := { ops with runningTxId := txID }
  match FileContext.make crc file size chunkSize with
  | .error e => (.error e, removed, ops)
  | .ok ctx =>
      (.ok txID, removed,
        { ops with
          writeTransfers := insertKey ops.writeTransfers txID ⟨ctx, crc32⟩
          fileData := some (List.replicate singleChunkSize.toNat 0) })

/-- What is in the buffer once it has the size that the text asks for; there is one as long as
a transfer is open. -/
def resized (data : List UInt8) : List UInt8 :=
  let buffer := ops.fileData.getD []
  let decodedDataSize := decodedSize data.length
  buffer.take decodedDataSize ++ List.replicate (decodedDataSize - buffer.length) 0

def decodeDataFromBase64 (data : List UInt8) : FileOperations δ :=
  { ops with fileData := some (base64.decode (ops.resized data) data) }

def sendDataForTransmitID (txID chunkNo : UInt32) (data : List UInt8) (behind : Nat → UInt8)
    (answer : WriteAnswer) : Except String ReturnCodes × List (List UInt8) × FileOperations δ :=
  match entry ops.writeTransfers txID with
  | none => (.ok .failure, [], ops)
  | some ctx =>
      if ¬ ctx.context.validateChunkRequest chunkNo then (.ok .failure, [], ops)
      else
        let ops := ops.decodeDataFromBase64 base64 data
        match ctx.write crc (ops.fileData.getD []) behind answer with
        | .error e => (.error e, [], ops)
        | .ok ctx =>
            if ctx.context.reachedEOF then
              let done := { ops with
                writeTransfers := eraseKey ops.writeTransfers txID
                fileData := none }
              if ctx.crc32Matches crc then (.ok .success, [], done)
              else (.error "File CRC32 mismatch", [ctx.context.path], done)
            else
              (.ok .success, [],
                { ops with writeTransfers := setKey ops.writeTransfers txID ctx })

end FileOperations

end MuditaOS.Desktop
