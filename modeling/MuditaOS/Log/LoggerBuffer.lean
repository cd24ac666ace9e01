import Mathlib.Data.UInt
import Mathlib.Data.PNat.Basic

/-!
# The buffers of the logger

A ring of messages which, when it is full, gives up the oldest message for a new one. The bytes
that are lost so are told of in front of the next message that is taken out.
-/

namespace MuditaOS.Log

/-- A line to log, and how many were logged before it. -/
structure LogMessage where
  number : Nat
  text : String
  deriving DecidableEq, Repr

/-- What a message begins with in a slot that has not been used. -/
def LogMessage.blank : LogMessage := ⟨0, ""⟩

def LogMessage.length (message : LogMessage) : Nat := message.text.utf8ByteSize

structure StringCircularBuffer where
  buffer : List LogMessage
  full : Bool
  head : Nat
  capacity : Nat
  size : Nat
  tail : Nat
  deriving DecidableEq, Repr

namespace StringCircularBuffer

def create (size : Nat) : StringCircularBuffer where
  buffer := List.replicate size .blank
  full := false
  head := 0
  capacity := size
  size := 0
  tail := 0

def isEmpty (ring : StringCircularBuffer) : Bool := ring.size == 0

def isFull (ring : StringCircularBuffer) : Bool := ring.full

def get (ring : StringCircularBuffer) : Option LogMessage × StringCircularBuffer :=
  if ring.isEmpty then (none, ring)
  else
    (some (ring.buffer.getD ring.tail .blank),
      { ring with
        full := false
        tail := (ring.tail + 1) % ring.capacity
        size := ring.size - 1 })

def updateMembersBeforePut (ring : StringCircularBuffer) : StringCircularBuffer :=
  if ring.full then { ring with tail := (ring.tail + 1) % ring.capacity }
  else { ring with size := ring.size + 1 }

def updateMembersAfterPut (ring : StringCircularBuffer) : StringCircularBuffer :=
  let head := (ring.head + 1) % ring.capacity
  { ring with head := head, full := head == ring.tail }

def put (item : LogMessage) (ring : StringCircularBuffer) : StringCircularBuffer :=
  let before := ring.updateMembersBeforePut
  { before with buffer := before.buffer.set before.head item }.updateMembersAfterPut

end StringCircularBuffer

/-- A message taken out, and the number of lost bytes it tells of. -/
structure LogEntry where
  lost : UInt32
  message : LogMessage
  deriving DecidableEq, Repr

def lostBytesMessage : String := "bytes were lost."

/-- The string of an entry. -/
def LogEntry.text (entry : LogEntry) : String :=
  if 0 < entry.lost then
    toString entry.lost ++ " " ++ lostBytesMessage ++ "\n" ++ entry.message.text
  else entry.message.text

structure LoggerBuffer extends StringCircularBuffer where
  numOfLostBytes : UInt32
  deriving DecidableEq, Repr

namespace LoggerBuffer

def create (size : Nat) : LoggerBuffer where
  toStringCircularBuffer := .create size
  numOfLostBytes := 0

def get (buffer : LoggerBuffer) : Option LogEntry × LoggerBuffer :=
  match buffer.toStringCircularBuffer.get with
  | (none, _) => (none, buffer)
  | (some message, ring) => (some ⟨buffer.numOfLostBytes, message⟩, ⟨ring, 0⟩)

def updateNumOfLostBytes (buffer : LoggerBuffer) : LoggerBuffer :=
  if !buffer.isFull then buffer
  else
    match buffer.toStringCircularBuffer.get with
    | (none, ring) => ⟨ring, buffer.numOfLostBytes⟩
    | (some lost, ring) => ⟨ring, buffer.numOfLostBytes + UInt32.ofNat lost.length⟩

def put (message : LogMessage) (buffer : LoggerBuffer) : LoggerBuffer :=
  let updated := buffer.updateNumOfLostBytes
  ⟨updated.toStringCircularBuffer.put message, updated.numOfLostBytes⟩

/-- The loop of `Logger::getLogs`, for so many rounds at most. -/
def takeAll : Nat → LoggerBuffer → List LogEntry × LoggerBuffer
  | 0, buffer => ([], buffer)
  | rounds + 1, buffer =>
      if buffer.isEmpty then ([], buffer)
      else
        match buffer.get with
        | (none, rest) => takeAll rounds rest
        | (some entry, rest) =>
            let (entries, emptied) := takeAll rounds rest
            (entry :: entries, emptied)

end LoggerBuffer

end MuditaOS.Log
