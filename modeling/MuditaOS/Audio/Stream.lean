import Mathlib
import MuditaOS.Lib.Slots

/-!
# The audio stream

A transcription of `Stream.cpp`: a ring of blocks of one size with a copying
interface (`push`, `pop`) and a zero-copy one (`reserve`, `commit`, `release` to
write, `peek`, `consume`, `unpeek` to read). An address in the ring is an offset
into `_buffer`; the counters are `size_t` and wrap. A call returns what it
returns in the source, the events it broadcasts to every listener, and the
stream it leaves.
-/

namespace MuditaOS.Audio

open MuditaOS.Lib

inductive Event
  | noEvent
  | streamFull
  | streamHalfUsed
  | streamEmpty
  | streamOverflow
  | streamUnderFlow
  deriving DecidableEq, Repr

/-- The memory a span points into. -/
inductive Memory
  | buffer
  | emptyBuffer
  | caller
  deriving DecidableEq, Repr

structure Span where
  memory : Memory
  data : Nat
  dataSize : Nat
  deriving DecidableEq, Repr

def Span.dataEnd (span : Span) : Nat := span.data + span.dataSize

structure Allocator where
  allocate : Nat → List UInt8
  length_allocate : ∀ size, (allocate size).length = size

/-- `make_unique<uint8_t[]>(size)`. -/
def standardStreamAllocator : Allocator where
  allocate size := List.replicate size 0
  length_allocate _ := List.length_replicate

/-! ## Positions in the ring -/

/-- `_bufStart` is the offset zero. -/
structure RawBlockIterator where
  bufEnd : Nat
  curPos : Nat
  stepSize : Nat
  deriving DecidableEq, Repr

namespace RawBlockIterator

/-- `operator++`. -/
def next (it : RawBlockIterator) : RawBlockIterator :=
  if it.curPos + it.stepSize = it.bufEnd then { it with curPos := 0 }
  else { it with curPos := it.curPos + it.stepSize }

/-- `operator*`. -/
def deref (it : RawBlockIterator) : Span where
  memory := .buffer
  data := it.curPos
  dataSize := it.stepSize

/-- `operator==`. -/
def equal (it rhs : RawBlockIterator) : Bool := it.curPos == rhs.curPos

end RawBlockIterator

structure Stream where
  blockSize : Nat
  blockCount : Nat
  blocksUsed : Nat
  peekCount : Nat
  reserveCount : Nat
  buffer : List UInt8
  emptyBuffer : List UInt8
  dataStart : RawBlockIterator
  dataEnd : RawBlockIterator
  peekPosition : RawBlockIterator
  writeReservationPosition : RawBlockIterator
  deriving DecidableEq, Repr

/-- `a + b` on `size_t`. -/
def sizeAdd (a b : Nat) : Nat := (a + b) % 2 ^ 32

/-- `a - b` on `size_t`. -/
def sizeDiff (a b : Nat) : Nat := if b ≤ a then a - b else a + 2 ^ 32 - b

namespace Stream

/-- The position a stream begins at. -/
def bufferStart (blockSize blockCount : Nat) : RawBlockIterator where
  bufEnd := blockSize * blockCount
  curPos := 0
  stepSize := blockSize

def create (allocator : Allocator) (blockSize : Nat) (bufferingSize : UInt32) :
    Stream where
  blockSize := blockSize
  blockCount := bufferingSize.toNat
  blocksUsed := 0
  peekCount := 0
  reserveCount := 0
  buffer := allocator.allocate (blockSize * bufferingSize.toNat)
  emptyBuffer := List.replicate blockSize 0
  dataStart := bufferStart blockSize bufferingSize.toNat
  dataEnd := bufferStart blockSize bufferingSize.toNat
  peekPosition := bufferStart blockSize bufferingSize.toNat
  writeReservationPosition := bufferStart blockSize bufferingSize.toNat

/-- What a span shows. -/
def read (s : Stream) (span : Span) : List UInt8 :=
  match span.memory with
  | .buffer => (s.buffer.drop span.data).take span.dataSize
  | .emptyBuffer => (s.emptyBuffer.drop span.data).take span.dataSize
  | .caller => []

/-- `copy` to the memory of a span. -/
def write (s : Stream) (span : Span) (data : List UInt8) : Stream :=
  match span.memory with
  | .buffer => { s with buffer := patch s.buffer span.data data }
  | .emptyBuffer => { s with emptyBuffer := patch s.emptyBuffer span.data data }
  | .caller => s

def getNullSpan (s : Stream) : Span where
  memory := .emptyBuffer
  data := 0
  dataSize := s.blockSize

def isEmpty (s : Stream) : Bool := s.blocksUsed == 0

def isFull (s : Stream) : Bool := s.blocksUsed == s.blockCount

/-- `broadcastStateEvents`. -/
def stateEvents (s : Stream) : List Event :=
  if s.blocksUsed = s.blockCount / 2 then [.streamHalfUsed]
  else if s.isEmpty then [.streamEmpty]
  else if s.isFull then [.streamFull]
  else []

/-! ## The copying interface -/

/-- `push` of a span that shows `data`. -/
def push (s : Stream) (data : List UInt8) : Bool × List Event × Stream :=
  if data.length ≠ s.blockSize then (false, [], s)
  -- write reservation in progress
  else if ¬ s.dataEnd.equal s.writeReservationPosition then (false, [], s)
  else if s.isFull then (false, [.streamOverflow], s)
  else
    let s := s.write s.dataEnd.deref data
    let s := { s with
      dataEnd := s.dataEnd.next
      blocksUsed := sizeAdd s.blocksUsed 1
      writeReservationPosition := s.dataEnd.next }
    (true, s.stateEvents, s)

/-- The bytes copied to the span, if there are any, and the span the caller is
left with. -/
def pop (s : Stream) (span : Span) :
    Option (List UInt8) × Span × List Event × Stream :=
  if span.dataSize ≠ s.blockSize then (none, span, [], s)
  -- peek in progress
  else if ¬ s.dataStart.equal s.peekPosition then (none, span, [], s)
  else if s.isEmpty then (none, s.getNullSpan, [.streamUnderFlow], s)
  else
    let data := s.read s.dataStart.deref
    let s := { s with
      dataStart := s.dataStart.next
      blocksUsed := sizeDiff s.blocksUsed 1
      peekPosition := s.dataStart.next }
    (some data, span, s.stateEvents, s)

/-! ## Zero-copy reading -/

def peek (s : Stream) : Bool × Span × List Event × Stream :=
  if s.peekCount < s.blocksUsed then
    (true, s.peekPosition.deref, [],
      { s with
        peekPosition := s.peekPosition.next
        peekCount := sizeAdd s.peekCount 1 })
  else (false, s.getNullSpan, [.streamUnderFlow], s)

def consume (s : Stream) : List Event × Stream :=
  let s := { s with
    blocksUsed := sizeDiff s.blocksUsed s.peekCount
    peekCount := 0
    dataStart := s.peekPosition }
  (s.stateEvents, s)

def unpeek (s : Stream) : Stream :=
  { s with peekPosition := s.dataStart, peekCount := 0 }

/-! ## Zero-copy writing -/

def reserve (s : Stream) : Bool × Span × List Event × Stream :=
  if sizeDiff s.blockCount s.blocksUsed > s.reserveCount then
    (true, s.writeReservationPosition.next.deref, [],
      { s with
        writeReservationPosition := s.writeReservationPosition.next
        reserveCount := sizeAdd s.reserveCount 1 })
  else
    -- the data is reset to the end of the peeked part
    (false, s.peekPosition.next.deref, [.streamOverflow],
      { s with
        blocksUsed := 0
        dataEnd := s.peekPosition
        reserveCount := 1
        writeReservationPosition := s.peekPosition.next })

def commit (s : Stream) : List Event × Stream :=
  let s := { s with
    blocksUsed := sizeAdd s.blocksUsed s.reserveCount
    reserveCount := 0
    dataEnd := s.writeReservationPosition }
  (s.stateEvents, s)

def release (s : Stream) : Stream :=
  { s with reserveCount := 0, writeReservationPosition := s.dataEnd }

def reset (s : Stream) : Stream :=
  { s with
    dataStart := bufferStart s.blockSize s.blockCount
    dataEnd := bufferStart s.blockSize s.blockCount
    peekPosition := bufferStart s.blockSize s.blockCount
    writeReservationPosition := bufferStart s.blockSize s.blockCount
    emptyBuffer := List.replicate s.blockSize 0
    blocksUsed := 0
    peekCount := 0
    reserveCount := 0 }

end Stream

/-! ## Calls -/

inductive Call
  | push (data : List UInt8)
  | pop (span : Span)
  | peek
  | unpeek
  | consume
  | reserve
  | commit
  | release
  | reset
  deriving DecidableEq, Repr

def Stream.call (s : Stream) : Call → Stream
  | .push data => (s.push data).2.2
  | .pop span => (s.pop span).2.2.2
  | .peek => s.peek.2.2.2
  | .unpeek => s.unpeek
  | .consume => s.consume.2
  | .reserve => s.reserve.2.2.2
  | .commit => s.commit.2
  | .release => s.release
  | .reset => s.reset

end MuditaOS.Audio
