import MuditaOS.Cellular.AtCommon
import MuditaOS.Lib.Search

/-!
# The URC splitter, `ATURCStream`

A transcription of `ATURCStream.cpp`. Strings are lists of bytes, `npos` is
`none`, and the two tick reads of a write, the one in `fuse` and the one that
stamps `lastWriteTime`, are inputs of the write.

The two loops run on fuel. `lookForNext` moves its mark to a later quotation
mark in every round and `tryParse` erases a URC from the buffer in every round,
so one unit more than the buffer's length is enough for both.
-/

namespace MuditaOS.Cellular

open MuditaOS.Lib

def quotationMark : UInt8 := 0x22

structure ATURCStream where
  atBuffer : List UInt8 := []
  urcBeginFound : Bool := false
  lookForNextURC : Bool := false
  openQuotationMark : Bool := false
  posMark : Option Nat := some 0
  urcList : List (List UInt8) := []
  lastWriteTime : UInt32
  deriving DecidableEq, Repr

namespace ATURCStream

/-- The constructor leaves `lastWriteTime` uninitialised. -/
def fresh (garbage : UInt32) : ATURCStream := { lastWriteTime := garbage }

def search (st : ATURCStream) : Bool × ATURCStream :=
  if !st.urcBeginFound then
    match find delimiter st.atBuffer 0 with
    | none => (false, { st with atBuffer := [] })
    | some pos =>
        (true, { st with urcBeginFound := true, atBuffer := st.atBuffer.drop pos })
  else (true, st)

/-- `posMark + 1`, which wraps to zero on `npos`. -/
def afterMark (st : ATURCStream) : Nat :=
  match st.posMark with
  | some pos => pos + 1
  | none => 0

def checkQuotation (st : ATURCStream) : Bool × ATURCStream :=
  if !st.openQuotationMark then
    match find delimiter st.atBuffer st.afterMark with
    | some posDelimiter =>
        let takeUrc : Bool × ATURCStream :=
          (true,
            { st with
              urcList := st.urcList ++
                [substr st.atBuffer 0 (some (posDelimiter + delimiter.length))]
              atBuffer := st.atBuffer.drop (posDelimiter + delimiter.length)
              lookForNextURC := true })
        match find [quotationMark] st.atBuffer st.afterMark with
        | some posMark2 =>
            if posDelimiter > posMark2 then
              (false,
                { st with
                  posMark := some posMark2
                  openQuotationMark := !st.openQuotationMark })
            else takeUrc
        | none => takeUrc
    | none => (false, st)
  else (false, st)

/-- The end of the loop body of `lookForNext`. -/
def nextMark (st : ATURCStream) : ATURCStream :=
  { st with
    openQuotationMark := !st.openQuotationMark
    posMark := find [quotationMark] st.atBuffer st.afterMark }

/-- The `do … while (posMark != npos)` loop of `lookForNext`. -/
def lookForNextLoop : Nat → ATURCStream → ATURCStream
  | 0, st => st
  | fuel + 1, st =>
      match st.checkQuotation with
      | (true, st) => st
      | (false, st) =>
          if st.nextMark.posMark = none then st.nextMark
          else lookForNextLoop fuel st.nextMark

def lookForNext (st : ATURCStream) : Bool × ATURCStream :=
  let st := { st with
    lookForNextURC := false
    openQuotationMark := false
    posMark := some 0 }
  let st := lookForNextLoop (st.atBuffer.length + 1) st
  (st.lookForNextURC, st)

/-- The `while (search())` loop of `tryParse`. -/
def tryParseLoop : Nat → ATURCStream → ATURCStream
  | 0, st => st
  | fuel + 1, st =>
      match st.search with
      | (false, st) => st
      | (true, st) =>
          match st.lookForNext with
          | (false, st) => { st with urcBeginFound := false }
          | (true, st) => tryParseLoop fuel st

def tryParse (st : ATURCStream) : ATURCStream :=
  tryParseLoop (st.atBuffer.length + 1) st

def maxTimeout : UInt32 := 5

def maxSize : Nat := 2048

def fuse (st : ATURCStream) (ticks : UInt32) : ATURCStream :=
  if st.atBuffer = [] then st
  else if ticks ≥ st.lastWriteTime + maxTimeout ∨ st.atBuffer.length > maxSize then
    { st with atBuffer := [] }
  else st

/-- One call of `write`, with the ticks its two clock reads return. -/
structure Write where
  fuseTicks : UInt32
  stampTicks : UInt32
  buffer : List UInt8
  deriving DecidableEq, Repr

def write (st : ATURCStream) (w : Write) : ATURCStream :=
  let st := st.fuse w.fuseTicks
  tryParse { st with
    lastWriteTime := w.stampTicks
    atBuffer := st.atBuffer ++ w.buffer }

end ATURCStream

end MuditaOS.Cellular
