import MuditaOS.Unicode.Ucs2

/-!
# The parts of a long message

A transcription of `SMSPartsHandler.cpp`. The address of the buffer that
`substr(begin, length)` allocates is `alloc begin length`; no run of the handler
asks for the same characters twice.
-/

namespace MuditaOS.Sms

open MuditaOS.Unicode

/-- `msgConstants::singleMessageMaxLen`. -/
def singleMessageMaxLen : Nat := 67

/-- `msgConstants::maxConcatenatedCount`. -/
def maxConcatenatedCount : Nat := 7

def ucs2SingleCharacterLen : Nat := 4

structure SMSPartsHandler where
  rawMessageUTF : UTF8
  partsCount : Nat
  lastIndex : Nat
  deriving DecidableEq, Repr

namespace SMSPartsHandler

/-- `SMSPartsHandler(rawMessage)`, its copy of the message at `addr`. -/
def ofMessage (addr : Nat) (rawMessage : List UInt8) : SMSPartsHandler where
  rawMessageUTF := UTF8.ofString addr rawMessage
  partsCount := rawMessage.length / singleMessageMaxLen +
    if rawMessage.length % singleMessageMaxLen ≠ 0 then 1 else 0
  lastIndex := 0

def isPartsCountAboveLimit (h : SMSPartsHandler) : Bool :=
  h.partsCount > maxConcatenatedCount

def isSinglePartSMS (h : SMSPartsHandler) : Bool := h.partsCount == 1

def getPartsCount (h : SMSPartsHandler) : Nat := h.partsCount

/-- What `UCS2(string)` leaves of `string`: every read moves its cached pair. -/
def readAll (string : UTF8) : UTF8 :=
  (List.range string.strLength).foldl (fun string i => (string.index i).2) string

/-- The loop that shortens a part of `partLength` characters until its
hexadecimal form fits; `none` is the part of no length. -/
def shrink (alloc : Nat → Nat → Nat) (h : SMSPartsHandler) :
    Nat → UTF8 → Option UTF8
  | 0, _ => none
  | partLength + 1, messagePart =>
      if (UCS2.ofUtf8 messagePart).str.length >
          singleMessageMaxLen * ucs2SingleCharacterLen then
        shrink alloc h partLength ((readAll messagePart).moveAssign
          (h.rawMessageUTF.substr (alloc h.lastIndex partLength) h.lastIndex
            partLength))
      else some (readAll messagePart)

def getNextSmsPart (alloc : Nat → Nat → Nat) (h : SMSPartsHandler) :
    List UInt8 × SMSPartsHandler :=
  let partLength :=
    if h.rawMessageUTF.strLength - h.lastIndex < singleMessageMaxLen then
      h.rawMessageUTF.strLength - h.lastIndex
    else singleMessageMaxLen
  if partLength = 0 then ([], h)
  else
    let messagePart := h.rawMessageUTF.substr (alloc h.lastIndex partLength)
      h.lastIndex partLength
    match shrink alloc h partLength messagePart with
    | none => ([], h)
    | some messagePart =>
        ((UCS2.ofUtf8 messagePart).str,
          { h with lastIndex := h.lastIndex + messagePart.strLength })

/-- `count` calls of `getNextSmsPart`, as the loop of `onSendSMS` makes them. -/
def nextParts (alloc : Nat → Nat → Nat) :
    Nat → SMSPartsHandler → List (List UInt8) × SMSPartsHandler
  | 0, h => ([], h)
  | count + 1, h =>
      let (part, h) := h.getNextSmsPart alloc
      let (parts, h) := nextParts alloc count h
      (part :: parts, h)

end SMSPartsHandler

end MuditaOS.Sms
