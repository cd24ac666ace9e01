import Mathlib.Data.Nat.Digits.Defs
import MuditaOS.Lib.Numeral
import MuditaOS.Lib.Search

/-!
# The parser of the desktop protocol

A transcription of `ParserFSM.cpp` and of the framing helpers in `Common.hpp`. A
message is a `#`, nine digits of length and the payload. The parser of the JSON
text is a parameter: all the machine asks of it is whether the value is null and
which error it reported, if any. The machine also keeps the payloads it gave to
`parseMessage` and to `processMessage`.
-/

namespace MuditaOS.Desktop

open MuditaOS.Lib

/-! ## Framing helpers -/

def sizeLength : Nat := 9

def sizeHeader : Nat := sizeLength + 1

def endpointChar : UInt8 := 0x23

def removeHeader (msg : List UInt8) : List UInt8 := msg.drop sizeHeader

/-- `unsigned long` and `long` have 32 bits; both exceptions give zero. -/
def calcPayloadLength (header : List UInt8) : Nat :=
  match stoSigned 32 10 (substr header 1 none) with
  | some v => (v % 2 ^ 32).toNat
  | none => 0

def getHeader (msg : List UInt8) : List UInt8 := substr msg 0 (some sizeHeader)

def eraseFront (msg : List UInt8) (pos : Nat) : List UInt8 := msg.drop pos

def extractPayload (msg : List UInt8) (payloadLength : Nat) : List UInt8 :=
  if msg.length > payloadLength then substr msg 0 (some payloadLength) else msg

/-- `std::to_string`. -/
def toDecimal (n : Nat) : List UInt8 :=
  if n = 0 then [0x30]
  else (Nat.digits 10 n).reverse.map fun d => UInt8.ofNat (0x30 + d)

/-- `buildResponse`, from the dumped JSON text on. -/
def buildResponse (jsonStr : List UInt8) : List UInt8 :=
  let size := toDecimal jsonStr.length
  endpointChar :: (List.replicate (sizeLength - size.length) 0x30 ++ size ++ jsonStr)

/-! ## The message handler -/

/-- `json11::Json::parse`: whether the value is null, and the error if one is
stored. -/
abbrev JsonParse := List UInt8 → Bool × Option (List UInt8)

structure MessageHandler where
  jsonNull : Bool := true
  jsonErrorMsg : List UInt8 := []
  deriving DecidableEq, Repr

namespace MessageHandler

def isJSONNull (h : MessageHandler) : Bool := h.jsonNull

def isValid (h : MessageHandler) : Bool := h.jsonErrorMsg.isEmpty

/-- An error stays until the handler is replaced. -/
def parseMessage (json : JsonParse) (h : MessageHandler) (msg : List UInt8) :
    MessageHandler where
  jsonNull := (json msg).1
  jsonErrorMsg := (json msg).2.getD h.jsonErrorMsg

end MessageHandler

/-! ## The state machine -/

inductive State
  | noMsg
  | receivedPartialHeader
  | receivedPartialPayload
  deriving DecidableEq, Repr

structure StateMachine where
  receivedMsg : List UInt8 := []
  state : State := .noMsg
  payload : List UInt8 := []
  header : List UInt8 := []
  payloadLength : Nat := 0
  messageHandler : MessageHandler := {}
  timerActive : Bool := false
  parsed : List (List UInt8) := []
  processed : List (List UInt8) := []
  deriving DecidableEq, Repr

namespace StateMachine

def resetParser (m : StateMachine) : StateMachine :=
  { m with payload := [], header := [], payloadLength := 0, state := .noMsg }

def parsePayload (json : JsonParse) (m : StateMachine) : StateMachine :=
  if m.payload = [] then { m with state := .noMsg }
  else
    let m := { m with
      messageHandler := m.messageHandler.parseMessage json m.payload
      parsed := m.parsed ++ [m.payload] }
    if ¬ m.messageHandler.isValid ∨ m.messageHandler.isJSONNull then
      { m with state := .noMsg }
    else
      { m with
        processed := m.processed ++ [m.payload]
        state := .noMsg
        timerActive := false }

/-- `parseHeader` is what follows on the rest of the received text. -/
def parseNewMessage (json : JsonParse) (parseHeader : StateMachine → StateMachine)
    (m : StateMachine) : StateMachine :=
  if m.receivedMsg.length ≥ m.payloadLength then
    let m := parsePayload json
      { m with payload := extractPayload m.receivedMsg m.payloadLength }
    if m.receivedMsg.length > m.payloadLength then
      parseHeader { m with receivedMsg := eraseFront m.receivedMsg m.payloadLength }
    else m
  else { m with payload := m.receivedMsg, state := .receivedPartialPayload }

/-- Every round takes a header off the received text, which bounds the fuel. -/
def parseHeader (json : JsonParse) : Nat → StateMachine → StateMachine
  | 0, m => m
  | fuel + 1, m =>
      let m := { m with payload := [], header := [], payloadLength := 0 }
      if endpointChar ∉ m.receivedMsg then m
      else if m.receivedMsg.length < sizeHeader then
        { m with
          state := .receivedPartialHeader
          header := m.header ++ m.receivedMsg }
      else
        let m := { m with header := getHeader m.receivedMsg }
        let m := { m with payloadLength := calcPayloadLength m.header }
        if m.payloadLength = 0 then { m with state := .noMsg }
        else
          parseNewMessage json (parseHeader json fuel)
            { m with receivedMsg := removeHeader m.receivedMsg }

def parsePartialHeader (json : JsonParse) (m : StateMachine) : StateMachine :=
  let missingHeaderLength := sizeHeader - m.header.length
  if m.receivedMsg.length ≥ missingHeaderLength then
    let m := { m with
      header := m.header ++ substr m.receivedMsg 0 (some missingHeaderLength) }
    let m := { m with
      payloadLength := calcPayloadLength m.header
      receivedMsg := eraseFront m.receivedMsg missingHeaderLength }
    parseNewMessage json (parseHeader json (m.receivedMsg.length + 1)) m
  else { m with header := m.header ++ m.receivedMsg }

def parsePartialMessage (json : JsonParse) (m : StateMachine) : StateMachine :=
  let missingPayloadLength := m.payloadLength - m.payload.length
  if m.receivedMsg.length ≥ missingPayloadLength then
    let m := parsePayload json
      { m with payload := m.payload ++ extractPayload m.receivedMsg missingPayloadLength }
    if m.receivedMsg.length > missingPayloadLength then
      let m := { m with receivedMsg := eraseFront m.receivedMsg missingPayloadLength }
      parseHeader json (m.receivedMsg.length + 1) m
    else m
  else { m with payload := m.payload ++ m.receivedMsg }

/-- A message is never empty: an empty one makes `parseHeader` throw. -/
def processMessage (json : JsonParse) (m : StateMachine) (msg : List UInt8) :
    StateMachine :=
  let m := { m with receivedMsg := msg, timerActive := true }
  match m.state with
  | .noMsg => parseHeader json (m.receivedMsg.length + 1) m
  | .receivedPartialHeader => parsePartialHeader json m
  | .receivedPartialPayload => parsePartialMessage json m

/-- The callback of the single-shot timer. -/
def expire (m : StateMachine) : StateMachine :=
  { m.resetParser with timerActive := false }

def setMessageHandler (m : StateMachine) (h : MessageHandler) : StateMachine :=
  { m with messageHandler := h }

end StateMachine

/-- What a state machine is asked to do. -/
inductive ParserEvent
  | message (msg : List UInt8) (nonempty : msg ≠ [])
  | expiry
  | handler (h : MessageHandler)
  deriving DecidableEq, Repr

def StateMachine.step (json : JsonParse) (m : StateMachine) :
    ParserEvent → StateMachine
  | .message msg _ => m.processMessage json msg
  | .expiry => m.expire
  | .handler h => m.setMessageHandler h

end MuditaOS.Desktop
