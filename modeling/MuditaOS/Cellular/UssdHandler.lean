import Mathlib.Logic.Basic

/-!
# USSD sessions

`USSDHandler.cpp`, with the callbacks of the service and what a USSD URC makes it do. The
service handles one message at a time, its own in the order in which they were sent, between
any others. Whether a command to the modem succeeds comes in from outside, and a tick of a
timer that has been stopped is ignored. An abort request carries a mark that is no part of
the program: it was sent because the timer ran out, or to repeat such a request.
-/

namespace MuditaOS.Cellular.Ussd

inductive State where
  | none
  | pushSession
  | pullRequestSent
  | pullResponseReceived
  | sessionAborted
  deriving DecidableEq, Repr

inductive RequestType where
  | pullSessionRequest
  | pushSessionRequest
  | abortSession
  deriving DecidableEq, Repr

structure USSDMessage where
  requestType : RequestType
  expiry : Bool := false
  deriving DecidableEq, Repr

/-- A call of `onAbortSession`, with the mark of the request. -/
structure AbortCall where
  ussdSessionTimeout : Bool
  expiry : Bool
  deriving DecidableEq, Repr

def pullResponseTimeout : UInt32 := 30

def pullSessionTimeout : UInt32 := 60

def noTimeout : UInt32 := 0

structure UssdService where
  ussdState : State := .none
  ussdTimeout : UInt32 := 0
  timerActive : Bool := false
  /-- The messages that wait to be handled. -/
  messages : List USSDMessage := []
  abortCalls : List AbortCall := []
  deriving DecidableEq, Repr

namespace UssdService

def sendUnicast (message : USSDMessage) (s : UssdService) : UssdService :=
  { s with messages := s.messages ++ [message] }

def ussdSessionTimeout (s : UssdService) : Bool := !s.timerActive && s.ussdTimeout == 0

def setUSSDTimer (s : UssdService) : UssdService :=
  let ussdTimeout :=
    match s.ussdState with
    | .pullRequestSent => pullResponseTimeout
    | .pullResponseReceived => pullSessionTimeout
    | .pushSession | .sessionAborted | .none => noTimeout
  { s with ussdTimeout := ussdTimeout, timerActive := ussdTimeout != noTimeout }

def handleUSSDRequest (message : USSDMessage) (succeeds : Bool) (s : UssdService) :
    UssdService :=
  match message.requestType with
  | .pullSessionRequest =>
      if succeeds then setUSSDTimer { s with ussdState := .pullRequestSent } else s
  | .abortSession =>
      let s : UssdService :=
        { s with abortCalls := s.abortCalls ++ [⟨s.ussdSessionTimeout, message.expiry⟩] }
      if succeeds then
        (setUSSDTimer { s with ussdState := .sessionAborted }).sendUnicast
          ⟨.pushSessionRequest, false⟩
      else s.sendUnicast ⟨.abortSession, message.expiry⟩
  | .pushSessionRequest =>
      if succeeds then setUSSDTimer { s with ussdState := .pushSession } else s

def handleUSSDTimer (s : UssdService) : UssdService :=
  if 0 < s.ussdTimeout then { s with ussdTimeout := s.ussdTimeout - 1 }
  else ({ s with timerActive := false } : UssdService).sendUnicast ⟨.abortSession, true⟩

def externalRequestHandled (s : UssdService) : UssdService :=
  setUSSDTimer { s with ussdState := .pullRequestSent }

def handleURC (s : UssdService) : Bool × UssdService :=
  match s.ussdState with
  | .pullRequestSent => (true, setUSSDTimer { s with ussdState := .pullResponseReceived })
  | .pushSession => (true, s.setUSSDTimer)
  | _ => (false, s)

/-- `Handle(Cusd)`, of a URC that may have no message and may ask for no action. -/
def handleCusd (hasMessage isActionNeeded : Bool) (s : UssdService) : UssdService :=
  if !hasMessage then s.sendUnicast ⟨.abortSession, false⟩
  else if isActionNeeded then
    match s.handleURC with
    | (true, s) => s
    | (false, s) => s.sendUnicast ⟨.abortSession, false⟩
  else s.sendUnicast ⟨.abortSession, false⟩

inductive Event where
  /-- A request of the user or of the network. -/
  | request (requestType : RequestType)
  /-- The next message is handled, and the modem's answer is as given. -/
  | handle (succeeds : Bool)
  | timerTick
  | externalRequest
  | cusd (hasMessage isActionNeeded : Bool)
  deriving DecidableEq, Repr

def step (s : UssdService) : Event → UssdService
  | .request requestType => s.sendUnicast ⟨requestType, false⟩
  | .handle succeeds =>
      match s.messages with
      | [] => s
      | message :: messages =>
          handleUSSDRequest message succeeds { s with messages := messages }
  | .timerTick => if s.timerActive then s.handleUSSDTimer else s
  | .externalRequest => s.externalRequestHandled
  | .cusd hasMessage isActionNeeded => s.handleCusd hasMessage isActionNeeded

end UssdService

end MuditaOS.Cellular.Ussd
