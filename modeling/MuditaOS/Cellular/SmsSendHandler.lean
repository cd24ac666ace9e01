import Mathlib.Data.List.Sort

/-!
# The handler of queued messages

A transcription of `SMSSendHandler.cpp`: a machine of two states that asks the
database for one queued record at a time and hands it to `onSend`. What the
callbacks answer is an argument, what they are asked to do is returned.
-/

namespace MuditaOS.Sms

inductive SMSType
  | DRAFT
  | FAILED
  | INBOX
  | OUTBOX
  | QUEUED
  | INPUT
  | UNKNOWN
  deriving DecidableEq, Repr

def DB_ID_NONE : Nat := 0

structure SMSRecord where
  ID : Nat := DB_ID_NONE
  date : Nat := 0
  body : List UInt8 := []
  type : SMSType := .UNKNOWN
  number : List UInt8 := []
  deriving DecidableEq, Repr

namespace SMSRecord

def isValid (record : SMSRecord) : Prop := record.ID ≠ DB_ID_NONE

instance (record : SMSRecord) : Decidable record.isValid :=
  inferInstanceAs (Decidable (_ ≠ _))

end SMSRecord

/-- The queries the handler makes. The search is for one record of type
`QUEUED`. -/
inductive Query
  | SMSSearchByType
  | SMSUpdate (record : SMSRecord)
  deriving DecidableEq, Repr

inductive Effect
  | onSendQuery (query : Query)
  | onSend (record : SMSRecord)
  deriving DecidableEq, Repr

structure Surroundings where
  offlineMode : Bool
  simInitialized : Bool
  modemResetInProgress : Bool
  deriving DecidableEq, Repr

inductive HandlerState
  | Idle
  | ProcessQuery
  deriving DecidableEq, Repr

namespace HandlerState

/-- `IdleState::handle`. No record is a notification. -/
def handleIdle : Option SMSRecord → Option HandlerState × List Effect
  | some _ => (none, [])
  | none => (some .ProcessQuery, [.onSendQuery .SMSSearchByType])

/-- `ProcessQueryState::handle`. -/
def handleProcessQuery (w : Surroundings) :
    Option SMSRecord → Option HandlerState × List Effect
  | none => (none, [])
  | some record =>
      if ¬record.isValid then (some .Idle, [])
      else if w.modemResetInProgress then (none, [])
      else if w.offlineMode ∨ ¬w.simInitialized then
        (some .Idle, [.onSendQuery (.SMSUpdate { record with type := .FAILED })])
      else (none, [.onSend record, .onSendQuery .SMSSearchByType])

def handle (w : Surroundings) :
    HandlerState → Option SMSRecord → Option HandlerState × List Effect
  | .Idle => handleIdle
  | .ProcessQuery => handleProcessQuery w

end HandlerState

/-- The captured record of `actionOnDelay` stands for the closure. -/
structure SMSSendHandler where
  currentState : HandlerState := .Idle
  delayedMessage : Bool := false
  actionOnDelay : SMSRecord := {}
  deriving DecidableEq, Repr

namespace SMSSendHandler

variable (w : Surroundings) (h : SMSSendHandler)

/-- `handleStateChange(currentState->handle(record))`. -/
def handleStateChange (record : Option SMSRecord) : SMSSendHandler × List Effect :=
  ({ h with currentState := (h.currentState.handle w record).1.getD h.currentState },
    (h.currentState.handle w record).2)

def handleDBNotification : SMSSendHandler × List Effect := h.handleStateChange w none

def handleIncomingDbRecord (record : SMSRecord) (onDelay : Bool) :
    SMSSendHandler × List Effect :=
  if ¬onDelay then h.handleStateChange w (some record)
  else ({ h with delayedMessage := true, actionOnDelay := record }, [])

def sendMessageIfDelayed : SMSSendHandler × List Effect :=
  if h.delayedMessage then
    { h with delayedMessage := false }.handleStateChange w (some h.actionOnDelay)
  else (h, [])

def handleNoMoreDbRecords : SMSSendHandler × List Effect :=
  h.handleStateChange w (some {})

def requestNotSendMessage : SMSSendHandler × List Effect :=
  (h, [.onSendQuery .SMSSearchByType])

end SMSSendHandler

end MuditaOS.Sms
