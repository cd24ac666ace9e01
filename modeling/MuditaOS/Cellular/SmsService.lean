import MuditaOS.Cellular.SmsSendHandler
import MuditaOS.Lib.Run

/-!
# Sending messages through the database

The handler lives in the cellular service and the records in the database
service, and each takes what the other sent it from a mailbox. The database
takes the queries of the handler in order and answers into the mailbox of the
cellular service, where it also announces each record that was created or
updated, by the handler or by anyone else. An answer that finds the service not
ready is dropped.

The system also keeps which records were passed to `onSend` since they were last
queued, and whether the service heard of the database or of the SIM since the
modem was last reset.
-/

namespace MuditaOS.Sms

open Lib

/-! ## The database -/

/-- The rows of the table `sms`. SQLite numbers them from one. -/
structure SmsTable where
  rows : List SMSRecord
  valid : ∀ row ∈ rows, row.isValid

namespace SmsTable

def getManyByType (table : SmsTable) (type : SMSType) (offset limit : Nat) :
    List SMSRecord :=
  (((table.rows.filter (·.type = type)).insertionSort (·.date ≤ ·.date)).drop offset).take
    limit

def nextId (table : SmsTable) : Nat := (table.rows.map (·.ID)).foldr max 0 + 1

def add (table : SmsTable) (record : SMSRecord) : SmsTable where
  rows := table.rows ++ [{ record with ID := table.nextId }]
  valid := by
    intro row hrow
    rcases List.mem_append.mp hrow with h | h
    · exact table.valid row h
    · rw [List.mem_singleton.mp h]
      exact Nat.succ_ne_zero _

/-- `SMSRecordInterface::Update`. The number belongs to the thread. -/
def updateRow (record row : SMSRecord) : SMSRecord :=
  if row.ID = record.ID then
    { row with
      date := record.date
      body := record.body
      type := record.type }
  else row

theorem updateRow_ID {record row : SMSRecord} : (updateRow record row).ID = row.ID := by
  rw [updateRow]
  split <;> rfl

def update (table : SmsTable) (record : SMSRecord) : SmsTable where
  rows := table.rows.map (updateRow record)
  valid := by
    intro row hrow
    obtain ⟨old, hold, rfl⟩ := List.mem_map.mp hrow
    rw [SMSRecord.isValid, updateRow_ID]
    exact table.valid old hold

def removeById (table : SmsTable) (id : Nat) : SmsTable where
  rows := table.rows.filter (·.ID ≠ id)
  valid := fun row hrow => table.valid row (List.mem_filter.mp hrow).1

/-- The record with this number is queued. -/
def Queues (table : SmsTable) (id : Nat) : Prop :=
  ∃ row ∈ table.rows, row.ID = id ∧ row.type = .QUEUED

instance (table : SmsTable) (id : Nat) : Decidable (table.Queues id) :=
  inferInstanceAs (Decidable (∃ _ ∈ _, _))

/-- Some record is queued. -/
def Waits (table : SmsTable) : Prop := ∃ row ∈ table.rows, row.type = .QUEUED

instance (table : SmsTable) : Decidable table.Waits :=
  inferInstanceAs (Decidable (∃ _ ∈ _, _))

end SmsTable

/-! ## Both services -/

inductive Message
  | notification
  | answer (result : Option SMSRecord)
  deriving DecidableEq, Repr

structure Modem where
  surroundings : Surroundings
  ready : Bool
  deriving DecidableEq, Repr

structure Services where
  handler : SMSSendHandler
  modem : Modem
  table : SmsTable
  toDb : List Query
  toCellular : List Message
  passed : List Nat
  heard : Bool

/-- What can happen next. The arguments of a delivery are whether a call has
just ended and whether the modem accepts a message. -/
inductive Input
  | serve
  | deliver (onDelay accepted : Bool)
  | callEndedRecently (accepted : Bool)
  | simReady (functionalityResetNeeded : Bool)
  | modem (modem : Modem)
  | create (record : SMSRecord)
  | update (record : SMSRecord)
  | remove (id : Nat)
  deriving DecidableEq, Repr

namespace Services

variable (s : Services)

/-! ## What the handler does -/

def request (query : Query) : Services := { s with toDb := s.toDb ++ [query] }

def performSoftReset : Services :=
  { s with
    modem :=
      { s.modem with
        surroundings := { s.modem.surroundings with modemResetInProgress := true }
        ready := false }
    heard := false }

/-- `ServiceCellularPriv::onSendSMS` over an open channel. -/
def onSendSMS (accepted : Bool) (record : SMSRecord) : Services :=
  let s := { s with passed := record.ID :: s.passed }
  if accepted then s.request (.SMSUpdate { record with type := .OUTBOX })
  else s.performSoftReset.request (.SMSUpdate { record with type := .FAILED })

def perform (accepted : Bool) : Services → Effect → Services
  | s, .onSendQuery query => s.request query
  | s, .onSend record => s.onSendSMS accepted record

def run (accepted : Bool) (result : SMSSendHandler × List Effect) : Services :=
  result.2.foldl (perform accepted) { s with handler := result.1 }

/-! ## What the services receive -/

def notify : Services := { s with toCellular := s.toCellular ++ [.notification] }

/-- The database takes its next query. -/
def serve : Services :=
  match s.toDb with
  | [] => s
  | .SMSSearchByType :: rest =>
      { s with
        toDb := rest
        toCellular := s.toCellular ++
          [.answer (s.table.getManyByType .QUEUED 0 1).head?] }
  | .SMSUpdate record :: rest =>
      { s with
        toDb := rest
        table := s.table.update record }.notify

def hear : Services :=
  { s with heard := !s.modem.surroundings.modemResetInProgress }

/-- `ServiceCellular::handle` of a search result. -/
def answered (result : Option SMSRecord) (onDelay : Bool) : SMSSendHandler × List Effect :=
  if ¬s.modem.ready then (s.handler, [])
  else
    match result with
    | none => s.handler.handleNoMoreDbRecords s.modem.surroundings
    | some record =>
        if record.type = .QUEUED then
          s.handler.handleIncomingDbRecord s.modem.surroundings record onDelay
        else (s.handler, [])

def receive (message : Message) (onDelay : Bool) : SMSSendHandler × List Effect :=
  match message with
  | .notification => s.handler.handleDBNotification s.modem.surroundings
  | .answer result => s.answered result onDelay

def heed : Message → Services
  | .notification => s.hear
  | .answer _ => s

/-- What the handler makes of an input, and asks for. -/
def reaction : Input → SMSSendHandler × List Effect
  | .deliver onDelay _ =>
      match s.toCellular with
      | [] => (s.handler, [])
      | message :: _ => s.receive message onDelay
  | .callEndedRecently _ => s.handler.sendMessageIfDelayed s.modem.surroundings
  | .simReady false =>
      if s.modem.ready then s.handler.requestNotSendMessage else (s.handler, [])
  | _ => (s.handler, [])

/-- The cellular service takes its next message. -/
def deliver (onDelay accepted : Bool) : Services :=
  match s.toCellular with
  | [] => s
  | message :: rest =>
      ({ s with toCellular := rest }.heed message).run accepted
        (s.reaction (.deliver onDelay accepted))

def callEndedRecently (accepted : Bool) : Services :=
  s.run accepted (s.reaction (.callEndedRecently accepted))

/-- The handler of `SimReady`. -/
def simReady (functionalityResetNeeded : Bool) : Services :=
  if functionalityResetNeeded then { s with heard := false }
  else s.hear.run true (s.reaction (.simReady functionalityResetNeeded))

def setModem (modem : Modem) : Services :=
  { s with
    modem := modem
    heard := s.heard && !modem.surroundings.modemResetInProgress }

/-- A write by another service, which announces the record and may queue it. -/
def write (table : SmsTable) (id : Nat) : Services :=
  { s with
    table := table
    passed := if table.Queues id then s.passed.filter (· ≠ id) else s.passed }.notify

def step (s : Services) : Input → Services
  | .serve => s.serve
  | .deliver onDelay accepted => s.deliver onDelay accepted
  | .callEndedRecently accepted => s.callEndedRecently accepted
  | .simReady functionalityResetNeeded => s.simReady functionalityResetNeeded
  | .modem modem => s.setModem modem
  | .create record => s.write (s.table.add record) s.table.nextId
  | .update record => s.write (s.table.update record) record.ID
  | .remove id => { s with table := s.table.removeById id }

/-- Both services over a table as the last run left it. -/
def start (modem : Modem) (table : SmsTable) : Services where
  handler := {}
  modem := modem
  table := table
  toDb := []
  toCellular := []
  passed := []
  heard := false

/-! ## At most once -/

/-- No record is passed to `onSend` that was so since it was last queued. -/
def SendsOnce (s : Services) (input : Input) : Prop :=
  ∀ record, Effect.onSend record ∈ (s.reaction input).2 → record.ID ∉ s.passed

/-- The record that the input brings to the handler. -/
def brought (s : Services) : Input → Option SMSRecord
  | .deliver false _ =>
      match s.toCellular with
      | .answer result :: _ => if s.modem.ready then result else none
      | _ => none
  | .callEndedRecently _ =>
      if s.handler.delayedMessage then some s.handler.actionOnDelay else none
  | _ => none

/-- The handler passes the records it is brought to `onSend`. -/
def Sends (s : Services) : Prop :=
  s.handler.currentState = .ProcessQuery ∧
  s.modem.surroundings.modemResetInProgress = false ∧
  s.modem.surroundings.offlineMode = false ∧
  s.modem.surroundings.simInitialized = true

def answers (messages : List Message) : List SMSRecord :=
  messages.filterMap fun message =>
    match message with
    | .notification => none
    | .answer result => result

def delayed (s : Services) : List SMSRecord :=
  if s.handler.delayedMessage then [s.handler.actionOnDelay] else []

/-- The records that wait beside the one that the input brings. -/
def elsewhere (s : Services) : Input → List SMSRecord
  | .deliver _ _ => answers s.toCellular.tail ++ s.delayed
  | _ => answers s.toCellular

/-- A search is taken before any update of the record. -/
def Exposed (id : Nat) : List Query → Prop
  | [] => False
  | .SMSSearchByType :: _ => True
  | .SMSUpdate record :: rest => record.ID ≠ id ∧ Exposed id rest

/-- An update of the record is taken before any search. -/
def Covered (id : Nat) : List Query → Prop
  | [] => False
  | .SMSSearchByType :: _ => False
  | .SMSUpdate record :: rest => record.ID = id ∨ Covered id rest

instance : Decidable s.Sends := inferInstanceAs (Decidable (_ ∧ _))

instance {id : Nat} : ∀ {queries : List Query}, Decidable (Exposed id queries)
  | [] => inferInstanceAs (Decidable False)
  | .SMSSearchByType :: _ => inferInstanceAs (Decidable True)
  | .SMSUpdate record :: _ =>
      @instDecidableAnd (record.ID ≠ id) _ _ instDecidableExposed

/-- A record that is passed to `onSend` waits nowhere else, and no search on its
way can find it once more. -/
def SoleCopy (s : Services) (input : Input) : Prop :=
  ∀ record ∈ s.brought input, record.isValid → s.Sends →
    (∀ other ∈ s.elsewhere input, other.ID ≠ record.ID) ∧
    ¬(s.table.Queues record.ID ∧ Exposed record.ID s.toDb)

instance (input : Input) : Decidable (s.SoleCopy input) :=
  inferInstanceAs (Decidable (∀ _ ∈ _, _))

/-! ## At least once -/

/-- Nothing is under way between the services. -/
def Quiet (s : Services) : Prop :=
  s.toDb = [] ∧ s.toCellular = [] ∧ s.handler.delayedMessage = false

/-- In a quiet system that could send, and that heard of anything since the last
modem reset, no record is queued. -/
def NoneForgotten (s : Services) : Prop :=
  s.Quiet → s.modem.surroundings.simInitialized = true →
    s.modem.surroundings.offlineMode = false →
    s.modem.surroundings.modemResetInProgress = false → s.heard = true → ¬s.table.Waits

def isAnswer : Message → Bool
  | .notification => false
  | .answer _ => true

def isUpdate : Query → Bool
  | .SMSSearchByType => false
  | .SMSUpdate _ => true

/-- A search, its answer or a delayed record is still to reach the handler. -/
def Outstanding (s : Services) : Prop :=
  .SMSSearchByType ∈ s.toDb ∨ s.toCellular.any isAnswer ∨ s.handler.delayedMessage

/-- A notification is still to reach the handler. -/
def Announced (s : Services) : Prop :=
  .notification ∈ s.toCellular ∨ s.toDb.any isUpdate

/-- A record is queued and nothing on its way will make the handler ask for it:
in `Idle` it only listens to notifications, in `ProcessQuery` only to answers. -/
def Abandoned (s : Services) : Prop :=
  s.table.Waits ∧ ¬s.Announced ∧ (s.handler.currentState = .ProcessQuery → ¬s.Outstanding)

/-- The services once the cellular service has taken its next message. -/
def taken (s : Services) : Services := { s with toCellular := s.toCellular.tail }

/-- Outside a reset, the handler neither lets a notification pass nor loses an
answer, and is not woken in vain, while a record is abandoned. -/
def Heeded (s : Services) (input : Input) : Prop :=
  s.modem.surroundings.modemResetInProgress = false →
  match input with
  | .deliver _ _ =>
      (s.toCellular.head? = some .notification →
        s.handler.currentState = .ProcessQuery → ¬s.taken.Abandoned) ∧
      (s.toCellular.head?.any isAnswer → s.modem.ready = false → s.heard = true →
        ¬s.taken.Abandoned)
  | .simReady false =>
      s.handler.currentState = .Idle ∨ s.modem.ready = false → ¬s.Abandoned
  | _ => True

instance : Decidable s.Abandoned :=
  inferInstanceAs (Decidable (s.table.Waits ∧ ¬(_ ∨ _) ∧ (_ → ¬(_ ∨ _ ∨ _))))

instance : ∀ input, Decidable (s.Heeded input)
  | .deliver _ _ => inferInstanceAs (Decidable (_ → (_ → _ → _) ∧ (_ → _ → _ → _)))
  | .simReady false => inferInstanceAs (Decidable (_ → _ ∨ _ → _))
  | .simReady true => inferInstanceAs (Decidable (_ → True))
  | .serve => inferInstanceAs (Decidable (_ → True))
  | .callEndedRecently _ => inferInstanceAs (Decidable (_ → True))
  | .modem _ => inferInstanceAs (Decidable (_ → True))
  | .create _ => inferInstanceAs (Decidable (_ → True))
  | .update _ => inferInstanceAs (Decidable (_ → True))
  | .remove _ => inferInstanceAs (Decidable (_ → True))

end Services

end MuditaOS.Sms
