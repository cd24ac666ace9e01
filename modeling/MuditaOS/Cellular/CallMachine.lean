import Mathlib.Data.List.Basic

/-!
# The call state machine

A transcription of `CallMachine.hpp`, `CellularCall.cpp` and of the parts of
`CallAudio.cpp`, `CallDB.cpp` and `CallTimer.cpp` that keep state. The machine
runs the first row of its table whose state and event match and whose guard
holds, and ignores an event that has no such row. Entering `Idle` runs
`handleInit`, also when the row starts there.

What the other services answer while an event is handled is an argument of the
event. Modem commands and call-log requests succeed, so no handler throws, and a
record that was added has an id.
-/

namespace MuditaOS.Calls

/-! ## Data -/

inductive PhoneMode
  | Connected
  | DoNotDisturb
  | Offline
  | Uninitialized
  deriving DecidableEq, Repr

inductive Tethering
  | On
  | Off
  deriving DecidableEq, Repr

inductive CallType
  | CT_NONE
  | CT_INCOMING
  | CT_OUTGOING
  | CT_MISSED
  | CT_VOICEMAIL
  | CT_REJECTED
  | CT_BLOCKED
  | CT_ANSW_EXT
  deriving DecidableEq, Repr

inductive PresentationType
  | PR_UNKNOWN
  | PR_ALLOWED
  | PR_PAYPHONE
  | PR_RESTRICTED
  deriving DecidableEq, Repr

/-- `utils::PhoneNumber::View`. -/
structure PhoneNumber where
  entered : List UInt8 := []
  formatted : List UInt8 := []
  deriving DecidableEq, Repr

def DB_ID_NONE : Nat := 0

structure CalllogRecord where
  ID : Nat := DB_ID_NONE
  presentation : PresentationType := .PR_UNKNOWN
  date : Int := 0
  duration : Int := 0
  type : CallType := .CT_NONE
  name : List UInt8 := []
  phoneNumber : PhoneNumber := {}
  isRead : Bool := true
  deriving DecidableEq, Repr

/-- A row of the call log. -/
structure StoredRecord where
  record : CalllogRecord
  hasId : record.ID ≠ DB_ID_NONE
  deriving DecidableEq, Repr

structure CallData where
  record : CalllogRecord := {}
  mode : PhoneMode := .Uninitialized
  tethering : Tethering := .Off
  deriving DecidableEq, Repr

inductive AudioEvent
  | Mute
  | Unmute
  | LoudspeakerOn
  | LoudspeakerOff
  deriving DecidableEq, Repr

inductive Event
  | RING
  | CLIP (number : PhoneNumber)
  | StartCall (type : CallType) (number : PhoneNumber)
  | Answer
  | Reject
  | Ended
  | RingTimeout
  | OngoingTimer
  | AudioRequest (event : AudioEvent)
  | ModeChange (mode : PhoneMode)
  | TetheringChange (tethering : Tethering)
  deriving DecidableEq, Repr

/-- What the clock, the phone mode observer, the settings and the database
answer. -/
structure Answers where
  time : Int
  getMode : PhoneMode
  getTethering : Tethering
  areCallsFromFavouritesEnabled : Bool
  isNumberInFavourites : PhoneNumber → Bool
  CalllogAdd : CalllogRecord → StoredRecord

/-- What the machine asks of the other services and tells the listeners. -/
inductive Effect
  | startPlayback
  | stopAll
  | routingStart
  | sendEvent (event : AudioEvent)
  | notifyIncomingCall
  | notifyIdentifiedCall (number : PhoneNumber)
  | notifyCallStarted (number : PhoneNumber) (incoming : Bool)
  | notifyOutgoingCallAnswered
  | notifyCallActive
  | notifyCallDurationUpdate (duration : Int)
  | notifyCallEnded
  | notifyCallMissed
  | guiRING
  | guiCLIP (number : PhoneNumber)
  | calllogAdd (row : CalllogRecord)
  | calllogUpdate (row : CalllogRecord)
  | endCall (row : CalllogRecord)
  | incrementNotification (number : PhoneNumber)
  | holdMinimumFrequency
  | releaseMinimumFrequency
  | ringTimerStart
  | answerIncomingCall
  | hangupCall
  | rejectCall
  deriving DecidableEq, Repr

inductive State
  | Idle
  | RingDelay
  | Starting
  | Ringing
  | HaveId
  | Ongoing
  deriving DecidableEq, Repr

/-- The machine with the state of its dependencies, and what the event at hand
made it do so far. -/
structure StateMachine where
  state : State
  call : CallData
  started : Bool
  startActiveTime : Int
  timerActive : Bool
  effects : List Effect
  deriving DecidableEq, Repr

namespace StateMachine

variable (w : Answers) (m : StateMachine)

/-! ## Dependencies -/

def emit (effect : Effect) : StateMachine :=
  { m with effects := m.effects ++ [effect] }

def setRecord (record : CalllogRecord) : StateMachine :=
  { m with call := { m.call with record := record } }

/-- `Audio::play`. -/
def play : StateMachine :=
  if m.started then m else { m with started := true }.emit .startPlayback

/-- `Audio::stop`. -/
def stop : StateMachine :=
  { m with started := false }.emit .stopAll

def timerStart : StateMachine :=
  { m with startActiveTime := w.time, timerActive := true }

def timerStop : StateMachine := { m with timerActive := false }

def duration : Int :=
  if m.timerActive then w.time - m.startActiveTime else 0

/-- `CallDB::startCall`. -/
def startCall : StateMachine :=
  if m.call.record.ID = DB_ID_NONE then
    let row := (w.CalllogAdd m.call.record).record
    (m.setRecord row).emit (.calllogAdd row)
  else m.emit (.calllogUpdate m.call.record)

/-- `CallDB::endCall`. -/
def endCall : StateMachine :=
  if m.call.record.type = .CT_MISSED then
    (m.emit (.endCall m.call.record)).emit
      (.incrementNotification m.call.record.phoneNumber)
  else m.emit (.endCall m.call.record)

/-! ## Handlers -/

def setNumber (number : PhoneNumber) : StateMachine :=
  m.setRecord
    { m.call.record with
      presentation := if number.formatted.isEmpty then .PR_UNKNOWN else .PR_ALLOWED
      phoneNumber := number }

def setIncomingCall (view : PhoneNumber) : StateMachine :=
  (m.setRecord
    { m.call.record with
      type := .CT_INCOMING
      isRead := false }).setNumber view

def setDate : StateMachine :=
  m.setRecord { m.call.record with date := w.time }

def handleClipCommon (number : PhoneNumber) : StateMachine :=
  (((((m.setIncomingCall number).setDate w).emit (.guiCLIP number)).emit
    (.notifyIdentifiedCall number)).startCall w).emit .holdMinimumFrequency

/-- The entry action of `Idle`. -/
def handleInit : StateMachine :=
  (({ m with
      call :=
        { mode := w.getMode
          tethering := w.getTethering } }).emit .releaseMinimumFrequency).timerStop

def handleRing : StateMachine :=
  (((m.setIncomingCall {}).setDate w).emit .holdMinimumFrequency).emit .ringTimerStart

def handleRingTimeout : StateMachine :=
  (((m.emit .notifyIncomingCall).startCall w).emit .guiRING).play

def handleClipWithoutRing (number : PhoneNumber) : StateMachine :=
  (m.handleClipCommon w number).play

def handleClipConnected (number : PhoneNumber) : StateMachine :=
  m.handleClipCommon w number

def handleClipDND (number : PhoneNumber) : StateMachine :=
  (m.handleClipCommon w number).play

def setType (type : CallType) : StateMachine :=
  m.setRecord { m.call.record with type := type }

def setRead (isRead : Bool) : StateMachine :=
  m.setRecord { m.call.record with isRead := isRead }

def handleDND_Reject (number : PhoneNumber) : StateMachine :=
  (((((m.startCall w).setNumber number).setDate w).setType .CT_MISSED).emit
    .rejectCall).endCall

def handleAddID (number : PhoneNumber) : StateMachine :=
  ((m.setNumber number).emit (.guiCLIP number)).emit (.notifyIdentifiedCall number)

def handleAnswerCall : StateMachine :=
  (((m.emit .answerIncomingCall).emit .routingStart).emit .notifyCallActive).timerStart w

def handleCallTimer : StateMachine :=
  m.emit (.notifyCallDurationUpdate (m.duration w))

def handleStartCall (type : CallType) (number : PhoneNumber) : StateMachine :=
  let m :=
    m.setRecord
      { m.call.record with
        type := type
        isRead := true
        phoneNumber := number
        date := w.time }
  let m := (m.emit .routingStart).startCall w
  (m.emit (.notifyCallStarted m.call.record.phoneNumber
    (m.call.record.type = .CT_INCOMING))).emit .holdMinimumFrequency

def handleStartedCall : StateMachine :=
  (m.emit .notifyOutgoingCallAnswered).timerStart w

def handleRejectCall : StateMachine :=
  ((((m.stop.setType .CT_REJECTED).setRead false).endCall).emit .notifyCallEnded).emit
    .rejectCall

def handleMissedCall : StateMachine :=
  ((((m.stop.setType .CT_MISSED).setRead false).endCall).emit .notifyCallMissed).emit
    .rejectCall

def handleEndCall : StateMachine :=
  let m := m.stop
  let m := (m.setRecord { m.call.record with duration := m.duration w }).setRead true
  ((m.endCall.emit .notifyCallEnded).timerStop).emit .hangupCall

def handleAudioRequest (event : AudioEvent) : StateMachine :=
  m.emit (.sendEvent event)

end StateMachine

/-! ## Guards and table -/

namespace CallData

variable (w : Answers) (call : CallData)

/-- The guard `RING`, and `ClipConnected`, which is the same. -/
def connected : Prop := call.mode = .Connected

/-- The guard `Tethering`. -/
def tethered : Prop := call.tethering = .On

def clipDND_OK (number : PhoneNumber) : Prop :=
  call.mode = .DoNotDisturb ∧
    (w.areCallsFromFavouritesEnabled ∧ w.isNumberInFavourites number)

def clipDND_NOK (number : PhoneNumber) : Prop :=
  call.mode = .DoNotDisturb ∧
    ¬(w.areCallsFromFavouritesEnabled ∧ w.isNumberInFavourites number)

def callIncoming : Prop := call.record.type = .CT_INCOMING

instance : Decidable call.connected := inferInstanceAs (Decidable (_ = _))

instance : Decidable call.tethered := inferInstanceAs (Decidable (_ = _))

instance (number : PhoneNumber) : Decidable (call.clipDND_OK w number) :=
  inferInstanceAs (Decidable (_ ∧ _))

instance (number : PhoneNumber) : Decidable (call.clipDND_NOK w number) :=
  inferInstanceAs (Decidable (_ ∧ _))

instance : Decidable call.callIncoming := inferInstanceAs (Decidable (_ = _))

end CallData

namespace StateMachine

variable (w : Answers) (m : StateMachine)

/-- The row of the table that an event selects: what its action makes of the
machine, and the state it leads to. -/
def transition : State → Event → Option (StateMachine × State)
  | .Idle, .RING =>
      if m.call.connected ∧ ¬m.call.tethered then some (m.handleRing w, .RingDelay)
      else none
  | .Idle, .CLIP number =>
      if m.call.tethered ∨ m.call.clipDND_NOK w number then
        some (m.handleDND_Reject w number, .Idle)
      else if m.call.connected then some (m.handleClipWithoutRing w number, .HaveId)
      else if m.call.clipDND_OK w number then some (m.handleClipDND w number, .HaveId)
      else none
  | .Idle, .StartCall type number =>
      some (m.handleStartCall w type number, .Starting)
  | .Starting, .AudioRequest event => some (m.handleAudioRequest event, .Starting)
  | .Starting, .Ended => some (m.handleEndCall w, .Idle)
  | .Starting, .Reject => some (m.handleEndCall w, .Idle)
  | .Starting, .Answer => some (m.handleStartedCall w, .Ongoing)
  | .RingDelay, .RingTimeout => some (m.handleRingTimeout w, .Ringing)
  | .RingDelay, .CLIP number => some (m.handleClipWithoutRing w number, .HaveId)
  | .Ringing, .Answer => some (m.handleAnswerCall w, .Ongoing)
  | .Ringing, .Reject => some (m.handleRejectCall, .Idle)
  | .Ringing, .Ended => some (m.handleRejectCall, .Idle)
  | .Ringing, .CLIP number =>
      if m.call.connected then some (m.handleClipConnected w number, .HaveId)
      else if m.call.clipDND_OK w number then some (m.handleClipDND w number, .HaveId)
      else if m.call.clipDND_NOK w number then some (m.handleDND_Reject w number, .Idle)
      else none
  | .HaveId, .Answer =>
      if m.call.callIncoming then some (m.handleAnswerCall w, .Ongoing) else none
  | .HaveId, .Ended => some (m.handleMissedCall, .Idle)
  | .HaveId, .Reject => some (m.handleRejectCall, .Idle)
  | .Ongoing, .CLIP number => some (m.handleAddID number, .Ongoing)
  | .Ongoing, .OngoingTimer => some (m.handleCallTimer w, .Ongoing)
  | .Ongoing, .AudioRequest event => some (m.handleAudioRequest event, .Ongoing)
  | .Ongoing, .Ended => some (m.handleEndCall w, .Idle)
  | .Ongoing, .Reject => some (m.handleEndCall w, .Idle)
  | _, _ => none

def enter (target : State) : StateMachine :=
  match target with
  | .Idle => { m with state := .Idle }.handleInit w
  | _ => { m with state := target }

def processEvent (event : Event) : StateMachine × Bool :=
  match m.transition w m.state event with
  | some (moved, target) => (moved.enter w target, true)
  | none => (m, false)

/-- `Call::handle`. -/
def handle (event : Event) : StateMachine × Bool :=
  let m := { m with effects := [] }
  match event with
  | .RING => (m.emit .holdMinimumFrequency).processEvent w .RING
  | .ModeChange mode => ({ m with call := { m.call with mode := mode } }, true)
  | .TetheringChange tethering =>
      ({ m with call := { m.call with tethering := tethering } }, true)
  | event => m.processEvent w event

/-- The constructor enters `Idle`. -/
def init : StateMachine :=
  handleInit w
    { state := .Idle
      call := {}
      started := false
      startActiveTime := 0
      timerActive := false
      effects := [] }

end StateMachine

end MuditaOS.Calls
