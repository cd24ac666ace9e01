import MuditaOS.Cellular.CallSession

/-!
# Answers that fail

The call machine with its second region, when the modem may fail to answer a call:
`HandleAnswerCall` throws, and the row for exceptions, which belongs to the second region,
moves that region to `Idle`. From then on both regions take events, each in its own state, with
the call and all dependencies in common, and neither has a row for an exception.

The library that runs the table is not under this tree. An event goes to the first region and
then to the second, and an exception on the way is an event for both. Whether a region has
moved on when the action of its row throws is left open.
-/

namespace MuditaOS.Calls

/-- An event, with what the modem says should it be told to answer. -/
structure Attempt extends Input where
  answered : Bool

structure Regions where
  /-- The first region, and what both have in common. -/
  machine : StateMachine
  /-- The second region; none while it is in `ExceptionsHandling`. -/
  exceptions : Option State
  /-- How often `notifyCallAborted` has been sent. -/
  aborted : Nat
  ledger : Ledger
  deriving DecidableEq, Repr

/-- What an event does in one region. -/
inductive Outcome
  | ignored
  | moved (machine : StateMachine) (target : State)
  | thrown (target : State)

namespace Regions

/-- Whether a state moves before the action of the row runs. -/
abbrev Early := Bool

variable (early : Early) (w : Answers) (answered : Bool)

def start (w : Answers) : Regions where
  machine := .init w
  exceptions := none
  aborted := 0
  ledger := {}

/-- The row of this state and event has `HandleAnswerCall` for its action. -/
def answers (state : State) (event : Event) : Bool :=
  event = .Answer ∧ (state = .Ringing ∨ state = .HaveId)

def outcome (m : StateMachine) (state : State) (event : Event) : Outcome :=
  match m.transition w state event with
  | none => .ignored
  | some moved =>
      if answers state event ∧ ¬ answered then .thrown moved.2 else .moved moved.1 moved.2

def left (source target : State) : State := if early then target else source

/-- The exception as an event: `ExceptionHandler`, and the entry action of `Idle`. -/
def exceptionHandler (s : Regions) : Regions :=
  match s.exceptions with
  | none =>
      { s with
        machine := (s.machine.emit .notifyCallEnded).handleInit w
        exceptions := some .Idle
        aborted := s.aborted + 1 }
  | some _ => s

/-- The second region, after so many regions have handled the event. -/
def processSecond (s : Regions) (event : Event) (handled : Nat) : Regions × Nat :=
  match s.exceptions with
  | none => (s, handled)
  | some state =>
      match outcome w answered s.machine state event with
      | .ignored => (s, handled)
      | .moved machine target =>
          ({ s with
              machine := if target = .Idle then machine.handleInit w else machine
              exceptions := some target },
            handled + 1)
      | .thrown target =>
          ({ s with
              machine := s.machine.emit .answerIncomingCall
              exceptions := some (left early state target) }.exceptionHandler w,
            handled + 1)

/-- Both regions, and how many have handled the event. -/
def processEvent (s : Regions) (event : Event) : Regions × Nat :=
  match outcome w answered s.machine s.machine.state event with
  | .ignored => s.processSecond early w answered event 0
  | .moved machine target =>
      { s with machine := machine.enter w target }.processSecond early w answered event 1
  | .thrown target =>
      ({ s with
          machine :=
            { s.machine.emit .answerIncomingCall with
              state := left early s.machine.state target } }.exceptionHandler w,
        1)

/-- `Call::handle`. -/
def handle (s : Regions) (event : Event) : Regions × Nat :=
  let s := { s with machine := { s.machine with effects := [] } }
  match event with
  | .RING =>
      { s with machine := s.machine.emit .holdMinimumFrequency }.processEvent early w answered .RING
  | .ModeChange mode =>
      ({ s with machine := { s.machine with call := { s.machine.call with mode := mode } } }, 1)
  | .TetheringChange tethering =>
      ({ s with
          machine := { s.machine with call := { s.machine.call with tethering := tethering } } },
        1)
  | event => s.processEvent early w answered event

/-- `Call::active`, which asks the first region. -/
def active (s : Regions) : Bool := s.machine.state ≠ .Idle

def step (s : Regions) (a : Attempt) : Regions :=
  let after := (s.handle early a.answers a.answered a.event).1
  { after with
    ledger :=
      after.machine.effects.foldl Ledger.note
        (if s.machine.state = .Idle then s.ledger.renew else s.ledger) }

def run (s : Regions) (attempts : List Attempt) : Regions := attempts.foldl (step early) s

/-- In this state of a region the event `Answer` tells the modem to answer. -/
def Answering (m : StateMachine) (state : State) : Prop :=
  state = .Ringing ∨ state = .HaveId ∧ m.call.callIncoming

/-- The modem is told to answer and does not. -/
def Fails (s : Regions) (a : Attempt) : Prop :=
  a.event = .Answer ∧ a.answered = false ∧
    (Answering s.machine s.machine.state ∨ ∃ state ∈ s.exceptions, Answering s.machine state)

end Regions

end MuditaOS.Calls
