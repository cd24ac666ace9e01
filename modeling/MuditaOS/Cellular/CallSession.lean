import MuditaOS.Cellular.CallMachine
import MuditaOS.Lib.Run

/-!
# Calls over time

What is owed at the end of a call: silence, one closed record in the call log,
the processor released, and an answer to the listeners. The ledger keeps it from
the effects of the machine, starting anew with each event that finds the machine
in `Idle`.
-/

namespace MuditaOS.Calls

open Lib

structure Ledger where
  audio : Bool := false
  held : Bool := false
  owed : Bool := false
  created : Nat := 0
  ended : List CalllogRecord := []
  row : Option CalllogRecord := none
  deriving DecidableEq, Repr

namespace Ledger

def note (l : Ledger) : Effect → Ledger
  | .startPlayback => { l with audio := true }
  | .routingStart => { l with audio := true }
  | .stopAll => { l with audio := false }
  | .notifyIncomingCall => { l with owed := true }
  | .notifyIdentifiedCall _ => { l with owed := true }
  | .notifyCallStarted _ _ => { l with owed := true }
  | .notifyCallEnded => { l with owed := false }
  | .notifyCallMissed => { l with owed := false }
  | .calllogAdd row => { l with created := l.created + 1, row := some row }
  | .calllogUpdate row => { l with row := some row }
  | .endCall row => { l with ended := l.ended ++ [row], row := some row }
  | .holdMinimumFrequency => { l with held := true }
  | .releaseMinimumFrequency => { l with held := false }
  | _ => l

/-- A hold outlives the call it was taken for, all else is the call's own. -/
def renew (l : Ledger) : Ledger := { held := l.held }

/-- Nothing is left of the call: what was started is stopped, and the record it
created was ended once, as it stands in the log. -/
structure Settled (l : Ledger) : Prop where
  silent : l.audio = false
  released : l.held = false
  told : l.owed = false
  atMostOne : l.created ≤ 1
  endedOnce : 0 < l.created → ∃ row, l.ended = [row] ∧ l.row = some row

end Ledger

structure Input where
  event : Event
  answers : Answers

structure Line where
  machine : StateMachine
  ended : Bool
  ledger : Ledger
  deriving DecidableEq, Repr

namespace Line

def start (w : Answers) : Line where
  machine := .init w
  ended := false
  ledger := {}

/-- The call has ended, and nothing since announced another. -/
def endedAfter (ended : Bool) : Event → Bool
  | .Ended => true
  | .Reject => true
  | .RING => false
  | .CLIP _ => false
  | .StartCall _ _ => false
  | _ => ended

def handled (s : Line) (input : Input) : StateMachine :=
  (s.machine.handle input.answers input.event).1

def step (s : Line) (input : Input) : Line where
  machine := s.handled input
  ended := endedAfter s.ended input.event
  ledger :=
    (s.handled input).effects.foldl Ledger.note
      (if s.machine.state = .Idle then s.ledger.renew else s.ledger)

/-! ## Dead calls -/

/-- Plays the ringtone, writes a row of the call log or counts duration. -/
def Audible : Effect → Prop
  | .startPlayback => True
  | .calllogAdd _ => True
  | .calllogUpdate _ => True
  | .notifyCallDurationUpdate _ => True
  | _ => False

def IsTimer (event : Event) : Prop :=
  event = .RingTimeout ∨ event = .OngoingTimer

def Hangs (event : Event) : Prop := event = .Ended ∨ event = .Reject

/-- After the call has ended the machine is in `Idle`, and the timers do nothing
for it. -/
def StaysDead (s : Line) (input : Input) : Prop :=
  ((s.step input).ended → (s.step input).machine.state = .Idle) ∧
  (s.ended → IsTimer input.event → ∀ effect ∈ (s.handled input).effects, ¬Audible effect)

/-- The call does not end while the machine waits for a caller id. -/
def NotDelayed (s : Line) (input : Input) : Prop :=
  ¬(s.machine.state = .RingDelay ∧ Hangs input.event)

/-! ## Returns to `Idle` -/

/-- The event selects a row that leads to `Idle`. -/
def Returns (s : Line) (input : Input) : Prop :=
  (s.machine.transition input.answers s.machine.state input.event).map Prod.snd =
    some .Idle

def Clean (s : Line) (input : Input) : Prop :=
  s.Returns input → (s.step input).ledger.Settled

end Line

end MuditaOS.Calls
