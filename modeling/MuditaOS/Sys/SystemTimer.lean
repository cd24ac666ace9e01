import Mathlib.Data.List.Basic

/-!
# Timers of a service

A transcription of `SystemTimer` and of `Service::TimerHandle`, for one timer and the
mailbox of its service. The timer of the RTOS is not under this tree. What is relied on
is this: it expires for one of the starts it has been asked for, not before the interval of
this start is over, and never for an earlier start than the last time. It may carry out
what it is told late, as its task has the lowest priority, or not at all, as nobody waits
for room in its queue of commands; so it may still expire for a start that is over.
-/

namespace MuditaOS.Sys

namespace timer

inductive Kind where
  | SingleShot
  | Periodic
  deriving DecidableEq, Repr

structure SystemTimer where
  /-- Whether a callback is connected. -/
  callback : Bool
  /-- In ticks. -/
  interval : Nat
  type : Kind
  active : Bool
  deriving DecidableEq, Repr

/-- A run of the callback. -/
structure Callback where
  time : Nat
  /-- The start whose expiration has been handled, -/
  start : Nat
  /-- and the start that was in force then, if the timer was not stopped. -/
  inForce : Option Nat
  deriving DecidableEq, Repr

end timer

open timer

/-- A service, as far as one of its timers goes. Starts are known by their number. -/
structure TimerService where
  timer : SystemTimer
  /-- The timer is in the list of the service, that is, it has not been destroyed. -/
  attached : Bool
  now : Nat
  /-- When each start took place, and the interval then. -/
  starts : List (Nat × Nat)
  /-- The last start, unless the timer has been stopped since. -/
  inForce : Option Nat
  /-- The start that the RTOS timer expired for last. -/
  expired : Nat
  /-- The timer messages in the mailbox, each known by the start it was sent for. -/
  mailbox : List Nat
  ran : List Callback
  deriving DecidableEq, Repr

inductive TimerEvent where
  | tick (ticks : Nat)
  | start
  | restart (newInterval : Nat)
  | stop
  /-- The destructor detaches the timer. -/
  | destroy
  /-- The RTOS timer expires, for this start: `Run` sends a message. -/
  | expire (start : Nat)
  /-- The service handles the next timer message. -/
  | handle
  deriving DecidableEq, Repr

namespace TimerService

def create (callback : Bool) (interval : Nat) (type : Kind) : TimerService :=
  ⟨⟨callback, interval, type, false⟩, true, 0, [], none, 0, [], []⟩

/-- The stop that goes before it is left out: it is a command to the RTOS timer. -/
def startTimer (s : TimerService) : TimerService :=
  { s with
    timer := { s.timer with active := true }
    starts := s.starts ++ [(s.now, s.timer.interval)]
    inForce := some s.starts.length }

def setInterval (s : TimerService) (value : Nat) : TimerService :=
  { s with timer := { s.timer with interval := value } }

def stop (s : TimerService) : TimerService :=
  { s with timer := { s.timer with active := false }, inForce := none }

/-- The RTOS timer can expire for this start. -/
def MayExpire (s : TimerService) (start : Nat) : Prop :=
  s.expired ≤ start ∧ ∃ began ∈ s.starts[start]?, began.1 + began.2 ≤ s.now

instance {s : TimerService} {start : Nat} : Decidable (s.MayExpire start) :=
  inferInstanceAs (Decidable (_ ∧ ∃ began ∈ s.starts[start]?, _))

/-- `onTimeout`, for the message of this start. -/
def onTimeout (s : TimerService) (start : Nat) : TimerService :=
  if ¬ s.timer.callback then s
  else if ¬ s.timer.active then s
  else
    let run : Callback := ⟨s.now, start, s.inForce⟩
    let s := if s.timer.type = .SingleShot then s.stop else s
    { s with ran := s.ran ++ [run] }

def timerHandle (s : TimerService) : TimerService :=
  match s.mailbox with
  | [] => s
  | start :: mailbox =>
      let s := { s with mailbox }
      if s.attached then s.onTimeout start else s

def step (s : TimerService) : TimerEvent → TimerService
  | .tick ticks => { s with now := s.now + ticks }
  | .handle => s.timerHandle
  | .start => if s.attached then s.startTimer else s
  | .restart newInterval => if s.attached then (s.setInterval newInterval).startTimer else s
  | .stop => if s.attached then s.stop else s
  | .destroy => { s with attached := false, inForce := none }
  | .expire start =>
      if s.attached ∧ s.MayExpire start then
        { s with expired := start, mailbox := s.mailbox ++ [start] }
      else s

end TimerService

end MuditaOS.Sys
