import MuditaOS.Sys.CpuGovernor
import MuditaOS.Sys.SystemTimer

/-!
# A hold of the CPU frequency for a time

A transcription of the requests of `CpuSentinel` and of `TimedCpuSentinel`, with the timer of
its owner. A sentinel that has asked for a frequency waits until the system manager has seen to
it, 100 ms at most: its owner handles nothing then, but time passes and the RTOS timer may
expire. What the owner was processing goes into the reason and comes with each call.
-/

namespace MuditaOS.Sys

/-- What a sentinel sends to the system manager, the handle of its task apart. -/
inductive SentinelMessage where
  | HoldCpuFrequencyMessage (name : Name) (request : CpuFrequencyMHz)
  | ReleaseCpuFrequencyMessage (name : Name)
  deriving DecidableEq, Repr

def SentinelMessage.name : SentinelMessage → Name
  | HoldCpuFrequencyMessage name _ | ReleaseCpuFrequencyMessage name => name

/-- What the system manager does with it. -/
def SentinelMessage.event : SentinelMessage → GovernorEvent
  | HoldCpuFrequencyMessage name request => .setCpuFrequencyRequest name request
  | ReleaseCpuFrequencyMessage name => .resetCpuFrequencyRequest name

/-- What may happen to a timer while its service is at work or waits. -/
inductive Elapse where
  | tick (ticks : Nat)
  | expire (start : Nat)
  deriving DecidableEq, Repr

def Elapse.event : Elapse → TimerEvent
  | tick ticks => .tick ticks
  | expire start => .expire start

structure TimedCpuSentinel extends CpuSentinel where
  currentFrequencyToHold : CpuFrequencyMHz
  /-- None before the first hold. -/
  holdTicks : Option Nat
  timerHandle : TimerService
  /-- The messages sent to the system manager. -/
  sent : List SentinelMessage
  deriving DecidableEq, Repr

inductive TimedSentinelEvent where
  | HoldMinimumFrequency (frequencyToHold : CpuFrequencyMHz) (processing : String)
      (wait : List Elapse)
  | ReleaseMinimumFrequency (processing : String)
  | HoldMinimumFrequencyForTime (frequencyToHold : CpuFrequencyMHz) (timeout : Nat)
      (processing : String) (wait : List Elapse)
  | elapse (e : Elapse)
  /-- The owner handles the next timer message. -/
  | handle (processing : String)
  deriving DecidableEq, Repr

namespace TimedCpuSentinel

/-- In ticks. -/
def defaultHoldFrequencyTime : Nat := 1000

def create (name : Name) : TimedCpuSentinel where
  name
  currentReason := ""
  currentFrequencyToHold := .Level_0
  holdTicks := none
  timerHandle := .create true defaultHoldFrequencyTime .SingleShot
  sent := []

def now (s : TimedCpuSentinel) : Nat := s.timerHandle.now

def elapses (s : TimedCpuSentinel) (wait : List Elapse) : TimedCpuSentinel :=
  { s with timerHandle := (wait.map Elapse.event).foldl TimerService.step s.timerHandle }

def holdMinimumFrequency (s : TimedCpuSentinel) (frequencyToHold : CpuFrequencyMHz)
    (processing : String) (wait : List Elapse) : TimedCpuSentinel :=
  let s := { s with holdTicks := some s.now }
  if s.currentFrequencyToHold ≠ frequencyToHold then
    { s with
      sent := s.sent ++ [.HoldCpuFrequencyMessage s.name frequencyToHold]
      currentFrequencyToHold := frequencyToHold
      currentReason := "up: " ++ processing ++ " req: " ++ toString frequencyToHold.mhz
      : TimedCpuSentinel }.elapses wait
  else s

def releaseMinimumFrequency (s : TimedCpuSentinel) (processing : String) : TimedCpuSentinel :=
  if s.currentFrequencyToHold ≠ .Level_0 then
    { s with
      sent := s.sent ++ [.ReleaseCpuFrequencyMessage s.name]
      currentFrequencyToHold := .Level_0
      currentReason := "down: " ++ processing }
  else s

def restart (s : TimedCpuSentinel) (timeout : Nat) : TimedCpuSentinel :=
  { s with timerHandle := s.timerHandle.step (.restart timeout) }

def holdMinimumFrequencyForTime (s : TimedCpuSentinel) (frequencyToHold : CpuFrequencyMHz)
    (timeout : Nat) (processing : String) (wait : List Elapse) : TimedCpuSentinel :=
  if s.currentFrequencyToHold ≠ frequencyToHold then
    (s.holdMinimumFrequency frequencyToHold processing wait).restart timeout
  else s

/-- The callback of the timer releases the frequency. -/
def handle (s : TimedCpuSentinel) (processing : String) : TimedCpuSentinel :=
  let timerHandle := s.timerHandle.step .handle
  let ran := s.timerHandle.ran.length < timerHandle.ran.length
  let s := { s with timerHandle }
  if ran then s.releaseMinimumFrequency processing else s

def step (s : TimedCpuSentinel) : TimedSentinelEvent → TimedCpuSentinel
  | .HoldMinimumFrequency frequencyToHold processing wait =>
      s.holdMinimumFrequency frequencyToHold processing wait
  | .ReleaseMinimumFrequency processing => s.releaseMinimumFrequency processing
  | .HoldMinimumFrequencyForTime frequencyToHold timeout processing wait =>
      s.holdMinimumFrequencyForTime frequencyToHold timeout processing wait
  | .elapse e => s.elapses [e]
  | .handle processing => s.handle processing

end TimedCpuSentinel

end MuditaOS.Sys
