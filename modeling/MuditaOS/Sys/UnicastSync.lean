import MuditaOS.Sys.Bus

/-!
# The clock of a synchronous send

The wait of `Bus::UnicastSync` against the tick counter. Time is counted in ticks since
the start of the system and only `getTicks` cuts it to 32 bits. The clock is read and the
next wait begins in the same tick; any number of ticks may pass between what ends a wait
and the next reading of the clock, as the service need not run at once.
-/

namespace MuditaOS.Sys

/-- `Ticks::GetTicks`, at this time. -/
def getTicks (now : Nat) : UInt32 := UInt32.ofNat now

def portMAX_DELAY : UInt32 := 0xFFFFFFFF

structure SyncWait where
  timeoutNeeded : UInt64
  timeElapsed : UInt64
  now : Nat
  /-- The ticks that the wait in the mailbox may take; none once the call has returned. -/
  waiting : Option UInt32
  /-- When the mailbox has been asked to wait, and for how many ticks. -/
  asked : List (Nat × UInt32)
  returned : Option (Nat × ReturnCodes)
  deriving DecidableEq, Repr

inductive WaitEvent where
  /-- Some ticks into the wait a message comes that is not the response; the clock is read
  some ticks later. -/
  | unrelated (after late : Nat)
  | response (after late : Nat)
  /-- The wait is woken with no message in the mailbox, by a sender whose message has been
  taken out before it signalled. -/
  | signalled (after late : Nat)
  | expired (late : Nat)
  deriving DecidableEq, Repr

namespace SyncWait

/-- `lock.wait`. -/
def wait (s : SyncWait) (ticks : UInt32) : SyncWait :=
  { s with waiting := some ticks, asked := s.asked ++ [(s.now, ticks)] }

def finish (s : SyncWait) (retCode : ReturnCodes) : SyncWait :=
  { s with waiting := none, returned := some (s.now, retCode) }

/-- From the head of the loop to the call of `pop`. -/
def loop (s : SyncWait) : SyncWait :=
  if s.timeElapsed ≥ s.timeoutNeeded then s.finish .Timeout
  else s.wait (s.timeoutNeeded - s.timeElapsed).toUInt32

def unicastSync (start : Nat) (timeout : UInt32) : SyncWait :=
  let currentTime := (getTicks start).toUInt64
  loop ⟨currentTime + timeout.toUInt64, currentTime, start, none, [], none⟩

/-- `pop` returns at this time. -/
def readClock (s : SyncWait) (now : Nat) : SyncWait :=
  { s with now, timeElapsed := (getTicks now).toUInt64 }

/-- A wait for so many ticks is still going on after these. -/
def Lasts (ticks : UInt32) (after : Nat) : Prop := ticks = portMAX_DELAY ∨ after ≤ ticks.toNat

instance {ticks : UInt32} {after : Nat} : Decidable (Lasts ticks after) :=
  inferInstanceAs (Decidable (_ ∨ _))

/-- An event that cannot take place is skipped. -/
def step (s : SyncWait) (e : WaitEvent) : SyncWait :=
  match s.waiting with
  | none => s
  | some ticks =>
      match e with
      | .unrelated after late =>
          if Lasts ticks after then (s.readClock (s.now + after + late)).loop else s
      | .response after late =>
          if Lasts ticks after then (s.readClock (s.now + after + late)).finish .Success else s
      | .signalled after late =>
          -- `pop` goes round its own loop, with the timeout it has been given
          if Lasts ticks after then { s with now := s.now + after + late }.wait ticks else s
      | .expired late =>
          if ticks = portMAX_DELAY then s
          else (s.readClock (s.now + ticks.toNat + late)).finish .Timeout

end SyncWait

end MuditaOS.Sys
