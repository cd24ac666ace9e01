import MuditaOS.Cellular.CallExceptions
import MuditaOS.Lib.Run
import MuditaOS.Proofs.CallEnds

/-!
# What a failed answer leaves behind

The exception moves the second region, and the first one, in which the call is, stays where it
rings or goes on as if it had been answered. So the call is not over, and it never is a machine
like a new one: the second region has left `ExceptionsHandling` for good, takes a second failure
for nothing, and as soon as the first region is back in `Idle` both take the next call.
-/

namespace MuditaOS.Calls.Regions

open Lib

variable {early : Early} {w : Answers} {answered : Bool} {s s' : Regions} {m : StateMachine}
  {state target : State} {event : Event} {a : Attempt} {attempts : List Attempt}

/-- What an event shows: its effects, whether the call is given up, how many regions have
handled it, and whether there is a call then. -/
def shown (early : Early) (s : Regions) (a : Attempt) : List Effect × Bool × Nat × Bool :=
  let handled := s.handle early a.answers a.answered a.event
  (handled.1.machine.effects, s.aborted < handled.1.aborted, handled.2, handled.1.active)

/-- Two machines show the same of all events to come. -/
def Behaves (early : Early) (s s' : Regions) : Prop :=
  ∀ attempts, observe (shown early) (step early) s attempts =
    observe (shown early) (step early) s' attempts

/-- The event is handled once at most, and if the modem fails to answer the call is over: the
phone is silent, the record of the call is closed, there is no active call, and the machine is
as good as new. -/
structure Usable (early : Early) (s : Regions) (a : Attempt) : Prop where
  once : (s.handle early a.answers a.answered a.event).2 ≤ 1
  inactive : s.Fails a → (s.step early a).active = false
  silent : s.Fails a → (s.step early a).ledger.audio = false
  closed : s.Fails a → 0 < (s.step early a).ledger.created →
    ∃ row, (s.step early a).ledger.ended = [row] ∧ (s.step early a).ledger.row = some row
  anew : s.Fails a → Behaves early (s.step early a) (start a.answers)

/-! ## One region -/

/-- Only a row that answers throws, if the modem fails. -/
theorem fails_of_thrown (h : outcome w answered m state event = .thrown target) :
    event = .Answer ∧ answered = false ∧ Answering m state ∧ target = .Ongoing := by
  rw [outcome] at h
  split at h
  case h_1 => cases h
  case h_2 moved hmoved =>
      split at h
      case isFalse => cases h
      case isTrue hans =>
          obtain ⟨hans, hfails⟩ := hans
          obtain ⟨rfl, hstate⟩ := of_decide_eq_true hans
          cases h
          refine ⟨rfl, by simpa using hfails, ?_⟩
          rcases hstate with rfl | rfl
          · cases hmoved
            exact ⟨Or.inl rfl, rfl⟩
          · rw [StateMachine.transition] at hmoved
            split at hmoved
            case isTrue hincoming =>
                cases hmoved
                exact ⟨Or.inr ⟨rfl, hincoming⟩, rfl⟩
            case isFalse => cases hmoved

theorem thrown_of_answering (h : Answering m state) :
    outcome w false m state .Answer = .thrown .Ongoing := by
  rcases h with rfl | ⟨rfl, hincoming⟩
  · rfl
  · simp [outcome, StateMachine.transition, hincoming, answers]

/-! ## The event at hand -/

/-- An event goes to the table, or sets a mode and is handled. -/
theorem handle_cases :
    (∃ s' : Regions, s.handle early a.answers a.answered a.event =
        s'.processEvent early a.answers a.answered a.event ∧
      s'.exceptions = s.exceptions ∧ s'.aborted = s.aborted ∧
      s'.machine.state = s.machine.state ∧ s'.machine.call = s.machine.call) ∨
    (s.handle early a.answers a.answered a.event).1.exceptions = s.exceptions ∧
      (s.handle early a.answers a.answered a.event).1.aborted = s.aborted ∧
      (s.handle early a.answers a.answered a.event).2 = 1 := by
  cases a.event with
  | ModeChange mode => exact Or.inr ⟨rfl, rfl, rfl⟩
  | TetheringChange tethering => exact Or.inr ⟨rfl, rfl, rfl⟩
  | _ => exact Or.inl ⟨_, rfl, rfl, rfl, rfl, rfl⟩

/-- While no answer has failed, the second region is out of the way. -/
theorem handle_of_not_fails (hregion : s.exceptions = none) (h : ¬ s.Fails a) :
    (s.handle early a.answers a.answered a.event).1.exceptions = none ∧
      (s.handle early a.answers a.answered a.event).2 ≤ 1 := by
  rcases @handle_cases early s a with
    ⟨s', hhandle, hexceptions, _, hstate, hcall⟩ | ⟨hexceptions, _, honce⟩
  · rw [hregion] at hexceptions
    rw [hhandle, processEvent]
    split
    case h_1 => simp [processSecond, hexceptions]
    case h_2 => simp [processSecond, hexceptions]
    case h_3 target hthrown =>
        obtain ⟨hevent, hfails, hans, _⟩ := fails_of_thrown hthrown
        rw [hstate, Answering, hcall] at hans
        exact absurd ⟨hevent, hfails, Or.inl hans⟩ h
  · exact ⟨hexceptions.trans hregion, Nat.le_of_eq honce⟩

/-- A failure leaves the first region where it rings, or in `Ongoing`. -/
theorem active_of_fails (hregion : s.exceptions = none) (h : s.Fails a) :
    (s.step early a).active = true := by
  obtain ⟨hevent, hfails, hans | ⟨state, hsome, _⟩⟩ := h
  · have hstate : s.machine.state ≠ .Idle := by
      intro hidle
      rw [hidle] at hans
      simp [Answering] at hans
    have hthrown := thrown_of_answering (w := a.answers)
      (m := { s.machine with effects := [] }) hans
    have hleft : left early s.machine.state .Ongoing ≠ .Idle := by
      cases early
      · exact hstate
      · simp [left]
    have hafter : (s.step early a).machine.state = left early s.machine.state .Ongoing := by
      simp only [step, hevent, hfails, handle, processEvent, hthrown, exceptionHandler, hregion]
      rfl
    rw [active, hafter]
    exact decide_eq_true hleft
  · rw [hregion] at hsome
    cases hsome

/-! ## Runs -/

theorem exceptions_step (hregion : s.exceptions = none) (h : ¬ s.Fails a) :
    (s.step early a).exceptions = none := (handle_of_not_fails hregion h).1

/-- In a run the machine is usable after every event exactly when no answer fails. -/
theorem usable_iff_not_fails :
    EveryStep (Usable early) (step early) (start w) attempts ↔
      EveryStep (fun s a => ¬ s.Fails a) (step early) (start w) attempts := by
  refine @everyStep_congr Regions Attempt (fun s => s.exceptions = none) _
    (fun s a => ¬ s.Fails a) (step early) (fun s a hregion => ⟨?_, ?_⟩)
    (fun s a hregion h => exceptions_step hregion h) _ _ rfl
  · intro husable hfails
    have hinactive := husable.inactive hfails
    rw [active_of_fails hregion hfails] at hinactive
    cases hinactive
  · intro h
    exact ⟨(handle_of_not_fails hregion h).2, fun hfails => absurd hfails h,
      fun hfails => absurd hfails h, fun hfails => absurd hfails h,
      fun hfails => absurd hfails h⟩

/-- The phone rings and the modem does not answer. -/
theorem rings_on :
    ¬ EveryStep (Usable false) (step false) (start Line.quietAnswers)
      [⟨⟨.RING, Line.quietAnswers⟩, true⟩, ⟨⟨.RingTimeout, Line.quietAnswers⟩, true⟩,
        ⟨⟨.Answer, Line.quietAnswers⟩, false⟩] := by
  intro h
  obtain ⟨_, _, hanswer, _⟩ := h
  have hringing : (step false
      (step false (start Line.quietAnswers) ⟨⟨.RING, Line.quietAnswers⟩, true⟩)
      ⟨⟨.RingTimeout, Line.quietAnswers⟩, true⟩).machine.state = .Ringing := by decide
  have hregion : (step false
      (step false (start Line.quietAnswers) ⟨⟨.RING, Line.quietAnswers⟩, true⟩)
      ⟨⟨.RingTimeout, Line.quietAnswers⟩, true⟩).exceptions = none := by decide
  have hfails : Fails _ ⟨⟨.Answer, Line.quietAnswers⟩, false⟩ :=
    ⟨rfl, rfl, Or.inl (Or.inl hringing)⟩
  have hinactive := hanswer.inactive hfails
  rw [active_of_fails hregion hfails] at hinactive
  cases hinactive

/-! ## After a failure -/

theorem exceptionHandler_of_isSome (h : s.exceptions.isSome) : s.exceptionHandler w = s := by
  rw [exceptionHandler]
  split
  case h_1 hnone => simp [hnone] at h
  case h_2 => rfl

theorem processSecond_of_isSome {handled : Nat} (h : s.exceptions.isSome) :
    (s.processSecond early w answered event handled).1.exceptions.isSome ∧
      (s.processSecond early w answered event handled).1.aborted = s.aborted := by
  rw [processSecond]
  split
  case h_1 hnone => simp [hnone] at h
  case h_2 state hsome =>
      split
      case h_1 => exact ⟨h, rfl⟩
      case h_2 => exact ⟨rfl, rfl⟩
      case h_3 target _ =>
          rw [exceptionHandler_of_isSome rfl]
          exact ⟨rfl, rfl⟩

theorem processEvent_of_isSome (h : s.exceptions.isSome) :
    (s.processEvent early w answered event).1.exceptions.isSome ∧
      (s.processEvent early w answered event).1.aborted = s.aborted := by
  rw [processEvent]
  split
  case h_1 => exact processSecond_of_isSome h
  case h_2 machine target _ =>
      have := @processSecond_of_isSome early w answered
        { s with machine := machine.enter w target } event 1 h
      exact this
  case h_3 target _ =>
      have hhandled : ∀ s' : Regions, s'.exceptions = s.exceptions → s'.aborted = s.aborted →
          (s'.exceptionHandler w).exceptions.isSome ∧
            (s'.exceptionHandler w).aborted = s.aborted := by
        intro s' hexceptions haborted
        rw [← hexceptions] at h
        rw [exceptionHandler_of_isSome h]
        exact ⟨h, haborted⟩
      exact hhandled _ rfl rfl

/-- The second region does not come back to `ExceptionsHandling`, and a further failure is not
reported. -/
theorem reported_once (h : s.exceptions.isSome) :
    (s.step early a).exceptions.isSome ∧ (s.step early a).aborted = s.aborted := by
  show (s.handle early a.answers a.answered a.event).1.exceptions.isSome ∧
    (s.handle early a.answers a.answered a.event).1.aborted = s.aborted
  rcases @handle_cases early s a with
    ⟨s', hhandle, hexceptions, haborted, _⟩ | ⟨hexceptions, haborted, _⟩
  · rw [← hexceptions] at h
    rw [hhandle, ← haborted]
    exact processEvent_of_isSome h
  · rw [hexceptions]
    exact ⟨h, haborted⟩

/-- With both regions in `Idle` a call is started twice. -/
theorem started_twice {type : CallType} {number : PhoneNumber} (hidle : s.machine.state = .Idle)
    (hsecond : s.exceptions = some .Idle) :
    (s.handle early w answered (.StartCall type number)).2 = 2 := by
  have hmoved : ∀ m : StateMachine, outcome w answered m .Idle (.StartCall type number) =
      .moved (m.handleStartCall w type number) .Starting := fun _ => rfl
  simp only [handle, processEvent, hidle, hmoved, processSecond, hsecond]

end MuditaOS.Calls.Regions
