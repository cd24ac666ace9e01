import MuditaOS.Cellular.CallSession

/-!
# Hanging up

The state after an event is the target of the row it selects, and that row
depends on the call data alone. All states but `RingDelay` have a row for the
end of the call. There the event is lost: the ring timer still runs, and when it
fires the phone rings for a call that is gone.
-/

namespace MuditaOS.Calls

open Lib

namespace StateMachine

variable {w : Answers} {m : StateMachine}

/-! ## Where an event leads -/

@[simp] theorem enter_state {target : State} : (m.enter w target).state = target := by
  cases target <;> rfl

/-- What an action makes of the machine does not choose the row. -/
theorem transition_snd {other : StateMachine} {state : State} {event : Event}
    (h : m.call = other.call) :
    (m.transition w state event).map Prod.snd =
      (other.transition w state event).map Prod.snd := by
  cases state <;> cases event <;> simp only [transition, h, Option.map_some, Option.map_none] <;>
    split_ifs <;> rfl

theorem processEvent_state {event : Event} :
    (m.processEvent w event).1.state =
      ((m.transition w m.state event).map Prod.snd).getD m.state := by
  rw [processEvent]
  split
  next h => rw [h, enter_state]; rfl
  next h => rw [h]; rfl

/-- The state after an event is the target of the row it selects, if any. -/
theorem handle_state {event : Event} :
    (m.handle w event).1.state =
      ((m.transition w m.state event).map Prod.snd).getD m.state := by
  have hcleared : ∀ other : StateMachine, other.call = m.call → other.state = m.state →
      (other.processEvent w event).1.state =
        ((m.transition w m.state event).map Prod.snd).getD m.state := by
    intro other hcall hstate
    rw [processEvent_state, hstate, transition_snd hcall]
  cases event with
  | ModeChange mode => cases hs : m.state <;> simp [handle, transition, hs]
  | TetheringChange tethering => cases hs : m.state <;> simp [handle, transition, hs]
  | _ => exact hcleared _ rfl rfl

/-- In `Idle` only an announced call selects a row. -/
theorem transition_idle {event : Event} (hring : event ≠ .RING)
    (hclip : ∀ number, event ≠ .CLIP number)
    (hstart : ∀ type number, event ≠ .StartCall type number) :
    m.transition w .Idle event = none := by
  cases event with
  | RING => exact absurd rfl hring
  | CLIP number => exact absurd rfl (hclip number)
  | StartCall type number => exact absurd rfl (hstart type number)
  | _ => rfl

theorem hang_delayed {event : Event} (h : Line.Hangs event) :
    m.transition w .RingDelay event = none := by
  rcases h with rfl | rfl <;> rfl

theorem hang_target {state : State} {event : Event} (h : Line.Hangs event)
    (hstate : state ≠ .RingDelay) :
    ((m.transition w state event).map Prod.snd).getD state = .Idle := by
  rcases h with rfl | rfl <;> cases state <;> first | rfl | exact absurd rfl hstate

/-- An event that selects no row has no effect, but `RING`. -/
theorem handle_ignored {event : Event} (hring : event ≠ .RING)
    (h : m.transition w m.state event = none) : (m.handle w event).1.effects = [] := by
  have hcleared : ({ m with effects := [] }.processEvent w event).1.effects = [] := by
    have hnone : ({ m with effects := [] } : StateMachine).transition w m.state event =
        none := by
      have hsnd : (({ m with effects := [] } : StateMachine).transition w m.state
          event).map Prod.snd = (m.transition w m.state event).map Prod.snd :=
        transition_snd rfl
      rw [h] at hsnd
      exact Option.map_eq_none_iff.mp hsnd
    rw [processEvent]
    simp only [hnone]
  cases event with
  | RING => exact absurd rfl hring
  | ModeChange mode => rfl
  | TetheringChange tethering => rfl
  | _ => exact hcleared

end StateMachine

namespace Line

open StateMachine

variable {s : Line} {input : Input}

/-! ## One event -/

theorem step_state : (s.step input).machine.state =
    ((s.machine.transition input.answers s.machine.state input.event).map Prod.snd).getD
      s.machine.state := handle_state

theorem ended_of_hangs (h : Hangs input.event) : (s.step input).ended = true := by
  rcases h with h | h <;> simp only [step, h, endedAfter]

/-- The line stays dead only if the event hangs up, or it was dead and no call
is announced. -/
theorem ended_step (h : (s.step input).ended) : Hangs input.event ∨
    s.ended ∧ s.machine.transition input.answers .Idle input.event = none := by
  simp only [step] at h
  cases hevent : input.event <;> rw [hevent] at h <;> simp only [endedAfter] at h
  case Ended => exact .inl (.inl rfl)
  case Reject => exact .inl (.inr rfl)
  case RING => cases h
  case CLIP => cases h
  case StartCall => cases h
  all_goals exact .inr ⟨h, rfl⟩

/-- Before the event, an ended call has left the machine in `Idle`. -/
def Rested (s : Line) : Prop := s.ended → s.machine.state = .Idle

theorem rested_step (hrest : s.Rested) (h : s.NotDelayed input) : (s.step input).Rested := by
  intro hended
  rw [step_state]
  rcases ended_step hended with hhang | ⟨hbefore, hnone⟩
  · exact hang_target hhang fun hdelay => h ⟨hdelay, hhang⟩
  · rw [hrest hbefore, hnone]
    rfl

/-- A timer that fires after the call has ended does nothing. -/
theorem timer_silent (hrest : s.Rested) (hended : s.ended) (htimer : IsTimer input.event) :
    (s.handled input).effects = [] := by
  refine handle_ignored ?_ ?_
  · intro hring
    rcases htimer with h | h <;> rw [hring] at h <;> cases h
  · rw [hrest hended]
    rcases htimer with h | h <;> rw [h] <;> rfl

theorem staysDead_iff (hrest : s.Rested) : s.StaysDead input ↔ s.NotDelayed input := by
  constructor
  · intro hdead hdelay
    have hidle := hdead.1 (ended_of_hangs hdelay.2)
    rw [step_state, hdelay.1, hang_delayed hdelay.2] at hidle
    cases hidle
  · intro h
    refine ⟨rested_step hrest h, ?_⟩
    intro hended htimer effect heffect
    rw [timer_silent hrest hended htimer] at heffect
    cases heffect

/-! ## Whole runs -/

/-- A dead call never rings exactly as long as no call ends while the machine
waits for its caller id. -/
theorem deadCall_silent_iff (w : Answers) (inputs : List Input) :
    EveryStep StaysDead step (start w) inputs ↔
      EveryStep NotDelayed step (start w) inputs := by
  have hiff : ∀ (s : Line) (input : Input), s.Rested →
      (s.StaysDead input ↔ s.NotDelayed input) := fun s input => staysDead_iff
  have hinv : ∀ (s : Line) (input : Input), s.Rested → s.NotDelayed input →
      (s.step input).Rested := fun s input => rested_step
  refine everyStep_congr hiff hinv ?_
  intro hended
  cases hended

/-- Answers of a connected phone to a call from an unknown number. -/
def quietAnswers : Answers where
  time := 0
  getMode := .Connected
  getTethering := .Off
  areCallsFromFavouritesEnabled := false
  isNumberInFavourites := fun _ => false
  CalllogAdd := fun record => ⟨{ record with ID := 1 }, Nat.one_ne_zero⟩

/-- The call ends in the second before the ring timer fires: the phone rings and
opens a record for it. -/
theorem ended_call_rings :
    ¬EveryStep StaysDead step (start quietAnswers)
      [⟨.RING, quietAnswers⟩, ⟨.Ended, quietAnswers⟩, ⟨.RingTimeout, quietAnswers⟩] := by
  intro h
  obtain ⟨_, _, hdead, _⟩ := h
  have hrings : Effect.startPlayback ∈
      ((((start quietAnswers).step ⟨.RING, quietAnswers⟩).step
        ⟨.Ended, quietAnswers⟩).handled ⟨.RingTimeout, quietAnswers⟩).effects := by decide
  exact hdead.2 (by decide) (.inl rfl) _ hrings trivial

end Line

end MuditaOS.Calls
