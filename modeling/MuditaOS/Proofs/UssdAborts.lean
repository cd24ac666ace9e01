import MuditaOS.Cellular.UssdHandler
import MuditaOS.Lib.Run

/-!
# USSD timeouts

A timeout is told from a timer that does not run, so an abort is taken for that of a timeout
wherever no pull session is timed, and for another one as soon as a session is timed again.
While the timer does not run the counter is zero, and a pull session whose timer has run out
has its abort request waiting.
-/

namespace MuditaOS.Cellular.Ussd

open MuditaOS.Lib

/-- The call says whether the timer has run out. -/
def AbortCall.Honest (call : AbortCall) : Prop := call.ussdSessionTimeout = call.expiry

namespace UssdService

variable {s s' : UssdService} {event : Event} {message : USSDMessage} {succeeds : Bool}

/-- A pull session is open. -/
def Pulls (s : UssdService) : Prop :=
  s.ussdState = .pullRequestSent ∨ s.ussdState = .pullResponseReceived

/-- The abort request of a timer that has run out is waiting. -/
def ExpiryWaits (s : UssdService) : Prop := ⟨.abortSession, true⟩ ∈ s.messages

structure Inv (s : UssdService) : Prop where
  stopped : s.timerActive = false → s.ussdTimeout = 0
  timed : s.timerActive → s.Pulls
  expired : s.Pulls → s.timerActive = false → s.ExpiryWaits

theorem inv_start : Inv {} where
  stopped _ := rfl
  timed h := absurd h Bool.false_ne_true
  expired h _ := by rcases h with h | h <;> cases h

/-! ## The timer -/

theorem setUSSDTimer_spec : s.setUSSDTimer.ussdState = s.ussdState ∧
    s.setUSSDTimer.messages = s.messages ∧ s.setUSSDTimer.abortCalls = s.abortCalls ∧
    (s.setUSSDTimer.timerActive ↔ s.Pulls) ∧
    (s.setUSSDTimer.timerActive = false → s.setUSSDTimer.ussdTimeout = 0) := by
  refine ⟨rfl, rfl, rfl, ?_, ?_⟩ <;>
    cases hstate : s.ussdState <;>
      simp [Pulls, setUSSDTimer, hstate, pullResponseTimeout, pullSessionTimeout, noTimeout]

/-- Whatever state is set with the timer, it goes with it. -/
theorem inv_setUSSDTimer : Inv s.setUSSDTimer := by
  obtain ⟨hstate, -, -, hactive, hstopped⟩ := @setUSSDTimer_spec s
  refine ⟨hstopped, fun h => ?_, fun hpulls hnot => ?_⟩
  · rw [Pulls, hstate]
    exact hactive.1 h
  · rw [Pulls, hstate] at hpulls
    exact absurd (hactive.2 hpulls) (ne_true_of_eq_false hnot)

/-- What else happens to the messages does not matter, if no abort request gets lost. -/
theorem Inv.of_messages (h : Inv s) (hstate : s'.ussdState = s.ussdState)
    (htimeout : s'.ussdTimeout = s.ussdTimeout) (hactive : s'.timerActive = s.timerActive)
    (hwaits : s.ExpiryWaits → s'.ExpiryWaits) : Inv s' := by
  refine ⟨fun hnot => ?_, fun hruns => ?_, fun hpulls hnot => ?_⟩
  · rw [htimeout]
    exact h.stopped (hactive ▸ hnot)
  · rw [Pulls, hstate]
    exact h.timed (hactive ▸ hruns)
  · rw [Pulls, hstate] at hpulls
    exact hwaits (h.expired hpulls (hactive ▸ hnot))

theorem Inv.sendUnicast (h : Inv s) : Inv (s.sendUnicast message) :=
  h.of_messages rfl rfl rfl (List.mem_append_left _)

theorem ussdSessionTimeout_eq (h : Inv s) : s.ussdSessionTimeout = !s.timerActive := by
  rw [ussdSessionTimeout]
  cases hactive : s.timerActive with
  | true => rfl
  | false => rw [h.stopped hactive]; rfl

/-! ## One step -/

/-- A URC asks for an abort, or sets the timer in one of two states. -/
theorem handleCusd_cases {hasMessage isActionNeeded : Bool} :
    s.handleCusd hasMessage isActionNeeded = s.sendUnicast ⟨.abortSession, false⟩ ∨
      (hasMessage = true ∧ isActionNeeded = true ∧ s.ussdState = .pullRequestSent ∧
        s.handleCusd hasMessage isActionNeeded =
          setUSSDTimer { s with ussdState := .pullResponseReceived }) ∨
      s.ussdState = .pushSession ∧ s.handleCusd hasMessage isActionNeeded = s.setUSSDTimer := by
  cases hasMessage with
  | false => exact .inl rfl
  | true =>
      cases isActionNeeded with
      | false => exact .inl rfl
      | true =>
          rw [handleCusd, handleURC]
          cases hstate : s.ussdState with
          | none => exact .inl rfl
          | pushSession => exact .inr (.inr ⟨rfl, rfl⟩)
          | pullRequestSent => exact .inr (.inl ⟨rfl, rfl, rfl, rfl⟩)
          | pullResponseReceived => exact .inl rfl
          | sessionAborted => exact .inl rfl

/-- The call of `onAbortSession` that a step makes. -/
def calls (s : UssdService) : Event → List AbortCall
  | .handle _ =>
      match s.messages with
      | [] => []
      | message :: _ =>
          if message.requestType = .abortSession then [⟨s.ussdSessionTimeout, message.expiry⟩]
          else []
  | _ => []

/-- A message adds its call, if it asks for an abort, and leaves the others. -/
theorem abortCalls_handle : (s.handleUSSDRequest message succeeds).abortCalls =
    s.abortCalls ++ if message.requestType = .abortSession then
      [⟨s.ussdSessionTimeout, message.expiry⟩] else [] := by
  obtain ⟨requestType, expiry⟩ := message
  cases requestType <;> cases succeeds <;>
    simp [handleUSSDRequest, sendUnicast, setUSSDTimer]

theorem abortCalls_step : (s.step event).abortCalls = s.abortCalls ++ s.calls event := by
  cases event with
  | request requestType => exact (List.append_nil _).symm
  | handle succeeds =>
      rw [step.eq_def, calls.eq_def]
      cases hmessages : s.messages with
      | nil => exact (List.append_nil _).symm
      | cons message messages => exact abortCalls_handle
  | timerTick =>
      have htick : s.handleUSSDTimer.abortCalls = s.abortCalls := by
        rw [handleUSSDTimer]
        split <;> rfl
      refine Eq.trans ?_ (List.append_nil _).symm
      rw [step]
      split
      · exact htick
      · rfl
  | externalRequest => exact (List.append_nil _).symm
  | cusd hasMessage isActionNeeded =>
      refine Eq.trans ?_ (List.append_nil _).symm
      rw [step]
      rcases @handleCusd_cases s hasMessage isActionNeeded with
        hcusd | ⟨-, -, -, hcusd⟩ | ⟨-, hcusd⟩ <;> rw [hcusd]
      · rfl
      · exact setUSSDTimer_spec.2.2.1
      · exact setUSSDTimer_spec.2.2.1

theorem inv_handle {messages : List USSDMessage} (h : Inv s)
    (hmessages : s.messages = message :: messages) :
    Inv (handleUSSDRequest message succeeds { s with messages := messages }) := by
  obtain ⟨requestType, expiry⟩ := message
  have hnext : requestType ≠ .abortSession → s.ExpiryWaits →
      ⟨.abortSession, true⟩ ∈ messages := by
    intro hne hwaits
    rw [ExpiryWaits, hmessages] at hwaits
    rcases List.mem_cons.1 hwaits with heq | hwaits
    · exact absurd (congrArg USSDMessage.requestType heq).symm hne
    · exact hwaits
  rw [handleUSSDRequest.eq_def]
  cases requestType with
  | pullSessionRequest =>
      cases succeeds with
      | true => exact inv_setUSSDTimer
      | false => exact h.of_messages rfl rfl rfl (hnext (by decide))
  | pushSessionRequest =>
      cases succeeds with
      | true => exact inv_setUSSDTimer
      | false => exact h.of_messages rfl rfl rfl (hnext (by decide))
  | abortSession =>
      cases succeeds with
      | true => exact Inv.sendUnicast inv_setUSSDTimer
      | false =>
          -- the request is sent again, as it was
          refine h.of_messages rfl rfl rfl fun hwaits => ?_
          rw [ExpiryWaits, hmessages] at hwaits
          rcases List.mem_cons.1 hwaits with heq | hwaits
          · obtain rfl : true = expiry := congrArg USSDMessage.expiry heq
            exact List.mem_append_right messages List.mem_cons_self
          · exact List.mem_append_left _ hwaits

theorem inv_handleUSSDTimer (h : Inv s) (hactive : s.timerActive) : Inv s.handleUSSDTimer := by
  rw [handleUSSDTimer]
  split
  · refine ⟨fun hnot => ?_, fun _ => h.timed hactive, fun _ hnot => ?_⟩
    · exact absurd hactive (ne_true_of_eq_false hnot)
    · exact absurd hactive (ne_true_of_eq_false hnot)
  · next hzero =>
      refine ⟨fun _ => ?_, fun hruns => absurd hruns Bool.false_ne_true,
        fun _ _ => List.mem_append_right _ List.mem_cons_self⟩
      exact UInt32.le_zero_iff.1 (UInt32.not_lt.1 hzero)

theorem inv_handleCusd {hasMessage isActionNeeded : Bool} (h : Inv s) :
    Inv (s.handleCusd hasMessage isActionNeeded) := by
  rcases @handleCusd_cases s hasMessage isActionNeeded with
    hcusd | ⟨-, -, -, hcusd⟩ | ⟨-, hcusd⟩ <;> rw [hcusd]
  · exact h.sendUnicast
  · exact inv_setUSSDTimer
  · exact inv_setUSSDTimer

theorem inv_step (h : Inv s) : Inv (s.step event) := by
  rw [step.eq_def]
  cases event with
  | request requestType => exact h.sendUnicast
  | handle succeeds =>
      cases hmessages : s.messages with
      | nil => exact h
      | cons message messages => exact inv_handle h hmessages
  | timerTick =>
      by_cases hactive : s.timerActive
      · simp only [if_pos hactive]
        exact inv_handleUSSDTimer h hactive
      · simp only [if_neg hactive]
        exact h
  | externalRequest => exact inv_setUSSDTimer
  | cusd hasMessage isActionNeeded => exact inv_handleCusd h

/-! ## Whole runs -/

/-- An abort request of a timer that has run out is handled while the timer does not run, any
other one while it does. -/
def Timely (s : UssdService) : Event → Prop
  | .handle _ =>
      ∀ message ∈ s.messages.head?, message.requestType = .abortSession →
        message.expiry = !s.timerActive
  | _ => True

theorem honest_calls_iff (h : Inv s) :
    (∀ call ∈ s.calls event, call.Honest) ↔ s.Timely event := by
  cases event with
  | handle succeeds =>
      rw [calls.eq_def, Timely]
      cases s.messages with
      | nil => simp
      | cons message messages =>
          by_cases habort : message.requestType = .abortSession
          · simp [habort, AbortCall.Honest, ussdSessionTimeout_eq h, eq_comm]
          · simp [habort]
  | request requestType => exact iff_of_true (fun _ hcall => absurd hcall List.not_mem_nil) trivial
  | timerTick => exact iff_of_true (fun _ hcall => absurd hcall List.not_mem_nil) trivial
  | externalRequest => exact iff_of_true (fun _ hcall => absurd hcall List.not_mem_nil) trivial
  | cusd _ _ => exact iff_of_true (fun _ hcall => absurd hcall List.not_mem_nil) trivial

theorem honest_run_iff {events : List Event} (h : Inv s) :
    (∀ call ∈ (events.foldl step s).abortCalls, call.Honest) ↔
      (∀ call ∈ s.abortCalls, call.Honest) ∧ EveryStep Timely step s events := by
  induction events generalizing s with
  | nil => exact (and_iff_left everyStep_nil).symm
  | cons event events ih =>
      rw [List.foldl_cons, ih (inv_step h), everyStep_cons, abortCalls_step,
        List.forall_mem_append, honest_calls_iff h, and_assoc]

/-- In a run from the start every call says whether the timer has run out exactly if every
abort request is handled in time. -/
theorem timeouts_reported_iff (events : List Event) :
    (∀ call ∈ (events.foldl step {}).abortCalls, call.Honest) ↔
      EveryStep Timely step {} events := by
  rw [honest_run_iff inv_start]
  exact and_iff_right fun call hcall => absurd hcall List.not_mem_nil

/-- The user aborts where there is no session, and is told of a timeout. -/
theorem abort_without_session :
    ¬ ∀ call ∈ ([Event.request .abortSession, .handle true].foldl step {}).abortCalls,
      call.Honest := by
  intro h
  exact absurd (h ⟨true, false⟩ (by decide)) (by simp [AbortCall.Honest])

/-! ## Calm runs -/

/-- Other aborts are handled in a pull session for which none of the timer waits, and while one
waits, no session is timed again. -/
def Calm (s : UssdService) : Event → Prop
  | .handle succeeds =>
      match s.messages with
      | [] => True
      | message :: messages =>
          match message.requestType with
          | .abortSession => message.expiry = true ∨ s.Pulls ∧ ¬ s.ExpiryWaits
          | .pullSessionRequest => succeeds = true → ⟨.abortSession, true⟩ ∉ messages
          | .pushSessionRequest => True
  | .externalRequest => ¬ s.ExpiryWaits
  | .cusd true true => s.ussdState = .pullRequestSent → ¬ s.ExpiryWaits
  | _ => True

/-- While an abort request of the timer waits, the timer does not run. -/
def Settled (s : UssdService) : Prop := s.ExpiryWaits → s.timerActive = false

theorem Settled.sendUnicast {requestType : RequestType} (h : Settled s) :
    Settled (s.sendUnicast ⟨requestType, false⟩) := by
  intro hwaits
  rcases List.mem_append.1 hwaits with hwaits | hsent
  · exact h hwaits
  · have hexpiry : true = false := congrArg USSDMessage.expiry (List.mem_singleton.1 hsent)
    cases hexpiry

theorem settled_setUSSDTimer (h : s.Pulls → ¬ s.ExpiryWaits) : Settled s.setUSSDTimer := by
  intro hwaits
  obtain ⟨-, hmessages, -, hactive, -⟩ := @setUSSDTimer_spec s
  rw [ExpiryWaits, hmessages] at hwaits
  exact Bool.eq_false_iff.2 fun hruns => h (hactive.1 hruns) hwaits

theorem settled_handle {messages : List USSDMessage} (h : Settled s)
    (hmessages : s.messages = message :: messages)
    (hcalm : message.requestType = .pullSessionRequest → succeeds = true →
      ⟨.abortSession, true⟩ ∉ messages) :
    Settled (handleUSSDRequest message succeeds { s with messages := messages }) := by
  obtain ⟨requestType, expiry⟩ := message
  have hrest : Settled { s with messages := messages } := by
    intro hwaits
    refine h ?_
    rw [ExpiryWaits, hmessages]
    exact List.mem_cons_of_mem _ hwaits
  rw [handleUSSDRequest.eq_def]
  cases requestType with
  | pullSessionRequest =>
      cases succeeds with
      | true => exact settled_setUSSDTimer fun _ => hcalm rfl rfl
      | false => exact hrest
  | pushSessionRequest =>
      cases succeeds with
      | true =>
          refine settled_setUSSDTimer fun hpulls => ?_
          rcases hpulls with hstate | hstate <;> cases hstate
      | false => exact hrest
  | abortSession =>
      cases succeeds with
      | true =>
          refine Settled.sendUnicast (settled_setUSSDTimer fun hpulls => ?_)
          rcases hpulls with hstate | hstate <;> cases hstate
      | false =>
          intro hwaits
          rcases List.mem_append.1 hwaits with hwaits | hsent
          · exact hrest hwaits
          · refine h ?_
            rw [ExpiryWaits, hmessages, List.mem_singleton.1 hsent]
            exact List.mem_cons_self

theorem settled_handleUSSDTimer (h : Settled s) : Settled s.handleUSSDTimer := by
  rw [handleUSSDTimer]
  split
  · exact h
  · exact fun _ => rfl

theorem settled_handleCusd {hasMessage isActionNeeded : Bool} (h : Settled s)
    (hcalm : s.Calm (.cusd hasMessage isActionNeeded)) :
    Settled (s.handleCusd hasMessage isActionNeeded) := by
  rcases @handleCusd_cases s hasMessage isActionNeeded with
    hcusd | ⟨rfl, rfl, hstate, hcusd⟩ | ⟨hstate, hcusd⟩ <;> rw [hcusd]
  · exact h.sendUnicast
  · exact settled_setUSSDTimer fun _ => hcalm hstate
  · refine settled_setUSSDTimer fun hpulls => ?_
    rw [Pulls, hstate] at hpulls
    rcases hpulls with hstate | hstate <;> cases hstate

theorem settled_step (h : Settled s) (hcalm : s.Calm event) : Settled (s.step event) := by
  rw [step.eq_def]
  cases event with
  | request requestType => exact h.sendUnicast
  | handle succeeds =>
      cases hmessages : s.messages with
      | nil => exact h
      | cons message messages =>
          refine settled_handle h hmessages fun hpull hsucceeds => ?_
          rw [Calm, hmessages] at hcalm
          simp only [hpull] at hcalm
          exact hcalm hsucceeds
  | timerTick =>
      by_cases hactive : s.timerActive
      · simp only [if_pos hactive]
        exact settled_handleUSSDTimer h
      · simp only [if_neg hactive]
        exact h
  | externalRequest => exact settled_setUSSDTimer fun _ => hcalm
  | cusd hasMessage isActionNeeded => exact settled_handleCusd h hcalm

theorem timely_of_calm (hinv : Inv s) (h : Settled s) (hcalm : s.Calm event) : s.Timely event := by
  cases event with
  | handle succeeds =>
      intro message hhead habort
      cases hmessages : s.messages with
      | nil => rw [hmessages] at hhead; cases hhead
      | cons first messages =>
          rw [hmessages] at hhead
          obtain rfl := Option.some.inj hhead
          rw [Calm, hmessages] at hcalm
          simp only [habort] at hcalm
          have hwaits : first.expiry = true → s.ExpiryWaits := fun hexpiry => by
            rw [ExpiryWaits, hmessages, ← habort, ← hexpiry]
            exact List.mem_cons_self
          rcases hcalm with hexpiry | ⟨hpulls, hnot⟩
          · rw [hexpiry, h (hwaits hexpiry)]
            rfl
          · have hactive : s.timerActive = true :=
              eq_true_of_ne_false fun hnot' => hnot (hinv.expired hpulls hnot')
            rw [hactive, Bool.eq_false_iff.2 (mt hwaits hnot)]
            rfl
  | request _ => trivial
  | timerTick => trivial
  | externalRequest => trivial
  | cusd _ _ => trivial

/-- In a calm run every call says whether the timer has run out. -/
theorem reported_of_calm {events : List Event} (h : EveryStep Calm step {} events) :
    ∀ call ∈ (events.foldl step {}).abortCalls, call.Honest := by
  refine (honest_run_iff inv_start).2 ⟨fun call hcall => absurd hcall List.not_mem_nil, ?_⟩
  exact (@everyStep_of_rule _ _ (fun s => Inv s ∧ Settled s) _ _ _
    (fun _ _ hs hcalm => timely_of_calm hs.1 hs.2 hcalm)
    (fun _ _ hs hcalm => ⟨inv_step hs.1, settled_step hs.2 hcalm⟩) _ _
    ⟨inv_start, fun hwaits => absurd hwaits List.not_mem_nil⟩ h).1

end UssdService

end MuditaOS.Cellular.Ussd
