import MuditaOS.Lib.Run
import MuditaOS.Sys.TimedCpuSentinel
import Mathlib.Data.List.Induction
import Mathlib.Tactic.Set

/-!
# How long a timed hold lasts

A hold for a time starts the timer only if it changes the frequency. So the second of two
overlapping holds of one frequency goes by the timer of the first, and a frequency that was
held without a timer goes by one that a release has left running. Apart from that the hold
lasts, as long as a timer message is of the start in force.
-/

namespace MuditaOS.Sys

open MuditaOS.Lib MuditaOS.Sys.timer

/-! ## The timer of a sentinel -/

namespace TimerService

variable {s s' : TimerService} {e : TimerEvent} {timeout : Nat}

/-- A connected single-shot timer that has not been destroyed. What is in its mailbox has
fallen due. -/
structure OneShot (s : TimerService) : Prop where
  attached : s.attached
  callback : s.timer.callback
  type : s.timer.type = .SingleShot
  expired : s.expired ≤ s.starts.length - 1
  queued : ∀ start ∈ s.mailbox, ∃ began ∈ s.starts[start]?, began.1 + began.2 ≤ s.now
  inForce : s.timer.active → ∃ last, s.inForce = some last ∧ last + 1 = s.starts.length

/-- The start in force is not over before the deadline. -/
def NotBefore (s : TimerService) (deadline : Nat) : Prop :=
  s.timer.active → ∀ last ∈ s.inForce, ∀ began ∈ s.starts[last]?, deadline ≤ began.1 + began.2

theorem oneShot_create : OneShot (create true timeout .SingleShot) where
  attached := rfl
  callback := rfl
  type := rfl
  expired := Nat.le_refl _
  queued := by simp [create]
  inForce := by simp [create]

/-- What passes without the service leaves the timer as it is. -/
theorem elapse_frame (e : Elapse) :
    (step s e.event).timer = s.timer ∧ (step s e.event).inForce = s.inForce ∧
      (step s e.event).starts = s.starts ∧ s.now ≤ (step s e.event).now := by
  cases e with
  | tick ticks => exact ⟨rfl, rfl, rfl, Nat.le_add_right _ _⟩
  | expire start =>
      rw [Elapse.event, step]
      split
      case isTrue => exact ⟨rfl, rfl, rfl, Nat.le_refl _⟩
      case isFalse => exact ⟨rfl, rfl, rfl, Nat.le_refl _⟩

theorem OneShot.elapse (h : OneShot s) (e : Elapse) : OneShot (step s e.event) := by
  cases e with
  | tick ticks =>
      refine ⟨h.attached, h.callback, h.type, h.expired, ?_, h.inForce⟩
      intro start hstart
      obtain ⟨began, hbegan, hdue⟩ := h.queued start hstart
      exact ⟨began, hbegan, Nat.le_add_right_of_le hdue⟩
  | expire start =>
      rw [Elapse.event, step]
      split
      case isFalse => exact h
      case isTrue hmay =>
          obtain ⟨_, _, began, hbegan, hdue⟩ := hmay
          have hlt := (List.getElem?_eq_some_iff.1 hbegan).1
          refine ⟨h.attached, h.callback, h.type, Nat.le_sub_one_of_lt hlt, ?_, h.inForce⟩
          intro k hk
          rcases List.mem_append.1 hk with hk | hk
          · exact h.queued k hk
          · rw [List.mem_singleton.1 hk]
            exact ⟨began, hbegan, hdue⟩

theorem OneShot.restart (h : OneShot s) : OneShot (step s (.restart timeout)) := by
  rw [step, if_pos h.attached]
  refine ⟨h.attached, h.callback, h.type, ?_, ?_, ?_⟩
  · have := h.expired
    simp only [startTimer, setInterval, List.length_append, List.length_singleton]
    omega
  · intro start hstart
    obtain ⟨began, hbegan, hdue⟩ := h.queued start hstart
    have hlt := (List.getElem?_eq_some_iff.1 hbegan).1
    exact ⟨began, (List.getElem?_append_left hlt).trans hbegan, hdue⟩
  · intro _
    exact ⟨s.starts.length, rfl, by simp [startTimer, setInterval]⟩

theorem notBefore_restart (h : OneShot s) :
    NotBefore (step s (.restart timeout)) (s.now + timeout) := by
  rw [step, if_pos h.attached]
  intro _ last hlast began hbegan
  obtain rfl : s.starts.length = last := Option.some.inj hlast
  have hnew : (s.starts ++ [(s.now, timeout)])[s.starts.length]? = some began := hbegan
  rw [List.getElem?_concat_length] at hnew
  obtain rfl := Option.some.inj hnew
  exact Nat.le_refl _

/-- Either the callback has run, and the timer was active and is stopped, or a message has been
dropped at most. -/
theorem OneShot.handle_cases (h : OneShot s) :
    (∃ start mailbox, s.mailbox = start :: mailbox ∧ s.timer.active ∧
        step s .handle
          = { s.stop with mailbox, ran := s.ran ++ [⟨s.now, start, s.inForce⟩] }) ∨
      (s.mailbox = [] ∨ s.timer.active = false) ∧
        step s .handle = { s with mailbox := s.mailbox.tail } := by
  cases hmail : s.mailbox with
  | nil =>
      refine Or.inr ⟨Or.inl rfl, ?_⟩
      have hsame : { s with mailbox := [] } = s := by rw [← hmail]
      rw [step, timerHandle, hmail]
      exact hsame.symm
  | cons start mailbox =>
      have hstep : step s .handle = onTimeout { s with mailbox } start := by
        rw [step, timerHandle, hmail]
        exact if_pos h.attached
      rw [hstep, onTimeout, if_neg (not_not.2 h.callback)]
      cases hactive : s.timer.active with
      | false => exact Or.inr ⟨Or.inr rfl, if_pos (by simp)⟩
      | true =>
          refine Or.inl ⟨start, mailbox, rfl, rfl, ?_⟩
          rw [if_neg (by simp)]
          dsimp only
          rw [if_pos h.type]
          rfl

theorem OneShot.handle (h : OneShot s) : OneShot (step s .handle) := by
  rcases h.handle_cases with ⟨start, mailbox, hmail, _, hstep⟩ | ⟨_, hstep⟩
  · rw [hstep]
    refine ⟨h.attached, h.callback, h.type, h.expired, ?_, by simp [stop]⟩
    intro k hk
    exact h.queued k (by rw [hmail]; exact List.mem_cons_of_mem _ hk)
  · rw [hstep]
    refine ⟨h.attached, h.callback, h.type, h.expired, ?_, h.inForce⟩
    intro k hk
    exact h.queued k (List.mem_of_mem_tail hk)

/-- An active timer may expire for the start in force as soon as it is over. -/
theorem OneShot.falls_due {last : Nat} {began : Nat × Nat} (h : OneShot s)
    (hactive : s.timer.active) (hlast : s.inForce = some last)
    (hbegan : s.starts[last]? = some began) :
    (step s (.tick (began.1 + began.2 - s.now))).step (.expire last)
      = { s with
          now := s.now + (began.1 + began.2 - s.now)
          expired := last
          mailbox := s.mailbox ++ [last] } := by
  obtain ⟨k, hk, hlen⟩ := h.inForce hactive
  obtain rfl : last = k := Option.some.inj (hlast.symm.trans hk)
  have hexpired : s.expired ≤ last := by
    have := h.expired
    omega
  have hdue : began.1 + began.2 ≤ s.now + (began.1 + began.2 - s.now) := by omega
  exact if_pos ⟨h.attached, hexpired, began, hbegan, hdue⟩

/-! ### While the service waits -/

theorem elapses_frame {wait : List Elapse} :
    let after := (wait.map Elapse.event).foldl step s
    after.timer = s.timer ∧ after.inForce = s.inForce ∧ after.starts = s.starts ∧
      s.now ≤ after.now := by
  induction wait generalizing s with
  | nil => exact ⟨rfl, rfl, rfl, Nat.le_refl _⟩
  | cons e wait ih =>
      obtain ⟨htimer, hinForce, hstarts, hnow⟩ := @elapse_frame s e
      obtain ⟨htimer', hinForce', hstarts', hnow'⟩ := @ih (step s e.event)
      exact ⟨htimer'.trans htimer, hinForce'.trans hinForce, hstarts'.trans hstarts,
        Nat.le_trans hnow hnow'⟩

theorem OneShot.elapses {wait : List Elapse} (h : OneShot s) :
    OneShot ((wait.map Elapse.event).foldl step s) := by
  induction wait generalizing s with
  | nil => exact h
  | cons e wait ih => exact ih (h.elapse e)

theorem NotBefore.congr {deadline : Nat} (h : NotBefore s deadline) (htimer : s'.timer = s.timer)
    (hinForce : s'.inForce = s.inForce) (hstarts : s'.starts = s.starts) :
    NotBefore s' deadline := by
  rw [NotBefore, htimer, hinForce, hstarts]
  exact h

end TimerService

namespace TimedCpuSentinel

open TimerService CpuGovernor

variable {s : TimedCpuSentinel} {e : TimedSentinelEvent} {events after : List TimedSentinelEvent}
  {name : Name} {frequency : CpuFrequencyMHz} {timeout deadline : Nat} {processing : String}
  {wait : List Elapse}

/-- What the messages ask for. -/
def requested (sent : List SentinelMessage) : CpuFrequencyMHz :=
  sent.foldl (fun _ message =>
    match message with
    | .HoldCpuFrequencyMessage _ request => request
    | .ReleaseCpuFrequencyMessage _ => .Level_0) .Level_0

/-- A release, or a hold of another frequency. -/
def Ends (frequency : CpuFrequencyMHz) : TimedSentinelEvent → Prop
  | .HoldMinimumFrequency frequencyToHold _ _
  | .HoldMinimumFrequencyForTime frequencyToHold _ _ _ => frequencyToHold ≠ frequency
  | .ReleaseMinimumFrequency _ => True
  | .elapse _ | .handle _ => False

/-- In any state of the run, from a hold for a time on, its frequency is requested until this
time is over, unless a call ends it. -/
def Lasts (name : Name) (events : List TimedSentinelEvent) : Prop :=
  ∀ before frequency timeout processing wait after rest,
    events = before ++
      .HoldMinimumFrequencyForTime frequency timeout processing wait :: (after ++ rest) →
    (∀ e ∈ after, ¬ Ends frequency e) →
      let called := before.foldl step (create name)
      let s := after.foldl step
        (called.step (.HoldMinimumFrequencyForTime frequency timeout processing wait))
      s.now < called.now + timeout → requested s.sent = frequency

/-- A hold for a time of a frequency that is held, and is not the lowest, finds the timer
stopped, or started for at least as long. A timer message that can release the frequency is
of the start in force. -/
def OwnTimer (s : TimedCpuSentinel) : TimedSentinelEvent → Prop
  | .HoldMinimumFrequencyForTime frequencyToHold timeout _ _ =>
      s.currentFrequencyToHold = frequencyToHold → frequencyToHold ≠ .Level_0 → 0 < timeout →
        s.timerHandle.NotBefore (s.now + timeout)
  | .handle _ =>
      s.currentFrequencyToHold ≠ .Level_0 → s.timerHandle.timer.active →
        ∀ start ∈ s.timerHandle.mailbox.head?, s.timerHandle.inForce = some start
  | .HoldMinimumFrequency .. | .ReleaseMinimumFrequency _ | .elapse _ => True

/-- The frequency is held, and the timer does not release it before the deadline. -/
structure Keeps (frequency : CpuFrequencyMHz) (deadline : Nat) (s : TimedCpuSentinel) :
    Prop where
  held : s.currentFrequencyToHold = frequency
  timer : frequency ≠ .Level_0 → s.timerHandle.NotBefore deadline

/-! ## The calls -/

theorem hold_same (h : s.currentFrequencyToHold = frequency) :
    s.holdMinimumFrequency frequency processing wait = { s with holdTicks := some s.now } :=
  if_neg (not_not.2 h)

theorem hold_other (h : s.currentFrequencyToHold ≠ frequency) :
    s.holdMinimumFrequency frequency processing wait
      = { s with
          holdTicks := some s.now
          sent := s.sent ++ [.HoldCpuFrequencyMessage s.name frequency]
          currentFrequencyToHold := frequency
          currentReason := "up: " ++ processing ++ " req: " ++ toString frequency.mhz
          timerHandle := (wait.map Elapse.event).foldl TimerService.step s.timerHandle } :=
  if_pos h

theorem release_same (h : s.currentFrequencyToHold = .Level_0) :
    s.releaseMinimumFrequency processing = s := if_neg (not_not.2 h)

theorem release_other (h : s.currentFrequencyToHold ≠ .Level_0) :
    s.releaseMinimumFrequency processing
      = { s with
          sent := s.sent ++ [.ReleaseCpuFrequencyMessage s.name]
          currentFrequencyToHold := .Level_0
          currentReason := "down: " ++ processing } := if_pos h

theorem release_frequency :
    (s.releaseMinimumFrequency processing).currentFrequencyToHold = .Level_0 := by
  by_cases h : s.currentFrequencyToHold = .Level_0
  · rw [release_same h, h]
  · rw [release_other h]

theorem release_timer : (s.releaseMinimumFrequency processing).timerHandle = s.timerHandle := by
  by_cases h : s.currentFrequencyToHold = .Level_0
  · rw [release_same h]
  · rw [release_other h]

theorem holdForTime_same (h : s.currentFrequencyToHold = frequency) :
    s.holdMinimumFrequencyForTime frequency timeout processing wait = s := if_neg (not_not.2 h)

theorem holdForTime_other (h : s.currentFrequencyToHold ≠ frequency) :
    s.holdMinimumFrequencyForTime frequency timeout processing wait
      = (s.holdMinimumFrequency frequency processing wait).restart timeout := if_pos h

/-- The frequency is released if a message is handled while the timer is active. -/
theorem handle_cases (h : s.timerHandle.OneShot) (processing : String) :
    (∃ start, start ∈ s.timerHandle.mailbox.head? ∧ s.timerHandle.timer.active ∧
        s.handle processing
          = { s with timerHandle := s.timerHandle.step .handle }.releaseMinimumFrequency
              processing) ∨
      (s.timerHandle.mailbox = [] ∨ s.timerHandle.timer.active = false) ∧
        s.handle processing
          = { s with timerHandle.mailbox := s.timerHandle.mailbox.tail } := by
  rw [handle]
  rcases h.handle_cases with ⟨start, mailbox, hmail, hactive, hstep⟩ | ⟨hidle, hstep⟩
  · refine Or.inl ⟨start, by simp [hmail], hactive, if_pos ?_⟩
    rw [hstep]
    simp
  · refine Or.inr ⟨hidle, ?_⟩
    rw [hstep]
    exact if_neg (Nat.lt_irrefl _)

/-! ## The invariant -/

/-- The messages are of this sentinel and ask for the frequency it notes. -/
structure Inv (name : Name) (s : TimedCpuSentinel) : Prop where
  own : s.name = name
  timer : s.timerHandle.OneShot
  requested : requested s.sent = s.currentFrequencyToHold
  named : ∀ message ∈ s.sent, message.name = name

theorem inv_create : Inv name (create name) where
  own := rfl
  timer := oneShot_create
  requested := rfl
  named := by simp [create]

theorem requested_append {sent : List SentinelMessage} {message : SentinelMessage} :
    requested (sent ++ [message]) = requested [message] := by
  rw [requested, List.foldl_append]
  rfl

theorem Inv.named_append (h : Inv name s) {message : SentinelMessage}
    (hname : message.name = s.name) :
    ∀ m ∈ s.sent ++ [message], m.name = name := by
  intro m hm
  rcases List.mem_append.1 hm with hm | hm
  · exact h.named m hm
  · rw [List.mem_singleton.1 hm, hname, h.own]

theorem Inv.hold (h : Inv name s) :
    Inv name (s.holdMinimumFrequency frequency processing wait) := by
  by_cases hsame : s.currentFrequencyToHold = frequency
  · rw [hold_same hsame]
    exact ⟨h.own, h.timer, h.requested, h.named⟩
  · rw [hold_other hsame]
    exact ⟨h.own, h.timer.elapses, requested_append, h.named_append rfl⟩

theorem Inv.release (h : Inv name s) : Inv name (s.releaseMinimumFrequency processing) := by
  by_cases hsame : s.currentFrequencyToHold = .Level_0
  · rw [release_same hsame]
    exact h
  · rw [release_other hsame]
    exact ⟨h.own, h.timer, requested_append, h.named_append rfl⟩

theorem Inv.restart (h : Inv name s) : Inv name (s.restart timeout) :=
  ⟨h.own, h.timer.restart, h.requested, h.named⟩

theorem Inv.handle (h : Inv name s) : Inv name (s.handle processing) := by
  have hnext : Inv name { s with timerHandle := s.timerHandle.step .handle } :=
    ⟨h.own, h.timer.handle, h.requested, h.named⟩
  rw [TimedCpuSentinel.handle]
  split
  case isTrue => exact hnext.release
  case isFalse => exact hnext

theorem inv_step (h : Inv name s) : Inv name (step s e) := by
  cases e with
  | HoldMinimumFrequency frequencyToHold processing wait => exact h.hold
  | ReleaseMinimumFrequency processing => exact h.release
  | HoldMinimumFrequencyForTime frequencyToHold timeout processing wait =>
      by_cases hsame : s.currentFrequencyToHold = frequencyToHold
      · rw [step, holdForTime_same hsame]
        exact h
      · rw [step, holdForTime_other hsame]
        exact h.hold.restart
  | elapse e => exact ⟨h.own, h.timer.elapse e, h.requested, h.named⟩
  | handle processing => exact h.handle

theorem inv_run (h : Inv name s) : Inv name (events.foldl step s) := by
  induction events generalizing s with
  | nil => exact h
  | cons e events ih => exact ih (inv_step h)

theorem released_of_handle (h : Inv name s) (hactive : s.timerHandle.timer.active)
    (hmail : s.timerHandle.mailbox ≠ []) :
    (s.handle processing).currentFrequencyToHold = .Level_0 := by
  rcases handle_cases h.timer processing with ⟨start, _, _, hstep⟩ | ⟨hidle, _⟩
  · rw [hstep, release_frequency]
  · rcases hidle with hempty | hstopped
    · exact absurd hempty hmail
    · rw [hstopped] at hactive
      cases hactive

/-! ## Time -/

theorem now_le_hold : s.now ≤ (s.holdMinimumFrequency frequency processing wait).now := by
  by_cases hsame : s.currentFrequencyToHold = frequency
  · rw [hold_same hsame]
    exact Nat.le_refl _
  · rw [hold_other hsame]
    exact elapses_frame.2.2.2

theorem now_restart (h : Inv name s) : (s.restart timeout).now = s.now := by
  rw [now, restart, TimerService.step, if_pos h.timer.attached]
  rfl

theorem now_handle (h : Inv name s) : (s.handle processing).now = s.now := by
  have htimer : (s.timerHandle.step .handle).now = s.now := by
    rcases h.timer.handle_cases with ⟨_, _, _, _, hstep⟩ | ⟨_, hstep⟩ <;> rw [hstep] <;> rfl
  rw [handle]
  split
  case isTrue => rw [now, release_timer, htimer]
  case isFalse => exact htimer

theorem now_le_step (h : Inv name s) : s.now ≤ (step s e).now := by
  cases e with
  | HoldMinimumFrequency frequencyToHold processing wait => exact now_le_hold
  | ReleaseMinimumFrequency processing =>
      have htimer := @release_timer s processing
      exact Nat.le_of_eq (congrArg TimerService.now htimer).symm
  | HoldMinimumFrequencyForTime frequencyToHold timeout processing wait =>
      by_cases hsame : s.currentFrequencyToHold = frequencyToHold
      · exact Nat.le_of_eq (congrArg now (holdForTime_same hsame)).symm
      · rw [step, holdForTime_other hsame, now_restart h.hold]
        exact now_le_hold
  | elapse e => exact (elapse_frame e).2.2.2
  | handle processing => exact Nat.le_of_eq (now_handle h).symm

theorem now_le_run (h : Inv name s) : s.now ≤ (events.foldl step s).now := by
  induction events generalizing s with
  | nil => exact Nat.le_refl _
  | cons e events ih => exact Nat.le_trans (now_le_step h) (ih (inv_step h))

/-! ## Runs -/

theorem keeps_call (h : Inv name s)
    (hrule : OwnTimer s (.HoldMinimumFrequencyForTime frequency timeout processing wait))
    (hpositive : 0 < timeout) :
    Keeps frequency (s.now + timeout)
      (step s (.HoldMinimumFrequencyForTime frequency timeout processing wait)) := by
  by_cases hsame : s.currentFrequencyToHold = frequency
  · rw [step, holdForTime_same hsame]
    exact ⟨hsame, fun hlevel => hrule hsame hlevel hpositive⟩
  · rw [step, holdForTime_other hsame]
    have hhold := @now_le_hold s frequency processing wait
    refine ⟨?_, fun _ hactive last hlast began hbegan => ?_⟩
    · rw [hold_other hsame]
      rfl
    · have := notBefore_restart h.hold.timer hactive last hlast began hbegan
      exact Nat.le_trans (Nat.add_le_add_right hhold timeout) this

theorem keeps_handle (h : Inv name s) (hkeeps : Keeps frequency deadline s)
    (hrule : OwnTimer s (.handle processing)) (hnow : s.now < deadline) :
    Keeps frequency deadline (s.handle processing) := by
  rcases handle_cases h.timer processing with ⟨start, hstart, hactive, hstep⟩ | ⟨_, hstep⟩
  · by_cases hlevel : frequency = .Level_0
    · have hlowest : s.currentFrequencyToHold = .Level_0 := hkeeps.held.trans hlevel
      rw [hstep]
      rw [@release_same { s with timerHandle := s.timerHandle.step .handle } _ hlowest]
      exact ⟨hkeeps.held, fun hother => absurd hlevel hother⟩
    · -- the message is of the start in force, which is over
      have hlast := hrule (fun heq => hlevel (hkeeps.held.symm.trans heq)) hactive start hstart
      obtain ⟨began, hbegan, hdue⟩ := h.timer.queued start (List.mem_of_mem_head? hstart)
      have hlater := hkeeps.timer hlevel hactive start hlast began hbegan
      rw [now] at hnow
      omega
  · rw [hstep]
    exact ⟨hkeeps.held, fun hlevel => (hkeeps.timer hlevel).congr rfl rfl rfl⟩

theorem keeps_step (h : Inv name s) (hkeeps : Keeps frequency deadline s)
    (hrule : OwnTimer s e) (hends : ¬ Ends frequency e) (hnow : s.now < deadline) :
    Keeps frequency deadline (step s e) := by
  cases e with
  | HoldMinimumFrequency frequencyToHold processing wait =>
      obtain rfl : frequencyToHold = frequency := not_not.1 hends
      rw [step, hold_same hkeeps.held]
      exact ⟨hkeeps.held, hkeeps.timer⟩
  | ReleaseMinimumFrequency processing => exact absurd trivial hends
  | HoldMinimumFrequencyForTime frequencyToHold timeout processing wait =>
      obtain rfl : frequencyToHold = frequency := not_not.1 hends
      rw [step, holdForTime_same hkeeps.held]
      exact hkeeps
  | elapse e =>
      obtain ⟨htimer, hinForce, hstarts, _⟩ := @elapse_frame s.timerHandle e
      exact ⟨hkeeps.held, fun hlevel => (hkeeps.timer hlevel).congr htimer hinForce hstarts⟩
  | handle processing => exact keeps_handle h hkeeps hrule hnow

theorem keeps_run (h : Inv name s) (hkeeps : Keeps frequency deadline s)
    (hrule : EveryStep OwnTimer step s events) (hends : ∀ e ∈ events, ¬ Ends frequency e)
    (hnow : (events.foldl step s).now < deadline) :
    Keeps frequency deadline (events.foldl step s) := by
  induction events generalizing s with
  | nil => exact hkeeps
  | cons e events ih =>
      have hnext : (step s e).now ≤ _ := @now_le_run _ events _ (inv_step h)
      have hbefore : s.now < deadline :=
        Nat.lt_of_le_of_lt (Nat.le_trans (now_le_step h) hnext) hnow
      refine ih (inv_step h) ?_ hrule.2 (fun e' he' => hends e' (List.mem_cons_of_mem _ he')) hnow
      exact keeps_step h hkeeps hrule.1 (hends e List.mem_cons_self) hbefore

/-- In a run in which each hold for a time of a frequency that is held finds the timer stopped
or started for at least as long, and no message of an earlier start releases the frequency,
every hold for a time lasts until its time is over. -/
theorem timed_hold_lasts (hrule : EveryStep OwnTimer step (create name) events) :
    Lasts name events := by
  intro before frequency timeout processing wait after rest hevents hends called s hnow
  rw [hevents, everyStep_append] at hrule
  obtain ⟨hcall, hafter⟩ := hrule.2
  have hcalled : Inv name called := inv_run inv_create
  have hnext := inv_step (e := .HoldMinimumFrequencyForTime frequency timeout processing wait)
    hcalled
  have hle : called.now ≤ s.now := Nat.le_trans (now_le_step hcalled) (now_le_run hnext)
  have hkeeps := keeps_call hcalled hcall (by omega)
  have hend := keeps_run hnext hkeeps (everyStep_append.1 hafter).1 hends hnow
  exact (inv_run hnext).requested.trans hend.held

/-- The second of two holds finds the timer of the first stopped, as its time is over. -/
theorem held_again : Lasts [67, 80, 85]
    [.HoldMinimumFrequencyForTime .Level_5 1000 "" [], .elapse (.tick 1000),
      .elapse (.expire 0), .handle "", .HoldMinimumFrequencyForTime .Level_5 5000 "" [],
      .elapse (.tick 4999)] :=
  timed_hold_lasts ⟨fun h => absurd h (by decide), trivial, trivial,
    fun _ _ start hstart => hstart, fun h => absurd h (by decide), trivial, trivial⟩

/-- Five seconds more do not count, as the first second is over. -/
theorem released_after_a_second : ¬ Lasts [67, 80, 85]
    [.HoldMinimumFrequencyForTime .Level_5 1000 "" [],
      .HoldMinimumFrequencyForTime .Level_5 5000 "" [], .elapse (.tick 1000),
      .elapse (.expire 0), .handle ""] := by
  intro h
  have hlasts := h [.HoldMinimumFrequencyForTime .Level_5 1000 "" []] .Level_5 5000 "" []
    [.elapse (.tick 1000), .elapse (.expire 0), .handle ""] [] rfl (by simp [Ends]) (by decide)
  exact absurd hlasts (by decide)

/-- A hold that finds the timer started for less is released by it before its time is over,
though no call ends it. -/
theorem released_early {last : Nat} {began : Nat × Nat} (h : Inv name s)
    (hsame : s.currentFrequencyToHold = frequency) (hactive : s.timerHandle.timer.active)
    (hlast : s.timerHandle.inForce = some last)
    (hbegan : s.timerHandle.starts[last]? = some began)
    (hpositive : 0 < timeout) (hshort : began.1 + began.2 < s.now + timeout) :
    let call := .HoldMinimumFrequencyForTime frequency timeout processing wait
    let after := [.elapse (.tick (began.1 + began.2 - s.now)), .elapse (.expire last), .handle ""]
    (∀ e ∈ after, ¬ Ends frequency e) ∧
      (after.foldl step (step s call)).now < s.now + timeout ∧
      (after.foldl step (step s call)).currentFrequencyToHold = .Level_0 := by
  intro call after
  have hcall : step s call = s := holdForTime_same hsame
  have hinv := @inv_run s [.elapse (.tick (began.1 + began.2 - s.now)), .elapse (.expire last)] _ h
  have hdue := h.timer.falls_due hactive hlast hbegan
  set due := [.elapse (.tick (began.1 + began.2 - s.now)), .elapse (.expire last)].foldl step s
  have htimer : due.timerHandle = _ := hdue
  have hend : after.foldl step (step s call) = due.handle "" := by rw [hcall]; rfl
  rw [hend]
  refine ⟨by simp [after, Ends], ?_, ?_⟩
  · rw [now_handle hinv, now, htimer]
    dsimp only
    rw [now] at hshort ⊢
    omega
  · refine released_of_handle hinv ?_ ?_
    · rw [htimer]
      exact hactive
    · rw [htimer]
      simp

/-! ## What the governor makes of the messages -/

section Governed

variable {sentinel : GovernorSentinel} {sentinels : List GovernorSentinel}
  {first second : CpuFrequencyMHz} {sent : List SentinelMessage}

theorem setCpuFrequencyRequest_named (h : isNamed name sentinel) :
    setCpuFrequencyRequest name first (sentinel :: sentinels)
      = { sentinel with requestedFrequency := first } :: sentinels := by
  rw [setCpuFrequencyRequest, changeNamed, if_pos h]

theorem setCpuFrequencyRequest_other (h : ¬ isNamed name sentinel) :
    setCpuFrequencyRequest name first (sentinel :: sentinels)
      = sentinel :: setCpuFrequencyRequest name first sentinels := by
  rw [setCpuFrequencyRequest, changeNamed, if_neg h]

theorem setCpuFrequencyRequest_twice :
    setCpuFrequencyRequest name second (setCpuFrequencyRequest name first sentinels)
      = setCpuFrequencyRequest name second sentinels := by
  induction sentinels with
  | nil => rfl
  | cons sentinel sentinels ih =>
      by_cases hnamed : isNamed name sentinel
      · rw [setCpuFrequencyRequest_named hnamed, setCpuFrequencyRequest_named hnamed]
        exact setCpuFrequencyRequest_named hnamed
      · rw [setCpuFrequencyRequest_other hnamed, setCpuFrequencyRequest_other hnamed,
          setCpuFrequencyRequest_other hnamed, ih]

/-- Each message of a sentinel sets what it asks for. -/
theorem step_event {message : SentinelMessage} (h : message.name = name) :
    CpuGovernor.step sentinels message.event
      = setCpuFrequencyRequest name (requested [message]) sentinels := by
  cases message with
  | HoldCpuFrequencyMessage _ request => exact h ▸ rfl
  | ReleaseCpuFrequencyMessage _ => exact h ▸ rfl

/-- A sentinel that the governor has at the lowest frequency is had, once it has handled the
messages, at the frequency they ask for. -/
theorem foldl_events (hlowest : setCpuFrequencyRequest name .Level_0 sentinels = sentinels)
    (h : ∀ message ∈ sent, message.name = name) :
    (sent.map SentinelMessage.event).foldl CpuGovernor.step sentinels
      = setCpuFrequencyRequest name (requested sent) sentinels := by
  induction sent using List.reverseRecOn with
  | nil => exact hlowest.symm
  | append_singleton sent message ih =>
      rw [List.map_append, List.foldl_append, requested_append,
        ih fun m hm => h m (List.mem_append_left _ hm)]
      rw [List.map_singleton, List.foldl_cons, List.foldl_nil, step_event (h message (by simp)),
        setCpuFrequencyRequest_twice]

/-- In every state of a run the messages, once handled, leave the governor with the frequency
the sentinel notes. -/
theorem governed (hlowest : setCpuFrequencyRequest name .Level_0 sentinels = sentinels) :
    let s := events.foldl step (create name)
    (s.sent.map SentinelMessage.event).foldl CpuGovernor.step sentinels
      = setCpuFrequencyRequest name s.currentFrequencyToHold sentinels := by
  intro s
  have hinv : Inv name s := inv_run inv_create
  rw [foldl_events hlowest hinv.named, hinv.requested]

end Governed

end TimedCpuSentinel

end MuditaOS.Sys
