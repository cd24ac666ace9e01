import MuditaOS.Lib.Run
import MuditaOS.Sys.SystemTimer

/-!
# The ticks of a timer

A timer message says which timer it is for and not which start. What `onTimeout` checks is
that the timer is active, so a message that was in the mailbox when the timer was stopped
counts again once it is started. If at each start no message is left, and the RTOS timer
then expires for that start only, what is in the mailbox of an active timer is of the start
in force, and a callback is what it should be. A message that is not is taken for one at
the next chance.
-/

namespace MuditaOS.Sys.TimerService

open MuditaOS.Lib MuditaOS.Sys.timer

variable {s : TimerService} {e : TimerEvent} {start value : Nat} {callback : Bool}
  {interval : Nat} {type : Kind} {events : List TimerEvent}

/-- Each callback has been for an expiration of the start in force, no earlier than its
interval after it, and a single-shot timer has had one for each start at most. -/
structure NoStaleTick (s : TimerService) : Prop where
  current : ∀ run ∈ s.ran, run.inForce = some run.start
  due : ∀ run ∈ s.ran, ∀ last ∈ run.inForce, ∀ began ∈ s.starts[last]?,
    began.1 + began.2 ≤ run.time
  once : s.timer.type = .SingleShot → (s.ran.map Callback.start).Nodup

/-- A timer is started only with no message of it in the mailbox, and while it is active it
expires for its last start only. -/
def OwnExpirations (s : TimerService) (e : TimerEvent) : Prop :=
  s.timer.callback → s.attached →
    match e with
    | .start | .restart _ => s.mailbox = []
    | .expire start => s.timer.active → s.MayExpire start → start + 1 = s.starts.length
    | .tick _ | .stop | .destroy | .handle => True

/-- What is in the mailbox has fallen due, and if the timer is active it is of the start in
force, for which a single-shot timer has not yet called back. -/
structure Inv (s : TimerService) : Prop where
  ticks : NoStaleTick s
  ran : ∀ run ∈ s.ran, run.start < s.starts.length
  queued : ∀ start ∈ s.mailbox, start ≤ s.expired ∧
    ∃ began ∈ s.starts[start]?, began.1 + began.2 ≤ s.now
  inForce : s.attached → s.timer.active →
    ∃ last, s.inForce = some last ∧ last + 1 = s.starts.length ∧
      (s.timer.type = .SingleShot → ∀ run ∈ s.ran, run.start < last) ∧
      (s.timer.callback → ∀ start ∈ s.mailbox, start = last)

/-! ## The operations -/

theorem NoStaleTick.congr {s' : TimerService} (h : NoStaleTick s) (hran : s'.ran = s.ran)
    (hstarts : s'.starts = s.starts) (htype : s'.timer.type = s.timer.type) :
    NoStaleTick s' where
  current := by
    rw [hran]
    exact h.current
  due := by
    rw [hran, hstarts]
    exact h.due
  once := by
    rw [hran, htype]
    exact h.once

theorem inv_create : Inv (create callback interval type) where
  ticks := ⟨by simp [create], by simp [create], by simp [create]⟩
  ran := by simp [create]
  queued := by simp [create]
  inForce := by simp [create]

theorem Inv.tick (h : Inv s) (ticks : Nat) : Inv { s with now := s.now + ticks } where
  ticks := h.ticks.congr rfl rfl rfl
  ran := h.ran
  queued := by
    intro start hstart
    obtain ⟨hle, began, hbegan, hdue⟩ := h.queued start hstart
    exact ⟨hle, began, hbegan, Nat.le_add_right_of_le hdue⟩
  inForce := h.inForce

theorem Inv.stop (h : Inv s) : Inv s.stop where
  ticks := h.ticks.congr rfl rfl rfl
  ran := h.ran
  queued := h.queued
  inForce := by simp [TimerService.stop]

theorem Inv.destroy (h : Inv s) : Inv { s with attached := false, inForce := none } where
  ticks := h.ticks.congr rfl rfl rfl
  ran := h.ran
  queued := h.queued
  inForce := by simp

theorem Inv.setInterval (h : Inv s) : Inv (s.setInterval value) :=
  ⟨h.ticks.congr rfl rfl rfl, h.ran, h.queued, h.inForce⟩

/-- A start that has taken place is not changed by another. -/
theorem getElem?_starts {began : Nat × Nat} (hlt : start < s.starts.length) :
    (s.starts ++ [began])[start]? = s.starts[start]? := List.getElem?_append_left hlt

theorem Inv.startTimer (h : Inv s) (hempty : s.timer.callback → s.mailbox = []) :
    Inv s.startTimer where
  ticks :=
    { current := h.ticks.current
      due := by
        intro run hrun last hlast began hbegan
        have heq := h.ticks.current run hrun
        obtain rfl : run.start = last := Option.some.inj (heq.symm.trans hlast)
        have hsame := @getElem?_starts _ _ (s.now, s.timer.interval) (h.ran run hrun)
        exact h.ticks.due run hrun run.start hlast began (hsame ▸ hbegan)
      once := h.ticks.once }
  ran := by
    intro run hrun
    have := h.ran run hrun
    simp only [TimerService.startTimer, List.length_append, List.length_singleton]
    omega
  queued := by
    intro start hstart
    obtain ⟨hle, began, hbegan, hdue⟩ := h.queued start hstart
    have hlt := (List.getElem?_eq_some_iff.1 hbegan).1
    exact ⟨hle, began, (getElem?_starts hlt).trans hbegan, hdue⟩
  inForce := by
    intro _ _
    refine ⟨s.starts.length, rfl, by simp [TimerService.startTimer], fun _ => h.ran, ?_⟩
    intro hcallback start hstart
    have hnil : s.startTimer.mailbox = [] := hempty hcallback
    rw [hnil] at hstart
    cases hstart

theorem Inv.expire (h : Inv s) (hmay : s.MayExpire start)
    (hown : s.attached → s.timer.callback → s.timer.active → start + 1 = s.starts.length) :
    Inv { s with expired := start, mailbox := s.mailbox ++ [start] } where
  ticks := h.ticks.congr rfl rfl rfl
  ran := h.ran
  queued := by
    intro k hk
    rcases List.mem_append.1 hk with hk | hk
    · obtain ⟨hle, hrest⟩ := h.queued k hk
      exact ⟨Nat.le_trans hle hmay.1, hrest⟩
    · rw [List.mem_singleton.1 hk]
      exact ⟨Nat.le_refl _, hmay.2⟩
  inForce := by
    intro hattached hactive
    obtain ⟨last, hlast, hlen, honce, hmail⟩ := h.inForce hattached hactive
    refine ⟨last, hlast, hlen, honce, fun hcallback k hk => ?_⟩
    rcases List.mem_append.1 hk with hk | hk
    · exact hmail hcallback k hk
    · have := hown hattached hcallback hactive
      have := List.mem_singleton.1 hk
      omega

/-- The message is gone from the mailbox, and has not yet been looked at. -/
theorem Inv.pop {mailbox : List Nat} (h : Inv s) (hmail : s.mailbox = start :: mailbox) :
    Inv { s with mailbox } where
  ticks := h.ticks.congr rfl rfl rfl
  ran := h.ran
  queued := fun k hk => h.queued k (by rw [hmail]; exact List.mem_cons_of_mem _ hk)
  inForce := by
    intro hattached hactive
    obtain ⟨last, hlast, hlen, honce, hall⟩ := h.inForce hattached hactive
    exact ⟨last, hlast, hlen, honce, fun hcallback k hk =>
      hall hcallback k (by rw [hmail]; exact List.mem_cons_of_mem _ hk)⟩

/-- The callback has run, for the start in force. -/
theorem Inv.call (h : Inv s) {last : Nat}
    (hbefore : s.timer.type = .SingleShot → ∀ run ∈ s.ran, run.start < last)
    (hdue : ∃ began ∈ s.starts[last]?, began.1 + began.2 ≤ s.now)
    (hstop : s.timer.type = .SingleShot → s.timer.active = false) :
    Inv { s with ran := s.ran ++ [⟨s.now, last, some last⟩] } where
  ticks :=
    { current := by
        intro run hrun
        rcases List.mem_append.1 hrun with hrun | hrun
        · exact h.ticks.current run hrun
        · rw [List.mem_singleton.1 hrun]
      due := by
        intro run hrun k hk began hbegan
        rcases List.mem_append.1 hrun with hrun | hrun
        · exact h.ticks.due run hrun k hk began hbegan
        · obtain ⟨began', hbegan', hdue⟩ := hdue
          rw [List.mem_singleton.1 hrun] at hk ⊢
          obtain rfl : last = k := Option.some.inj hk
          obtain rfl : began' = began := Option.some.inj (hbegan'.symm.trans hbegan)
          exact hdue
      once := by
        intro htype
        rw [List.map_append, List.nodup_append]
        refine ⟨h.ticks.once htype, by simp, ?_⟩
        intro a ha b hb
        obtain ⟨run, hrun, rfl⟩ := List.mem_map.1 ha
        have := hbefore htype run hrun
        have : b = last := by simpa using hb
        omega }
  ran := by
    intro run hrun
    rcases List.mem_append.1 hrun with hrun | hrun
    · exact h.ran run hrun
    · obtain ⟨began, hbegan, _⟩ := hdue
      rw [List.mem_singleton.1 hrun]
      exact (List.getElem?_eq_some_iff.1 hbegan).1
  queued := h.queued
  inForce := by
    intro hattached hactive
    obtain ⟨k, hk, hlen, _, hmail⟩ := h.inForce hattached hactive
    refine ⟨k, hk, hlen, fun htype => ?_, hmail⟩
    rw [hstop htype] at hactive
    cases hactive

/-- A message that is of the start in force, if the timer is active, is handled. -/
theorem Inv.onTimeout (h : Inv s) (hattached : s.attached)
    (hdue : ∃ began ∈ s.starts[start]?, began.1 + began.2 ≤ s.now)
    (hown : s.timer.callback → s.timer.active → start + 1 = s.starts.length) :
    Inv (s.onTimeout start) := by
  rw [TimerService.onTimeout]
  split
  case isTrue => exact h
  case isFalse hcallback =>
      split
      case isTrue => exact h
      case isFalse hactive =>
          rw [not_not] at hcallback hactive
          obtain ⟨last, hlast, hlen, honce, _⟩ := h.inForce hattached hactive
          have := hown hcallback hactive
          obtain rfl : start = last := by omega
          rw [hlast]
          dsimp only
          split
          case isTrue htype => exact h.stop.call honce hdue fun _ => rfl
          case isFalse htype => exact h.call honce hdue fun hsingle => absurd hsingle htype

theorem Inv.timerHandle (h : Inv s) : Inv s.timerHandle := by
  rw [TimerService.timerHandle]
  split
  case h_1 => exact h
  case h_2 start mailbox hmail =>
      dsimp only
      split
      case isTrue hattached =>
          refine (h.pop hmail).onTimeout hattached (h.queued start (by simp [hmail])).2 ?_
          intro hcallback hactive
          obtain ⟨last, _, hlen, _, hall⟩ := h.inForce hattached hactive
          have := hall hcallback start (by simp [hmail])
          dsimp only
          omega
      case isFalse => exact h.pop hmail

/-! ## Runs -/

theorem inv_step (h : Inv s) (hrule : OwnExpirations s e) : Inv (step s e) := by
  cases e with
  | tick ticks => exact h.tick ticks
  | handle => exact h.timerHandle
  | destroy => exact h.destroy
  | start =>
      simp only [step]
      split
      case isTrue hattached => exact h.startTimer fun hcallback => hrule hcallback hattached
      case isFalse => exact h
  | restart newInterval =>
      simp only [step]
      split
      case isTrue hattached =>
          exact h.setInterval.startTimer fun hcallback => hrule hcallback hattached
      case isFalse => exact h
  | stop =>
      simp only [step]
      split
      case isTrue => exact h.stop
      case isFalse => exact h
  | expire start =>
      simp only [step]
      split
      case isTrue hmay =>
          exact h.expire hmay.2 fun hattached hcallback hactive =>
            hrule hcallback hattached hactive hmay.2
      case isFalse => exact h

/-- What is in front of the mailbox of an active timer is taken for an expiration of the
start in force. -/
theorem front_of_noStaleTick {mailbox : List Nat} {last : Nat} (hattached : s.attached)
    (hcallback : s.timer.callback) (hactive : s.timer.active) (hlast : s.inForce = some last)
    (hmail : s.mailbox = start :: mailbox) (hfresh : NoStaleTick (step s .handle)) :
    start = last := by
  have hran : (step s .handle).ran = s.ran ++ [⟨s.now, start, s.inForce⟩] := by
    rw [step, TimerService.timerHandle, hmail]
    simp only [hattached, if_true, TimerService.onTimeout, hcallback, hactive, not_true,
      if_false]
    split <;> rfl
  have hcurrent := hfresh.current ⟨s.now, start, s.inForce⟩ (by rw [hran]; simp)
  rw [hlast] at hcurrent
  exact (Option.some.inj hcurrent).symm

theorem ownExpirations_of_ticks (h : Inv s) (hfresh : NoStaleTick (step (step s e) .handle)) :
    OwnExpirations s e := by
  intro hcallback hattached
  -- a message that is left at a start is of an earlier start
  have hstart : ∀ s' : TimerService, s'.mailbox = s.mailbox → s'.attached →
      s'.timer.callback → s'.timer.active → s'.inForce = some s.starts.length →
      NoStaleTick (step s' .handle) → s.mailbox = [] := by
    intro s' hmail hattached' hcallback' hactive' hlast hnext
    cases hcases : s.mailbox with
    | nil => rfl
    | cons start mailbox =>
        have heq := front_of_noStaleTick hattached' hcallback' hactive' hlast
          (hmail.trans hcases) hnext
        obtain ⟨began, hbegan, _⟩ := (h.queued start (by simp [hcases])).2
        have := (List.getElem?_eq_some_iff.1 hbegan).1
        omega
  cases e with
  | start =>
      have hstep : step s .start = s.startTimer := if_pos hattached
      rw [hstep] at hfresh
      exact hstart s.startTimer rfl hattached hcallback rfl rfl hfresh
  | restart newInterval =>
      have hstep : step s (.restart newInterval) = (s.setInterval newInterval).startTimer :=
        if_pos hattached
      rw [hstep] at hfresh
      exact hstart (s.setInterval newInterval).startTimer rfl hattached hcallback rfl rfl hfresh
  | expire start =>
      intro hactive hmay
      have hstep : step s (.expire start)
          = { s with expired := start, mailbox := s.mailbox ++ [start] } :=
        if_pos ⟨hattached, hmay⟩
      rw [hstep] at hfresh
      obtain ⟨last, hlast, hlen, _, hall⟩ := h.inForce hattached hactive
      obtain ⟨hle, began, hbegan, _⟩ := hmay
      have hlt := (List.getElem?_eq_some_iff.1 hbegan).1
      cases hmail : s.mailbox with
      | nil =>
          have := front_of_noStaleTick
            (s := { s with expired := start, mailbox := s.mailbox ++ [start] }) hattached hcallback
            hactive hlast (congrArg (· ++ [start]) hmail) hfresh
          omega
      | cons k mailbox =>
          -- the RTOS timer has already expired for the start in force
          have := hall hcallback k (by simp [hmail])
          have := (h.queued k (by simp [hmail])).1
          omega
  | tick _ => trivial
  | stop => trivial
  | destroy => trivial
  | handle => trivial

/-- In a run there is no stale tick, and none when the next message is handled either, in any
state exactly when at each start no message of the timer is left in the mailbox, and an active
timer expires for its last start only. -/
theorem noStaleTick_iff :
    EveryStep (fun s e => NoStaleTick (step s e) ∧ NoStaleTick (step (step s e) .handle)) step
        (create callback interval type) events ↔
      EveryStep OwnExpirations step (create callback interval type) events :=
  @everyStep_congr TimerService TimerEvent Inv _ OwnExpirations step
    (fun _ _ h => ⟨fun hfresh => ownExpirations_of_ticks h hfresh.2, fun hrule =>
      ⟨(inv_step h hrule).ticks, (inv_step h hrule).timerHandle.ticks⟩⟩)
    (fun _ _ h hrule => inv_step h hrule) _ _ inv_create

/-- The message is in the mailbox when the timer is restarted, and is handled right after. -/
theorem stale_tick :
    ¬ EveryStep (fun s e => NoStaleTick (step s e)) step (create true 10 .SingleShot)
      [.start, .tick 10, .expire 0, .restart 20, .handle] := by
  intro h
  have hcurrent := h.2.2.2.2.1.current ⟨10, 0, some 1⟩ (by decide)
  cases hcurrent

end MuditaOS.Sys.TimerService
