import MuditaOS.Cellular.CsqHandler
import MuditaOS.Lib.Run

/-!
# The mode follows the phone

Whatever looks at the conditions leaves the mode that is wanted or a retry. A retry is for the
mode that was wanted when it was sent, and it is carried out whatever is wanted by then; only
the last one that is pending decides what is left.
-/

namespace MuditaOS.Cellular.CsqService

open Lib

variable {s : CsqService} {modem : Modem} {mode : CSQMode} {counter : UInt32}
  {battery : Battery.State} {call : CsqCall} {calls : List CsqCall}

/-! ## A switch -/

/-- A switch that fails leaves a retry, one that succeeds is for the mode it names. -/
theorem settled_switchTo_iff :
    (s.switchTo modem mode).Settled ↔
      (s.retries = [] → s.checked → modem.switchesTo mode →
        (mode = .PermanentReporting ↔ s.wantsPermanent)) := by
  cases hsucceeds : modem.switchesTo mode with
  | true =>
      cases mode <;>
        simp only [Modem.switchesTo, reduceCtorEq, if_true, if_false] at hsucceeds <;>
        simp [switchTo, switchToPermanentReportMode, switchToHybridReportMode,
          switchToReportMode, switchToHybridPollMode, hsucceeds, Settled, wantsPermanent]
  | false =>
      refine iff_of_true (fun hnone => absurd hnone ?_) (fun _ _ h => absurd h Bool.false_ne_true)
      cases mode <;>
        simp only [Modem.switchesTo, reduceCtorEq, if_true, if_false] at hsucceeds <;>
        simp [switchTo, switchToPermanentReportMode, switchToHybridReportMode,
          switchToReportMode, switchToHybridPollMode, hsucceeds, onRetrySwitchMode]

theorem commanded_switchTo (h : s.Commanded) : (s.switchTo modem mode).Commanded := by
  cases mode <;>
    simp only [switchTo, switchToPermanentReportMode, switchToHybridReportMode,
      switchToReportMode, switchToHybridPollMode]
  all_goals
    split
    case isTrue => simp [Commanded]
    case isFalse => exact h

theorem follows_switchTo (h : s.Commanded)
    (hwants : mode = .PermanentReporting ↔ s.wantsPermanent) :
    (s.switchTo modem mode).Follows :=
  ⟨settled_switchTo_iff.2 fun _ _ _ => hwants, commanded_switchTo h⟩

/-! ## Messages -/

/-- After a look at the conditions the mode is the one that is wanted, or a retry is pending. -/
theorem follows_checkConditionToChangeMode (h : s.Commanded) :
    (s.checkConditionToChangeMode modem).Follows := by
  have hcommanded : { s with checked := true }.Commanded := h
  have hidle : (s.csqHandler.isPhoneLocked && !s.csqHandler.isBluetoothCarKitConnected &&
      decide (s.battery = .Discharging)) = !s.wantsPermanent := by
    simp [wantsPermanent, bne, BEq.beq]
  rw [checkConditionToChangeMode, hidle]
  cases hwants : s.wantsPermanent with
  | true =>
      split
      case isTrue =>
          exact @follows_switchTo { s with checked := true } modem .PermanentReporting hcommanded
            (iff_of_true rfl hwants)
      case isFalse hmode =>
          exact ⟨fun _ _ => iff_of_true (not_not.1 hmode) hwants, hcommanded⟩
  | false =>
      have hnot : ¬ s.wantsPermanent = true := by simp [hwants]
      split
      case isTrue hmode => exact ⟨fun _ _ => iff_of_false hmode hnot, hcommanded⟩
      case isFalse =>
          exact @follows_switchTo { s with checked := true } modem .HybridReporting hcommanded
            (iff_of_false (by simp) hnot)

/-- A switch from one hybrid mode to the other. -/
theorem follows_switchTo_hybrid (h : s.Follows)
    (hbefore : s.csqHandler.currentMode ≠ .PermanentReporting)
    (hmode : mode ≠ .PermanentReporting) : (s.switchTo modem mode).Follows := by
  refine ⟨settled_switchTo_iff.2 fun hnone hchecked _ => ?_, commanded_switchTo h.2⟩
  rw [← h.1 hnone hchecked]
  exact iff_of_false hmode hbefore

theorem follows_handleURCCounterMessage (h : s.Follows) :
    (s.handleURCCounterMessage modem counter).Follows := by
  rw [handleURCCounterMessage]
  split
  case isTrue hmany =>
      have hreporting : s.csqHandler.currentMode = .HybridReporting := by
        simpa using (Bool.and_eq_true_iff.1 hmany).2
      refine @follows_switchTo_hybrid { s with csqHandler := _ } modem .HybridPolling h ?_ (by simp)
      simp [hreporting]
  case isFalse => exact h

theorem follows_handleTimerTick (h : s.Follows) : (s.handleTimerTick modem).Follows := by
  rw [handleTimerTick]
  split
  case isTrue hpolling =>
      split
      case isTrue =>
          refine @follows_switchTo_hybrid s modem .HybridReporting h ?_ (by simp)
          simp [hpolling]
      case isFalse => exact h
  case isFalse => exact h

/-- Only the last retry that is pending can leave a mode that is not wanted. -/
theorem follows_handleRetry_iff (h : s.Follows) :
    (s.handleRetry modem).Follows ↔
      ∀ mode, s.retries = [mode] → s.checked → modem.switchesTo mode →
        (mode = .PermanentReporting ↔ s.wantsPermanent) := by
  rw [handleRetry]
  split
  case h_1 hnone => exact iff_of_true h fun mode hlast => by simp [hnone] at hlast
  case h_2 newMode retries hpending =>
      have hcommanded : { s with retries := retries }.Commanded := h.2
      rw [Follows, and_iff_left (commanded_switchTo hcommanded), settled_switchTo_iff, hpending]
      constructor
      · intro hfresh mode hlast
        obtain ⟨rfl, rfl⟩ := List.cons.inj hlast
        exact hfresh rfl
      · intro hfresh hnone
        simp only [] at hnone
        subst hnone
        exact hfresh newMode rfl

/-! ## Every run -/

theorem follows_step_iff (h : s.Follows) : (s.step call).Follows ↔ s.FreshRetry call := by
  rw [step, FreshRetry]
  cases call.message with
  | UnlockedPhone => exact iff_of_true (follows_checkConditionToChangeMode h.2) trivial
  | LockedPhone => exact iff_of_true (follows_checkConditionToChangeMode h.2) trivial
  | BluetoothModeChanged carKit =>
      refine iff_of_true (follows_checkConditionToChangeMode ?_) trivial
      cases carKit <;> exact h.2
  | BatteryStatusChange state => exact iff_of_true (follows_checkConditionToChangeMode h.2) trivial
  | URCCounterMessage counter => exact iff_of_true (follows_handleURCCounterMessage h) trivial
  | timerTick => exact iff_of_true (follows_handleTimerTick h) trivial
  | RetrySwitchCSQMode => exact follows_handleRetry_iff h
  | RetryGetCSQ => exact iff_of_true h trivial

theorem start_follows : (start battery).Follows :=
  ⟨fun _ hchecked => absurd hchecked Bool.false_ne_true, fun _ h => by cases h⟩

/-- In a run the mode follows the phone exactly when no retry that is the last one pending
succeeds for a mode that is no longer wanted. -/
theorem follows_iff_freshRetry :
    EveryStep (fun s call => (s.step call).Follows) step (start battery) calls ↔
      EveryStep FreshRetry step (start battery) calls :=
  @everyStep_congr _ _ Follows (fun s call => (s.step call).Follows) FreshRetry step
    (fun _ _ h => follows_step_iff h) (fun _ _ h hrule => (follows_step_iff h).2 hrule)
    calls (start battery) start_follows

def answering (enables : Bool) : Modem where
  enables := enables
  disables := true
  csq := none
  ms := 0

/-- The phone is unlocked, the command fails; it is locked again, and the retry succeeds. -/
theorem locked_in_permanent :
    ¬ EveryStep (fun s call => (s.step call).Follows) step (start .Discharging)
      [⟨.UnlockedPhone, answering false⟩,
        ⟨.LockedPhone, answering true⟩,
        ⟨.RetrySwitchCSQMode, answering true⟩] := by
  intro ⟨_, _, hfollows, _⟩
  have hwanted := hfollows.1 rfl rfl
  revert hwanted
  decide

end MuditaOS.Cellular.CsqService
