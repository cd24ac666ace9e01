import MuditaOS.Lib.Run
import MuditaOS.Sys.PowerManager

/-!
# The minimum frequency

A request that is above the frequency is met at once, whatever the profile says, and the load
moves the frequency one step at a time. But from `Level_2` down the table has only one step
left, to the minimum of the profile, and takes it past whatever is requested between the two.
That the frequency is at least the minimum of the profile is nowhere seen to: it is so as long
as it has been so, and no request or step up ends below.
-/

namespace MuditaOS.Sys

namespace CpuFrequencyMHz

variable {a b c : CpuFrequencyMHz}

theorem le_refl (a : CpuFrequencyMHz) : a ≤ a := Nat.le_refl a.mhz

theorem le_trans (h : a ≤ b) (h' : b ≤ c) : a ≤ c := Nat.le_trans (m := b.mhz) h h'

theorem le_of_lt (h : a < b) : a ≤ b := Nat.le_of_lt h

theorem not_lt : ¬ a < b ↔ b ≤ a := @Nat.not_lt a.mhz b.mhz

theorem not_le : ¬ a ≤ b ↔ b < a := @Nat.not_le a.mhz b.mhz

theorem le_level_6 (a : CpuFrequencyMHz) : a ≤ Level_6 := by cases a <;> decide

end CpuFrequencyMHz

open CpuFrequencyMHz sentinel

namespace cpu.FrequencyStepping

variable {profile : PowerProfile} {freq minFrequency : CpuFrequencyMHz}

/-- Above `Level_2` the step goes to the next level, -/
theorem le_stepDown_iff (h : .Level_2 < freq) :
    minFrequency ≤ stepDown freq profile ↔ minFrequency < freq := by
  cases freq with
  | Level_0 | Level_1 | Level_2 => exact absurd h (by decide)
  | Level_3 | Level_4 | Level_5 | Level_6 =>
      rw [stepDown]
      cases minFrequency <;> decide

/-- and from there to the minimum of the profile. -/
theorem stepDown_low (h : freq ≤ .Level_2) : stepDown freq profile = profile.minimalFrequency := by
  cases freq with
  | Level_0 | Level_1 | Level_2 => rfl
  | Level_3 | Level_4 | Level_5 | Level_6 => exact absurd h (by decide)

end cpu.FrequencyStepping

namespace PowerManager

open MuditaOS.Lib cpu cpu.FrequencyStepping

variable {s : PowerManager} {e : PowerEvent} {events : List PowerEvent} {profile : PowerProfile}
  {frequency : CpuFrequencyMHz} {cpuLoad : UInt32} {governor : View} {frequencyRequest : Bool}

/-- What is requested: by the governor, or by the log if that is more. -/
def requested (governor : View) (frequencyRequest : Bool) : CpuFrequencyMHz :=
  (minimumCpuFrequencyRequested governor
    (LogSentinel.requestedFrequency frequencyRequest)).minFrequency

/-- An update without a permanent frequency leaves the frequency at least at what the governor
and the log request, and at the minimum of the profile. -/
def Sustains (s : PowerManager) : PowerEvent → Prop
  | .update cpuLoad governor frequencyRequest =>
      s.cpuAlgorithms.frequencyHold = none →
        let after := (s.updateCpuFrequency cpuLoad governor frequencyRequest).1.frequency
        governor.minFrequency ≤ after ∧
          (LogSentinel.requestedFrequency frequencyRequest).minFrequency ≤ after ∧
          s.powerProfile.minimalFrequency ≤ after
  | _ => True

/-- A request that is met is not below the minimum of the profile; nor is `Level_4` when the
load takes the frequency there, nor a frequency that stays; and when the load takes it down,
from `Level_2` or less it is to a minimum that is not below the request, and from more it is
above the minimum. -/
def InBounds (s : PowerManager) : PowerEvent → Prop
  | .update cpuLoad governor frequencyRequest =>
      s.cpuAlgorithms.frequencyHold = none →
        let least := s.powerProfile.minimalFrequency
        let minFrequency := requested governor frequencyRequest
        let counted :=
          s.cpuAlgorithms.frequencyStepping.count s.powerProfile cpuLoad s.frequency
        if s.frequency < minFrequency then least ≤ minFrequency
        else if counted.Above s.powerProfile then s.frequency < .Level_4 → least ≤ .Level_4
        else if counted.Below s.powerProfile ∧ minFrequency < s.frequency then
          if s.frequency ≤ .Level_2 then minFrequency ≤ least else least < s.frequency
        else least ≤ s.frequency
  | _ => True

theorem le_requested {after : CpuFrequencyMHz} :
    requested governor frequencyRequest ≤ after ↔
      governor.minFrequency ≤ after ∧
        (LogSentinel.requestedFrequency frequencyRequest).minFrequency ≤ after := by
  rw [requested, minimumCpuFrequencyRequested]
  split
  case isTrue h => exact ⟨fun hle => ⟨le_trans (le_of_lt h) hle, hle⟩, fun hle => hle.2⟩
  case isFalse h => exact ⟨fun hle => ⟨hle, le_trans (not_lt.1 h) hle⟩, fun hle => hle.1⟩

/-- Without a permanent frequency a request is met, or else the load counts. -/
theorem calculate_algorithms {a : AlgorithmFactory} {data : AlgorithmData}
    (h : a.frequencyHold = none) :
    (a.calculate profile data algorithms).2.1 =
      if data.curentFrequency < data.sentinel.minFrequency then
        ⟨.UpScaled, data.sentinel.minFrequency⟩
      else
        let result := (a.frequencyStepping.calculate profile data).2
        if result.change ≠ .NoChange then result else ⟨.NoChange, .Level_6⟩ := by
  simp only [algorithms, AlgorithmFactory.calculate, AlgorithmFactory.calculateOne, h,
    Option.map_none, immediateUpscale]
  by_cases hup : data.curentFrequency < data.sentinel.minFrequency
  · simp only [if_pos hup, ne_eq, reduceCtorEq, not_false_eq_true, if_true]
  · simp only [if_neg hup, ne_eq, not_true, if_false]
    split <;> rfl

/-- A result is taken over if it is a change. -/
theorem frequency_of_result {result : AlgorithmResult}
    (h : (s.cpuAlgorithms.calculate s.powerProfile ⟨cpuLoad, s.frequency,
      minimumCpuFrequencyRequested governor (LogSentinel.requestedFrequency frequencyRequest)⟩
      algorithms).2.1 = result) :
    (s.updateCpuFrequency cpuLoad governor frequencyRequest).1.frequency =
      if result.change = .NoChange ∨ result.change = .Hold then s.frequency else result.value := by
  rw [updateCpuFrequency]
  dsimp only
  rw [h]
  split <;> rfl

/-- The frequency after an update. -/
theorem frequency_updateCpuFrequency (h : s.cpuAlgorithms.frequencyHold = none) :
    (s.updateCpuFrequency cpuLoad governor frequencyRequest).1.frequency =
      let minFrequency := requested governor frequencyRequest
      let counted := s.cpuAlgorithms.frequencyStepping.count s.powerProfile cpuLoad s.frequency
      if s.frequency < minFrequency then minFrequency
      else if counted.Above s.powerProfile then
        if s.frequency < .Level_4 then .Level_4 else .Level_6
      else if counted.Below s.powerProfile ∧ minFrequency < s.frequency then
        stepDown s.frequency s.powerProfile
      else s.frequency := by
  rw [frequency_of_result (calculate_algorithms h)]
  simp only [requested]
  by_cases hup : s.frequency <
      (minimumCpuFrequencyRequested governor
        (LogSentinel.requestedFrequency frequencyRequest)).minFrequency
  · simp [hup]
  · simp only [if_neg hup, FrequencyStepping.calculate]
    split
    case isTrue => split <;> simp
    case isFalse =>
        split
        case isTrue hdown =>
            simp only [ne_eq, reduceCtorEq, not_false_eq_true, if_true, or_self, if_false]
            exact (if_pos hdown).symm
        case isFalse hstay =>
            simp only [ne_eq, not_true, if_false, true_or, if_true]
            exact (if_neg hstay).symm

theorem sustains_iff_inBounds : Sustains s e ↔ InBounds s e := by
  cases e with
  | update cpuLoad governor frequencyRequest =>
      refine imp_congr_right fun hnone => ?_
      rw [frequency_updateCpuFrequency hnone, ← and_assoc, ← le_requested]
      dsimp only
      split
      case isTrue hup => exact and_iff_right (le_refl _)
      case isFalse hup =>
          rw [not_lt] at hup
          split
          case isTrue habove =>
              split
              case isTrue hlow =>
                  rw [and_iff_right (le_trans hup (le_of_lt hlow))]
                  exact ⟨fun hle _ => hle, fun hle => hle hlow⟩
              case isFalse hhigh =>
                  exact iff_of_true ⟨le_level_6 _, le_level_6 _⟩ fun hlow => absurd hlow hhigh
          case isFalse habove =>
              split
              case isTrue hdown =>
                  split
                  case isTrue hlow =>
                      rw [stepDown_low hlow]
                      exact and_iff_left (le_refl _)
                  case isFalse hhigh =>
                      rw [not_le] at hhigh
                      rw [le_stepDown_iff hhigh, le_stepDown_iff hhigh]
                      exact and_iff_right hdown.2
              case isFalse hstay => exact and_iff_right hup
  | setPermanentFrequency freq => exact Iff.rfl
  | resetPermanentFrequency => exact Iff.rfl
  | wakeUp => exact Iff.rfl

/-! ## Runs -/

/-- In a run, whatever permanent frequencies come and go in between, each update without one
leaves the frequency at least at what is requested and at the minimum of the profile exactly
when each of these updates is in bounds. -/
theorem sustains_run_iff :
    EveryStep Sustains step (start profile frequency) events ↔
      EveryStep InBounds step (start profile frequency) events :=
  @everyStep_congr PowerManager PowerEvent (fun _ => True) _ InBounds step
    (fun _ _ _ => sustains_iff_inBounds) (fun _ _ _ _ => trivial) _ _ trivial

/-- With the profile of the phone, `Level_1` requested and no load at all, the frequency goes
from `Level_2` to `Level_0`. -/
theorem below_request :
    ¬ EveryStep Sustains step (start ⟨50, 80, 5, 1, 2, .Level_0⟩ .Level_2)
      [.update 0 ⟨[1], .Level_1, ""⟩ false] := by
  intro h
  have hbelow := (h.1 rfl).1
  revert hbelow
  decide

end PowerManager

end MuditaOS.Sys
