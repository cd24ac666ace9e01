import MuditaOS.Evtmgr.BrownoutDetector
import MuditaOS.Lib.Run
import Mathlib.Data.List.Basic

/-!
# Declared brownouts

The detector counts the ticks whose reading is less than the threshold, and a reading that
failed is less than every threshold. So the timer and the count are sound, but a brownout may be
declared without a single measurement.
-/

namespace MuditaOS.Brownout

open Lib BatteryBrownoutDetector

/-! ## What is watched -/

/-- The detector, with what the gauge gave at the ticks of the last detection and the number of
reports made of it. -/
structure Watched where
  detector : BatteryBrownoutDetector
  readings : List (Option Voltage)
  reports : Nat
  deriving DecidableEq

inductive Event where
  | poll (reading : Option Voltage)
  | tick (reading : Option Voltage)
  deriving DecidableEq, Repr

namespace Watched

def init : Watched := ⟨.init, [], 0⟩

variable (voltage : Thresholds) (w : Watched)

/-- What an event reports. -/
def report : Event → Option DetectionResult
  | .poll _ => none
  | .tick reading => (w.detector.elapse voltage reading).1

/-- A poll may start a detection, a tick belongs to the one whose timer is pending. -/
def step : Event → Watched
  | .poll reading =>
      let detector := w.detector.poll voltage reading
      if w.detector.eventDetectionOngoing = false ∧ detector.eventDetectionOngoing then
        ⟨detector, [], 0⟩
      else { w with detector }
  | .tick reading =>
      let (result, detector) := w.detector.elapse voltage reading
      if w.detector.measurementTickPending then
        ⟨detector, w.readings ++ [reading], w.reports + result.toList.length⟩
      else { w with detector }

end Watched

variable {voltage : Thresholds} {w : Watched} {e : Event} {reading : Option Voltage}

/-- A voltage was measured and is below the threshold. -/
def MeasuredLow (voltage : Thresholds) (reading : Option Voltage) : Prop :=
  ∃ v, reading = some v ∧ v < voltage.shutdown

/-- A detection of a threshold count of zero takes one tick. -/
def ticksNeeded (voltage : Thresholds) : Nat := max 1 voltage.measurementMaxCount.toNat

structure Sound (voltage : Thresholds) (w : Watched) (e : Event) : Prop where
  measured : w.report voltage e = some .eventDetected →
    (w.step voltage e).readings.length = ticksNeeded voltage ∧
      ∀ reading ∈ (w.step voltage e).readings, MeasuredLow voltage reading
  once : (w.step voltage e).reports ≤ 1
  pending : (w.step voltage e).detector.eventDetectionOngoing =
    (w.step voltage e).detector.measurementTickPending

/-- The last tick of a detection in which no reading is at the threshold or above: none of its
readings failed. -/
def Clear (voltage : Thresholds) (w : Watched) : Event → Prop
  | .poll _ => True
  | .tick reading =>
      w.detector.measurementTickPending →
      (w.readings ++ [reading]).length = ticksNeeded voltage →
      (∀ v, some v ∈ w.readings ++ [reading] → v < voltage.shutdown) →
      none ∉ w.readings ++ [reading]

/-! ## The detection -/

structure Inv (voltage : Thresholds) (w : Watched) : Prop where
  pending : w.detector.eventDetectionOngoing = w.detector.measurementTickPending
  count : w.detector.measurementTickPending →
    w.detector.measurementBrownoutCount.toNat = w.readings.length
  early : w.detector.measurementTickPending → w.readings.length < ticksNeeded voltage
  low : w.detector.measurementTickPending → ∀ v, some v ∈ w.readings → v < voltage.shutdown
  unreported : w.detector.measurementTickPending → w.reports = 0
  once : w.reports ≤ 1

theorem inv_init : Inv voltage .init :=
  ⟨rfl, nofun, nofun, nofun, nofun, Nat.zero_le 1⟩

theorem exceeded_iff :
    isVoltageThresholdExceeded voltage reading ↔ ∀ v, reading = some v → v < voltage.shutdown := by
  cases reading <;> simp [isVoltageThresholdExceeded, optionalLess]

theorem Inv.low_append (h : Inv voltage w) (hpending : w.detector.measurementTickPending)
    (hexceeded : isVoltageThresholdExceeded voltage reading) :
    ∀ v, some v ∈ w.readings ++ [reading] → v < voltage.shutdown := by
  intro v hv
  rcases List.mem_append.1 hv with hold | hnew
  · exact h.low hpending v hold
  · exact exceeded_iff.1 hexceeded v (List.mem_singleton.1 hnew).symm

/-- A poll starts a detection or does nothing. -/
theorem step_poll_cases (voltage : Thresholds) (w : Watched) (reading : Option Voltage) :
    w.step voltage (.poll reading) = w ∨
      w.step voltage (.poll reading) = ⟨triggerDetection, [], 0⟩ := by
  by_cases hongoing : w.detector.eventDetectionOngoing
  · left
    simp [Watched.step, poll, hongoing]
  by_cases hexceeded : isVoltageThresholdExceeded voltage reading
  · right
    simp [Watched.step, poll, hongoing, hexceeded, triggerDetection]
  · left
    simp [Watched.step, poll, hongoing, hexceeded]

theorem inv_trigger : Inv voltage ⟨triggerDetection, [], 0⟩ :=
  ⟨rfl, fun _ => rfl, fun _ => Nat.lt_of_lt_of_le Nat.zero_lt_one (Nat.le_max_left ..), nofun,
    fun _ => rfl, Nat.zero_le 1⟩

/-- There are less than 256 ticks, so the count does not wrap. -/
theorem toNat_count_succ (h : Inv voltage w) (hpending : w.detector.measurementTickPending) :
    (w.detector.measurementBrownoutCount + 1).toNat = w.readings.length + 1 := by
  have hearly := h.early hpending
  have hmax : voltage.measurementMaxCount.toNat < 256 := voltage.measurementMaxCount.toNat_lt
  rw [ticksNeeded] at hearly
  rw [UInt32.toNat_add, UInt32.toNat_one, h.count hpending]
  omega

/-- The outcomes of a tick of a pending timer: the detection goes on, ends with its last tick, or
ends with a reading that is not less. -/
theorem elapse_cases (reading : Option Voltage) (h : Inv voltage w)
    (hpending : w.detector.measurementTickPending) :
    (isVoltageThresholdExceeded voltage reading ∧ w.readings.length + 1 < ticksNeeded voltage ∧
      w.detector.elapse voltage reading = (none, { w.detector with
        measurementBrownoutCount := w.detector.measurementBrownoutCount + 1 })) ∨
    (isVoltageThresholdExceeded voltage reading ∧ w.readings.length + 1 = ticksNeeded voltage ∧
      w.detector.elapse voltage reading = (some .eventDetected, .init)) ∨
    (¬ isVoltageThresholdExceeded voltage reading ∧
      ∃ result, result ≠ some .eventDetected ∧
        w.detector.elapse voltage reading = (result, .init)) := by
  have hearly := h.early hpending
  have hnext := toNat_count_succ h hpending
  obtain ⟨⟨ongoing, count, _⟩, readings, reports⟩ := w
  obtain rfl : _ = true := hpending
  change (count + 1).toNat = readings.length + 1 at hnext
  change readings.length < max 1 voltage.measurementMaxCount.toNat at hearly
  rw [ticksNeeded]
  have hlast : count + 1 < voltage.measurementMaxCount.toUInt32 ↔
      readings.length + 1 < voltage.measurementMaxCount.toNat := by
    rw [UInt32.lt_iff_toNat_lt, hnext, UInt8.toNat_toUInt32]
  by_cases hexceeded : isVoltageThresholdExceeded voltage reading
  · by_cases hgoes : readings.length + 1 < voltage.measurementMaxCount.toNat
    · refine .inl ⟨hexceeded, by dsimp only; omega, ?_⟩
      simp [elapse, tick, isTimerExpired, hexceeded, hlast.2 hgoes]
    · refine .inr (.inl ⟨hexceeded, by dsimp only; omega, ?_⟩)
      simp [elapse, tick, isTimerExpired, hexceeded, mt hlast.1 hgoes, brownoutDetected,
        clearDetection, init]
  · refine .inr (.inr ⟨hexceeded, (brownoutNotDetected ⟨ongoing, count, false⟩).1, ?_, ?_⟩)
    · simp [brownoutNotDetected]
    · simp [elapse, tick, hexceeded, brownoutNotDetected, clearDetection, init]

theorem step_tick_pending (hpending : w.detector.measurementTickPending) :
    w.step voltage (.tick reading) =
      ⟨(w.detector.elapse voltage reading).2, w.readings ++ [reading],
        w.reports + (w.detector.elapse voltage reading).1.toList.length⟩ := by
  simp [Watched.step, hpending]

/-- A tick of a timer that is not pending does not happen. -/
theorem step_tick_idle (hpending : ¬ w.detector.measurementTickPending) :
    w.step voltage (.tick reading) = w ∧ w.report voltage (.tick reading) = none := by
  simp [Watched.step, Watched.report, elapse, hpending]

theorem inv_step (h : Inv voltage w) : Inv voltage (w.step voltage e) := by
  cases e with
  | poll reading =>
      rcases step_poll_cases voltage w reading with hsame | hstart
      · rwa [hsame]
      · rw [hstart]
        exact inv_trigger
  | tick reading =>
      by_cases hpending : w.detector.measurementTickPending
      · rw [step_tick_pending hpending]
        have hzero := h.unreported hpending
        rcases elapse_cases reading h hpending with
          ⟨hexceeded, hlength, helapse⟩ | ⟨-, -, helapse⟩ | ⟨-, result, -, helapse⟩
        · rw [helapse]
          refine ⟨h.pending, fun _ => ?_, fun _ => ?_, fun _ v hv => ?_, fun _ => hzero, h.once⟩
          · rw [List.length_append]
            exact toNat_count_succ h hpending
          · rwa [List.length_append]
          · exact h.low_append hpending hexceeded v hv
        · rw [helapse, hzero]
          exact ⟨rfl, nofun, nofun, nofun, nofun, Nat.le_refl 1⟩
        · rw [helapse, hzero]
          refine ⟨rfl, nofun, nofun, nofun, nofun, ?_⟩
          cases result <;> simp
      · rwa [(step_tick_idle hpending).1]

/-! ## Reports -/

/-- Readings that are all less than the threshold are measured if none of them failed. -/
theorem measured_iff {readings : List (Option Voltage)}
    (h : ∀ v, some v ∈ readings → v < voltage.shutdown) :
    (∀ reading ∈ readings, MeasuredLow voltage reading) ↔ none ∉ readings := by
  constructor
  · intro hall hnone
    obtain ⟨v, hv, -⟩ := hall none hnone
    cases hv
  · intro hnot reading hmem
    cases reading with
    | none => exact absurd hmem hnot
    | some v => exact ⟨v, rfl, h v hmem⟩

theorem sound_iff_clear (h : Inv voltage w) : Sound voltage w e ↔ Clear voltage w e := by
  have hinv : Inv voltage (w.step voltage e) := inv_step h
  have hsilent (hreport : w.report voltage e ≠ some .eventDetected) : Sound voltage w e :=
    ⟨fun hdetected => absurd hdetected hreport, hinv.once, hinv.pending⟩
  cases e with
  | poll reading => exact iff_of_true (hsilent nofun) trivial
  | tick reading =>
      by_cases hpending : w.detector.measurementTickPending
      · rw [Clear, forall_prop_of_true hpending, List.length_append, List.length_singleton]
        rcases elapse_cases reading h hpending with
          ⟨-, hlength, helapse⟩ | ⟨hexceeded, hlength, helapse⟩ |
            ⟨hexceeded, result, hresult, helapse⟩
        · refine iff_of_true (hsilent ?_) fun hlast => absurd hlast (Nat.ne_of_lt hlength)
          simp [Watched.report, helapse]
        · have hlow := h.low_append hpending hexceeded
          rw [forall_prop_of_true hlength, forall_prop_of_true hlow, ← measured_iff hlow]
          have hreadings : (w.step voltage (.tick reading)).readings = w.readings ++ [reading] := by
            rw [step_tick_pending hpending]
          constructor
          · intro hsound
            rw [← hreadings]
            exact (hsound.measured (by simp [Watched.report, helapse])).2
          · intro hmeasured
            refine ⟨fun _ => ⟨?_, by rwa [hreadings]⟩, hinv.once, hinv.pending⟩
            rw [hreadings, List.length_append, List.length_singleton, hlength]
        · refine iff_of_true (hsilent (by simpa [Watched.report, helapse] using hresult)) ?_
          intro _ hall
          refine absurd (exceeded_iff.2 fun v hv => hall v ?_) hexceeded
          rw [hv]
          exact List.mem_append_right _ List.mem_cons_self
      · refine iff_of_true (hsilent ?_) fun h => absurd h hpending
        rw [(step_tick_idle hpending).2]
        simp

/-- In a run from the start, a brownout is declared on measured voltages alone, once at most, and
with the timer pending while it is looked for, exactly if no reading fails in a detection whose
other readings are all below the threshold up to its last tick. -/
theorem brownout_measured_iff (voltage : Thresholds) (events : List Event) :
    EveryStep (Sound voltage) (Watched.step voltage) .init events ↔
      EveryStep (Clear voltage) (Watched.step voltage) .init events :=
  everyStep_congr (fun w _ (h : Inv voltage w) => sound_iff_clear h)
    (fun _ _ h _ => inv_step h) inv_init

/-- No reading succeeds, and after five ticks the phone is switched off. -/
theorem brownout_unmeasured :
    ¬ EveryStep (Sound ⟨3600, 5⟩) (Watched.step ⟨3600, 5⟩) .init
      (.poll none :: List.replicate 5 (.tick none)) := by
  intro h
  obtain ⟨-, -, -, -, -, hlast, -⟩ := h
  obtain ⟨v, hv, -⟩ := (hlast.measured (by decide)).2 none (by decide)
  cases hv

end MuditaOS.Brownout
