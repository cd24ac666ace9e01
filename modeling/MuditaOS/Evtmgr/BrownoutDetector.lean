import Mathlib.Data.UInt

/-!
# The brownout detector

A transcription of `BatteryBrownoutDetector.cpp`. What the gauge answers is an argument of the
functions that read it, and what the callback gets is returned. The timer is single shot: it is
pending from its start until it elapses, which is when `tick` is called.
-/

namespace MuditaOS.Brownout

/-- In millivolts. -/
abbrev Voltage := UInt32

structure Thresholds where
  shutdown : Voltage
  measurementMaxCount : UInt8
  deriving DecidableEq, Repr

inductive DetectionResult where
  | eventDetected
  | detectionNegative
  deriving DecidableEq, Repr

/-- `operator<` of an optional and a value: an empty optional is less than any value. -/
def optionalLess (reading : Option Voltage) (value : Voltage) : Bool :=
  match reading with
  | some v => v < value
  | none => true

structure BatteryBrownoutDetector where
  eventDetectionOngoing : Bool
  /-- An `unsigned`, of 32 bits. -/
  measurementBrownoutCount : UInt32
  measurementTickPending : Bool
  deriving DecidableEq, Repr

namespace BatteryBrownoutDetector

def init : BatteryBrownoutDetector := ⟨false, 0, false⟩

variable (voltage : Thresholds) (detector : BatteryBrownoutDetector)

def isVoltageThresholdExceeded (reading : Option Voltage) : Bool :=
  optionalLess reading voltage.shutdown

def clearDetection : BatteryBrownoutDetector :=
  { detector with
    measurementBrownoutCount := 0
    eventDetectionOngoing := false }

def triggerDetection : BatteryBrownoutDetector :=
  { eventDetectionOngoing := true
    measurementBrownoutCount := 0
    measurementTickPending := true }

def isTimerExpired : Bool × BatteryBrownoutDetector :=
  let detector :=
    { detector with measurementBrownoutCount := detector.measurementBrownoutCount + 1 }
  if detector.measurementBrownoutCount < voltage.measurementMaxCount.toUInt32 then
    (false, { detector with measurementTickPending := true })
  else (true, detector)

def brownoutDetected : Option DetectionResult × BatteryBrownoutDetector :=
  (some .eventDetected, detector.clearDetection)

def brownoutNotDetected : Option DetectionResult × BatteryBrownoutDetector :=
  let result :=
    if 0 < detector.measurementBrownoutCount then some .detectionNegative else none
  (result, detector.clearDetection)

def tick (reading : Option Voltage) : Option DetectionResult × BatteryBrownoutDetector :=
  if isVoltageThresholdExceeded voltage reading then
    let (expired, detector) := detector.isTimerExpired voltage
    if expired then detector.brownoutDetected else (none, detector)
  else detector.brownoutNotDetected

def poll (reading : Option Voltage) : BatteryBrownoutDetector :=
  if detector.eventDetectionOngoing then detector
  else if isVoltageThresholdExceeded voltage reading then triggerDetection
  else detector

/-- The timer elapses, if it is pending. -/
def elapse (reading : Option Voltage) : Option DetectionResult × BatteryBrownoutDetector :=
  if detector.measurementTickPending then
    { detector with measurementTickPending := false }.tick voltage reading
  else (none, detector)

end BatteryBrownoutDetector

end MuditaOS.Brownout
