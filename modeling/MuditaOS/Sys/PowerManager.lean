import MuditaOS.Sys.CpuGovernor

/-!
# The choice of the CPU frequency

A transcription of `PowerManager::UpdateCpuFrequency` and of its three algorithms, which are
tried in turn. The counters of the stepping are 32 bits wide. What the governor answers and
whether the log is waiting to be dumped come with each update.
-/

namespace MuditaOS.Sys

open sentinel

structure PowerProfile where
  frequencyShiftLowerThreshold : UInt32
  frequencyShiftUpperThreshold : UInt32
  maxBelowThresholdCount : UInt32
  maxBelowThresholdInRowCount : UInt32
  maxAboveThresholdCount : UInt32
  minimalFrequency : CpuFrequencyMHz
  deriving DecidableEq, Repr

namespace cpu

inductive Change where
  /-- The frequency has risen. -/
  | UpScaled
  | Downscaled
  /-- The frequency is to be held. -/
  | Hold
  | NoChange
  deriving DecidableEq, Repr

inductive AlgoID where
  | None
  | FrequencyHold
  | ImmediateUpscale
  | FrequencyStepping
  deriving DecidableEq, Repr

structure AlgorithmData where
  CPUload : UInt32
  curentFrequency : CpuFrequencyMHz
  sentinel : View
  deriving DecidableEq, Repr

structure AlgorithmResult where
  change : Change
  value : CpuFrequencyMHz
  deriving DecidableEq, Repr

structure UpdateResult where
  changed : Change
  frequencySet : CpuFrequencyMHz
  data : View
  id : AlgoID
  deriving DecidableEq, Repr

/-! ## The algorithms -/

def frequencyHold (toHold : CpuFrequencyMHz) (profile : PowerProfile) (data : AlgorithmData) :
    AlgorithmResult :=
  let retval := if toHold < profile.minimalFrequency then profile.minimalFrequency else toHold
  if data.curentFrequency < toHold then ⟨.UpScaled, retval⟩
  else if toHold < data.curentFrequency then ⟨.Downscaled, retval⟩
  else ⟨.Hold, retval⟩

def immediateUpscale (data : AlgorithmData) : AlgorithmResult :=
  let now := data.sentinel.minFrequency
  let was := data.curentFrequency
  if was < now then ⟨.UpScaled, now⟩ else ⟨.NoChange, was⟩

structure FrequencyStepping where
  aboveThresholdCounter : UInt32
  belowThresholdCounter : UInt32
  isFrequencyDownscalingInProgress : Bool
  deriving DecidableEq, Repr

namespace FrequencyStepping

def start : FrequencyStepping := ⟨0, 0, true⟩

def stepDown (freq : CpuFrequencyMHz) (profile : PowerProfile) : CpuFrequencyMHz :=
  match freq with
  | .Level_6 => .Level_5
  | .Level_5 => .Level_4
  | .Level_4 => .Level_3
  | .Level_3 => .Level_2
  | .Level_2 | .Level_1 | .Level_0 => profile.minimalFrequency

def reset (s : FrequencyStepping) : FrequencyStepping :=
  { s with aboveThresholdCounter := 0, belowThresholdCounter := 0 }

/-- The counters after this load. -/
def count (s : FrequencyStepping) (profile : PowerProfile) (load : UInt32)
    (startFrequency : CpuFrequencyMHz) : FrequencyStepping :=
  let s :=
    if profile.frequencyShiftUpperThreshold < load ∧ startFrequency < .Level_6 then
      { s with
        aboveThresholdCounter := s.aboveThresholdCounter + 1
        belowThresholdCounter := 0 }
    else if load < profile.frequencyShiftLowerThreshold ∧
        profile.minimalFrequency < startFrequency then
      { s with
        belowThresholdCounter := s.belowThresholdCounter + 1
        aboveThresholdCounter := 0 }
    else s.reset
  if s.belowThresholdCounter = 0 then { s with isFrequencyDownscalingInProgress := false } else s

/-- There have been enough loads above the threshold, -/
def Above (s : FrequencyStepping) (profile : PowerProfile) : Prop :=
  profile.maxAboveThresholdCount ≤ s.aboveThresholdCounter

/-- or below it. -/
def Below (s : FrequencyStepping) (profile : PowerProfile) : Prop :=
  (if s.isFrequencyDownscalingInProgress then profile.maxBelowThresholdInRowCount
    else profile.maxBelowThresholdCount) ≤ s.belowThresholdCounter

instance {s : FrequencyStepping} {profile : PowerProfile} : Decidable (s.Above profile) :=
  inferInstanceAs (Decidable (profile.maxAboveThresholdCount ≤ s.aboveThresholdCounter))

instance {s : FrequencyStepping} {profile : PowerProfile} : Decidable (s.Below profile) :=
  inferInstanceAs (Decidable (_ ≤ s.belowThresholdCounter))

def calculate (s : FrequencyStepping) (profile : PowerProfile) (data : AlgorithmData) :
    FrequencyStepping × AlgorithmResult :=
  let startFrequency := data.curentFrequency
  let minFrequency := data.sentinel.minFrequency
  let s := s.count profile data.CPUload startFrequency
  if startFrequency < minFrequency then (s, ⟨.NoChange, startFrequency⟩)
  else if s.Above profile then
    if startFrequency < .Level_4 then (s.reset, ⟨.UpScaled, .Level_4⟩)
    else (s.reset, ⟨.UpScaled, .Level_6⟩)
  else if s.Below profile ∧ minFrequency < startFrequency then
    ({ s with isFrequencyDownscalingInProgress := true }.reset,
      ⟨.Downscaled, stepDown startFrequency profile⟩)
  else (s, ⟨.NoChange, startFrequency⟩)

end FrequencyStepping

/-- The algorithms that there are. `ImmediateUpscale` always is one, and has no state. -/
structure AlgorithmFactory where
  frequencyHold : Option CpuFrequencyMHz
  frequencyStepping : FrequencyStepping
  deriving DecidableEq, Repr

namespace AlgorithmFactory

/-- `get`, and the algorithm at work; none without the algorithm. -/
def calculateOne (a : AlgorithmFactory) (profile : PowerProfile) (data : AlgorithmData) :
    AlgoID → Option (AlgorithmFactory × AlgorithmResult)
  | .None => none
  | .FrequencyHold => a.frequencyHold.map fun toHold => (a, cpu.frequencyHold toHold profile data)
  | .ImmediateUpscale => some (a, immediateUpscale data)
  | .FrequencyStepping =>
      let stepped := a.frequencyStepping.calculate profile data
      some ({ a with frequencyStepping := stepped.1 }, stepped.2)

/-- The first result that is not `NoChange`, and whose it is. -/
def calculate (a : AlgorithmFactory) (profile : PowerProfile) (data : AlgorithmData) :
    List AlgoID → AlgorithmFactory × AlgorithmResult × AlgoID
  | [] => (a, ⟨.NoChange, .Level_6⟩, .None)
  | id :: algorithms =>
      match a.calculateOne profile data id with
      | none => a.calculate profile data algorithms
      | some (a, result) =>
          if result.change ≠ .NoChange then (a, result, id)
          else a.calculate profile data algorithms

/-- Only the stepping has something to reset. -/
def reset (a : AlgorithmFactory) : List AlgoID → AlgorithmFactory
  | [] => a
  | .FrequencyStepping :: algorithms =>
      { a with frequencyStepping := a.frequencyStepping.reset }.reset algorithms
  | _ :: algorithms => a.reset algorithms

end AlgorithmFactory

end cpu

open cpu

/-! ## The manager -/

namespace LogSentinel

def logDumpFrequencyToHold : CpuFrequencyMHz := .Level_4

/-- "LoggerSentinel" -/
def sentinelName : Name := [76, 111, 103, 103, 101, 114, 83, 101, 110, 116, 105, 110, 101, 108]

/-- `GetRequestedFrequency`, by whether the log waits for its frequency or is dumped. -/
def requestedFrequency (frequencyRequest : Bool) : View :=
  ⟨sentinelName, if frequencyRequest then logDumpFrequencyToHold else .Level_0, "LogDump"⟩

end LogSentinel

structure PowerManager where
  powerProfile : PowerProfile
  /-- The frequency of `lowPowerControl`. -/
  frequency : CpuFrequencyMHz
  cpuAlgorithms : AlgorithmFactory
  deriving DecidableEq, Repr

inductive PowerEvent where
  | update (cpuLoad : UInt32) (governor : View) (frequencyRequest : Bool)
  | setPermanentFrequency (freq : CpuFrequencyMHz)
  | resetPermanentFrequency
  /-- The CPU comes out of WFI. -/
  | wakeUp
  deriving DecidableEq, Repr

namespace PowerManager

def start (profile : PowerProfile) (frequency : CpuFrequencyMHz) : PowerManager :=
  ⟨profile, frequency, ⟨none, FrequencyStepping.start⟩⟩

def minimumCpuFrequencyRequested (governorSentinelsView logSentinelView : View) : View :=
  if governorSentinelsView.minFrequency < logSentinelView.minFrequency then logSentinelView
  else governorSentinelsView

/-- The loop ends with this frequency. -/
def setCpuFrequency (s : PowerManager) (freq : CpuFrequencyMHz) : PowerManager :=
  { s with frequency := freq }

def algorithms : List AlgoID := [.FrequencyHold, .ImmediateUpscale, .FrequencyStepping]

def updateCpuFrequency (s : PowerManager) (cpuLoad : UInt32) (governor : View)
    (frequencyRequest : Bool) : PowerManager × UpdateResult :=
  let sentinel :=
    minimumCpuFrequencyRequested governor (LogSentinel.requestedFrequency frequencyRequest)
  let data : AlgorithmData := ⟨cpuLoad, s.frequency, sentinel⟩
  let calculated := s.cpuAlgorithms.calculate s.powerProfile data algorithms
  let result := calculated.2.1
  let s := { s with cpuAlgorithms := calculated.1 }
  if result.change = .NoChange ∨ result.change = .Hold then
    (s, ⟨result.change, s.frequency, sentinel, calculated.2.2⟩)
  else
    let s := s.setCpuFrequency result.value
    ({ s with cpuAlgorithms := s.cpuAlgorithms.reset algorithms },
      ⟨result.change, s.frequency, sentinel, calculated.2.2⟩)

def step (s : PowerManager) : PowerEvent → PowerManager
  | .update cpuLoad governor frequencyRequest =>
      (s.updateCpuFrequency cpuLoad governor frequencyRequest).1
  | .setPermanentFrequency freq =>
      { s with cpuAlgorithms := { s.cpuAlgorithms with frequencyHold := some freq } }
  | .resetPermanentFrequency =>
      { s with cpuAlgorithms := { s.cpuAlgorithms with frequencyHold := none } }
  | .wakeUp => s.setCpuFrequency .Level_4

end PowerManager

end MuditaOS.Sys
