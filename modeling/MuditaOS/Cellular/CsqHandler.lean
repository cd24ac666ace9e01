import Mathlib.Logic.Basic

/-!
# Signal strength reporting

The modem tells of every change of the signal strength, or it is polled. The handler switches
between the two with commands that may fail; then the service sends itself a message to try
again, with the mode that was wanted. The modem is ready throughout. The service handles one
message at a time, its own in the order in which it sent them, between any others.
-/

namespace MuditaOS.Cellular

inductive CSQMode
  | PermanentReporting
  | HybridReporting
  | HybridPolling
  deriving DecidableEq, Repr

namespace Battery

inductive State
  | Discharging
  | Charging
  | ChargingDone
  | PluggedNotCharging
  deriving DecidableEq, Repr

end Battery

/-- What the counter of milliseconds has gone up by; it wraps around. -/
def computeIncrease (currentCount lastCount : UInt32) : UInt32 :=
  if lastCount ≤ currentCount then currentCount - lastCount
  else 4294967295 - lastCount + currentCount

structure CSQHandler where
  urcCounter : UInt32 := 0
  currentMode : CSQMode := .HybridReporting
  switchToPollModeTimestamp : UInt32 := 0
  isPhoneLocked : Bool := true
  isBluetoothCarKitConnected : Bool := false
  deriving DecidableEq, Repr

namespace CSQHandler

def urcThreshold : UInt32 := 4

/-- An hour, in milliseconds. -/
def pollModeDuration : UInt32 := 3600000

def isRssiValid (csq : UInt32) : Bool := csq != 99 && csq != 199

def isTooManyURCs (handler : CSQHandler) : Bool := urcThreshold < handler.urcCounter

def isPollModeTimeElapsed (currentTime : UInt32) (handler : CSQHandler) : Bool :=
  pollModeDuration ≤ computeIncrease currentTime handler.switchToPollModeTimestamp

end CSQHandler

/-- The commands that make the modem tell of changes, or not. -/
inductive CsqCommand
  | enable
  | disable
  deriving DecidableEq, Repr

/-- What comes of asking for the signal strength. -/
inductive CsqReport
  | propagated (csq : UInt32)
  | invalid
  | retryGetCSQ
  deriving DecidableEq, Repr

/-- What the modem answers, and the time, while a message is handled. -/
structure Modem where
  enables : Bool
  disables : Bool
  csq : Option UInt32
  ms : UInt32
  deriving DecidableEq, Repr

/-- Whether the command that goes with a mode succeeds. -/
def Modem.switchesTo (modem : Modem) (mode : CSQMode) : Bool :=
  if mode = .HybridPolling then modem.disables else modem.enables

inductive CsqMessage
  | UnlockedPhone
  | LockedPhone
  /-- Whether the mode is `ConnectedVoice` or `ConnectedBoth`. -/
  | BluetoothModeChanged (carKit : Bool)
  | BatteryStatusChange (state : Battery.State)
  | URCCounterMessage (counter : UInt32)
  | timerTick
  | RetrySwitchCSQMode
  | RetryGetCSQ
  deriving DecidableEq, Repr

structure CsqCall where
  message : CsqMessage
  modem : Modem
  deriving DecidableEq, Repr

structure CsqService where
  csqHandler : CSQHandler
  battery : Battery.State
  /-- The `RetrySwitchCSQMode` messages that wait to be handled. -/
  retries : List CSQMode
  /-- The last command that succeeded. -/
  lastCommand : Option CsqCommand
  /-- Whether the conditions have been looked at. -/
  checked : Bool
  reports : List CsqReport
  deriving DecidableEq, Repr

namespace CsqService

def start (battery : Battery.State) : CsqService where
  csqHandler := {}
  battery := battery
  retries := []
  lastCommand := none
  checked := false
  reports := []

variable (modem : Modem)

def onRetrySwitchMode (newMode : CSQMode) (s : CsqService) : CsqService :=
  { s with retries := s.retries ++ [newMode] }

/-- `switchToPermanentReportMode` and `switchToHybridReportMode`. -/
def switchToReportMode (mode : CSQMode) (s : CsqService) : CsqService :=
  if modem.enables then
    { s with
      csqHandler := { s.csqHandler with currentMode := mode }
      lastCommand := some .enable }
  else s.onRetrySwitchMode mode

def switchToPermanentReportMode (s : CsqService) : CsqService :=
  s.switchToReportMode modem .PermanentReporting

def switchToHybridReportMode (s : CsqService) : CsqService :=
  s.switchToReportMode modem .HybridReporting

def switchToHybridPollMode (s : CsqService) : CsqService :=
  if modem.disables then
    { s with
      csqHandler :=
        { s.csqHandler with
          currentMode := .HybridPolling
          switchToPollModeTimestamp := modem.ms }
      lastCommand := some .disable }
  else s.onRetrySwitchMode .HybridPolling

def getCSQ (s : CsqService) : CsqService :=
  { s with
    reports := s.reports ++
      match modem.csq with
      | some csq => if CSQHandler.isRssiValid csq then [.propagated csq] else [.invalid]
      | none => [.retryGetCSQ] }

def handleTimerTick (s : CsqService) : CsqService :=
  if s.csqHandler.currentMode = .HybridPolling then
    if s.csqHandler.isPollModeTimeElapsed modem.ms then s.switchToHybridReportMode modem
    else s.getCSQ modem
  else s

def handleURCCounterMessage (counter : UInt32) (s : CsqService) : CsqService :=
  let counted := { s with csqHandler := { s.csqHandler with urcCounter := counter } }
  if counted.csqHandler.isTooManyURCs && counted.csqHandler.currentMode = .HybridReporting then
    counted.switchToHybridPollMode modem
  else counted

/-- The phone is in use, or has power to spare. -/
def wantsPermanent (s : CsqService) : Bool :=
  !s.csqHandler.isPhoneLocked || s.csqHandler.isBluetoothCarKitConnected ||
    s.battery != .Discharging

def checkConditionToChangeMode (s : CsqService) : CsqService :=
  let checked := { s with checked := true }
  if s.csqHandler.currentMode ≠ .PermanentReporting then
    if s.wantsPermanent then checked.switchToPermanentReportMode modem else checked
  else if s.csqHandler.isPhoneLocked && !s.csqHandler.isBluetoothCarKitConnected &&
      s.battery = .Discharging then
    checked.switchToHybridReportMode modem
  else checked

def handleLockPhone (s : CsqService) : CsqService :=
  { s with csqHandler := { s.csqHandler with isPhoneLocked := true } }

def handleUnlockPhone (s : CsqService) : CsqService :=
  { s with csqHandler := { s.csqHandler with isPhoneLocked := false } }

def handleBluetoothCarKitConnect (s : CsqService) : CsqService :=
  { s with csqHandler := { s.csqHandler with isBluetoothCarKitConnected := true } }

def handleBluetoothCarKitDisconnect (s : CsqService) : CsqService :=
  { s with csqHandler := { s.csqHandler with isBluetoothCarKitConnected := false } }

def switchTo (newMode : CSQMode) (s : CsqService) : CsqService :=
  match newMode with
  | .PermanentReporting => s.switchToPermanentReportMode modem
  | .HybridReporting => s.switchToHybridReportMode modem
  | .HybridPolling => s.switchToHybridPollMode modem

def handleRetry (s : CsqService) : CsqService :=
  match s.retries with
  | [] => s
  | newMode :: retries => { s with retries := retries }.switchTo modem newMode

def step (s : CsqService) (call : CsqCall) : CsqService :=
  match call.message with
  | .UnlockedPhone => s.handleUnlockPhone.checkConditionToChangeMode call.modem
  | .LockedPhone => s.handleLockPhone.checkConditionToChangeMode call.modem
  | .BluetoothModeChanged carKit =>
      let connected :=
        if carKit then s.handleBluetoothCarKitConnect else s.handleBluetoothCarKitDisconnect
      connected.checkConditionToChangeMode call.modem
  | .BatteryStatusChange state =>
      { s with battery := state }.checkConditionToChangeMode call.modem
  | .URCCounterMessage counter => s.handleURCCounterMessage call.modem counter
  | .timerTick => s.handleTimerTick call.modem
  | .RetrySwitchCSQMode => s.handleRetry call.modem
  | .RetryGetCSQ => s.getCSQ call.modem

/-- With no retry pending the mode is the one that is wanted. -/
def Settled (s : CsqService) : Prop :=
  s.retries = [] → s.checked →
    (s.csqHandler.currentMode = .PermanentReporting ↔ s.wantsPermanent)

/-- The last command that succeeded is the one of the mode. -/
def Commanded (s : CsqService) : Prop :=
  ∀ command ∈ s.lastCommand, command = .enable ↔ s.csqHandler.currentMode ≠ .HybridPolling

def Follows (s : CsqService) : Prop := s.Settled ∧ s.Commanded

/-- The last retry to be handled, if its command succeeds, is for the mode that is wanted
now. -/
def FreshRetry (s : CsqService) (call : CsqCall) : Prop :=
  match call.message with
  | .RetrySwitchCSQMode =>
      ∀ mode, s.retries = [mode] → s.checked →
        call.modem.switchesTo mode → (mode = .PermanentReporting ↔ s.wantsPermanent)
  | _ => True

end CsqService

end MuditaOS.Cellular
