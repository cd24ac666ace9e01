import Mathlib.Data.UInt
import Mathlib.Data.Int.Init

/-!
# The phone lock

A transcription of `PhoneLockHandler.cpp`, without what it shows on the display
and what it writes to the settings. A handler that compares a passcode with the
stored hash says so in its result: `some true` where they were equal. `time_t` is
a signed number of 64 bits, taken to wrap around.
-/

namespace MuditaOS.Locks

inductive LockState where
  | Unlocked | InputRequired | InputInvalid | Blocked | NewInputRequired
  | NewInputConfirmRequired | NewInputInvalid | ErrorOccurred
  deriving DecidableEq, Repr

structure Lock where
  lockState : LockState
  attemptsLeft : Nat
  deriving DecidableEq, Repr

def Lock.unlimitedNumOfAttempts : Nat := 2 ^ 32 - 1

inductive PhoneLockInputTypeAction where
  | Unlock | Enable | Disable | ConfirmCurrent | Change | Set
  deriving DecidableEq, Repr

inductive PhoneState where
  | Locked | Unlocked
  deriving DecidableEq, Repr

inductive RequestReason where
  | Default | MTPUnlock
  deriving DecidableEq, Repr

abbrev LockInput := List UInt32

def digitMultiplier : UInt32 := 10

def getHash (input : LockInput) : UInt32 :=
  input.foldl (fun value i => digitMultiplier * value + i) 0

def initialNoLockTimeAttemptsLeft : Nat := 3

def initialLockTime : Int := 15

def phoneLockTimeMultiplier : Int := 2

/-- A result of `time_t` arithmetic. -/
def timeT (x : Int) : Int := Int.bmod x (2 ^ 64)

structure PhoneLockHandler where
  lock : Lock
  phoneLockEnabled : Bool
  phoneState : PhoneState
  phoneLockInputTypeAction : PhoneLockInputTypeAction
  phoneLockHash : UInt32
  storedInputData : LockInput
  /-- Whether `phoneLockTimer` runs. -/
  phoneLockTimer : Bool
  lockedFor : Int
  nextUnlockAttemptLockTime : Int
  deriving DecidableEq, Repr

namespace PhoneLockHandler

/-- A handler as constructed, the passcode's hash loaded. -/
def initial (phoneLockHash : UInt32) : PhoneLockHandler where
  lock := ⟨.InputRequired, initialNoLockTimeAttemptsLeft⟩
  phoneLockEnabled := true
  phoneState := .Locked
  phoneLockInputTypeAction := .Unlock
  phoneLockHash := phoneLockHash
  storedInputData := []
  phoneLockTimer := false
  lockedFor := 0
  nextUnlockAttemptLockTime := 0

variable (h : PhoneLockHandler)

def setLockState (lockState : LockState) : PhoneLockHandler :=
  { h with lock := { h.lock with lockState := lockState } }

def setAttemptsLeft (attemptsLeft : Nat) : PhoneLockHandler :=
  { h with lock := { h.lock with attemptsLeft := attemptsLeft } }

/-- The callback of `phoneLockTimer`. -/
def onTimer : PhoneLockHandler :=
  if h.lockedFor = 0 then { h with phoneLockTimer := false }
  else { h with lockedFor := timeT (h.lockedFor - 1) }

def setPhoneLockInputTypeAction (action : PhoneLockInputTypeAction) : PhoneLockHandler :=
  if h.phoneLockInputTypeAction = action then h
  else
    { h.setAttemptsLeft initialNoLockTimeAttemptsLeft with
      phoneLockInputTypeAction := action
      storedInputData := [] }

def increaseLockTime : PhoneLockHandler :=
  let next := if h.nextUnlockAttemptLockTime = 0 then initialLockTime
    else timeT (h.nextUnlockAttemptLockTime * phoneLockTimeMultiplier)
  { h with
    nextUnlockAttemptLockTime := next
    lockedFor := next
    phoneLockTimer := true }

def resetLockTime : PhoneLockHandler :=
  { h with lockedFor := 0, nextUnlockAttemptLockTime := 0, phoneLockTimer := false }

/-! ## Actions -/

def phoneUnlockAction : PhoneLockHandler := { h with phoneState := .Unlocked }

def setPhoneLockInSettings : PhoneLockHandler :=
  { h with phoneLockHash := getHash h.storedInputData }

def setPhoneLockAvailabilityInSettings (value : Bool) : PhoneLockHandler :=
  { h with phoneLockEnabled := value }

def phoneLockChangeAction : PhoneLockHandler := h.setPhoneLockInSettings

def phoneLockEnableAction : PhoneLockHandler :=
  (h.setPhoneLockAvailabilityInSettings true).phoneLockChangeAction

def phoneLockDisableAction : PhoneLockHandler :=
  h.setPhoneLockAvailabilityInSettings false

def phoneLockSetAction : PhoneLockHandler :=
  ((h.setPhoneLockAvailabilityInSettings true).setPhoneLockInSettings).setLockState
    .NewInputRequired

def checkNewPhoneLock : PhoneLockHandler :=
  ((h.setPhoneLockInputTypeAction .Change).setLockState .NewInputRequired).setAttemptsLeft
    Lock.unlimitedNumOfAttempts

def resolvePhoneLockAction : PhoneLockHandler :=
  match h.phoneLockInputTypeAction with
  | .Unlock => h.phoneUnlockAction
  | .Enable => h.phoneLockEnableAction
  | .Disable => h.phoneLockDisableAction
  | .ConfirmCurrent => h.checkNewPhoneLock
  | .Change => h.phoneLockChangeAction
  | .Set => h.phoneLockSetAction

/-! ## Message handlers -/

def handleLockRequest : PhoneLockHandler :=
  { (h.setLockState .InputRequired).setAttemptsLeft initialNoLockTimeAttemptsLeft with
    phoneState := .Locked }

def handleUnlockRequest (reqReason : RequestReason) : PhoneLockHandler :=
  let h := h.setPhoneLockInputTypeAction .Unlock
  if !h.phoneLockEnabled then h.phoneUnlockAction
  else if h.lock.lockState = .Blocked then
    if h.lockedFor ≠ 0 ∧ reqReason = .MTPUnlock then h
    else if h.lockedFor = 0 then h.setLockState .InputRequired
    else h
  else if h.lock.lockState ≠ .Unlocked then h.setLockState .InputRequired
  else h

/-- It closes popups only. -/
def handleUnlockCancelRequest : PhoneLockHandler := h

/-- The passcode is compared here and nowhere else. -/
def processPhoneLockHashCode (inputData : LockInput) : PhoneLockHandler × Bool :=
  let hash := getHash inputData
  let h := if 0 < h.lock.attemptsLeft then h.setAttemptsLeft (h.lock.attemptsLeft - 1) else h
  if h.phoneLockHash = hash then
    (((h.setLockState .Unlocked).setAttemptsLeft initialNoLockTimeAttemptsLeft).resetLockTime,
      true)
  else if 0 < h.lock.attemptsLeft then (h.setLockState .InputInvalid, false)
  else (h.increaseLockTime.setLockState .Blocked, false)

def verifyPhoneUnlockInput (inputData : LockInput) : PhoneLockHandler × Option Bool :=
  let (h, right) := h.processPhoneLockHashCode inputData
  if h.lock.lockState = .Unlocked then (h.resolvePhoneLockAction, some right)
  else (h, some right)

def verifyPhoneLockChangeInput (inputData : LockInput) : PhoneLockHandler :=
  if h.lock.lockState = .NewInputRequired ∨ h.lock.lockState = .NewInputInvalid then
    { h with storedInputData := inputData }.setLockState .NewInputConfirmRequired
  else if h.lock.lockState = .NewInputConfirmRequired then
    if h.storedInputData = inputData then h.resolvePhoneLockAction
    else h.setLockState .NewInputInvalid
  else h

def handlePhoneLockInput (inputData : LockInput) : PhoneLockHandler × Option Bool :=
  if h.phoneLockInputTypeAction = .Enable ∨ h.phoneLockInputTypeAction = .Change ∨
      h.phoneLockInputTypeAction = .Set then
    (h.verifyPhoneLockChangeInput inputData, none)
  else h.verifyPhoneUnlockInput inputData

def handleExternalUnlockRequest (inputData : LockInput) : PhoneLockHandler × Option Bool :=
  if !h.phoneLockEnabled then (h.phoneUnlockAction, none)
  else if h.lock.lockState = .Blocked ∧ h.lockedFor ≠ 0 then (h, none)
  else
    let (h, right) := h.processPhoneLockHashCode inputData
    if h.lock.lockState = .Unlocked then (h.phoneUnlockAction, some right)
    else (h, some right)

/-! ## The lock screen's messages -/

/-- The messages that lock and unlock the phone, and the tick of its timer. -/
inductive Message where
  | LockPhone
  | UnlockPhone
  | UnlockPhoneForMTP
  | CancelUnlockPhone
  | UnlockPhoneInput (inputData : LockInput)
  | ExternalUnlockPhone (inputData : LockInput)
  | timerTick

/-- A tick reaches the callback while the timer runs. -/
def handle : Message → PhoneLockHandler × Option Bool
  | .LockPhone => (h.handleLockRequest, none)
  | .UnlockPhone => (h.handleUnlockRequest .Default, none)
  | .UnlockPhoneForMTP => (h.handleUnlockRequest .MTPUnlock, none)
  | .CancelUnlockPhone => (h.handleUnlockCancelRequest, none)
  | .UnlockPhoneInput inputData => h.handlePhoneLockInput inputData
  | .ExternalUnlockPhone inputData => h.handleExternalUnlockRequest inputData
  | .timerTick => (if h.phoneLockTimer then h.onTimer else h, none)

end PhoneLockHandler

end MuditaOS.Locks
