import Mathlib.Data.UInt

/-!
# The audio inputs

A transcription of `AudioMux.cpp`, with the parts of `AudioCommon.hpp` that it uses. A pointer
to an input is its place among the inputs. Of an `Audio` there is its state and the playback
type of its current operation.
-/

namespace MuditaOS.AudioInputs

/-- `System` and `SingleVibration` are other names of `Notifications`, `Last` of `Bedtime`. -/
inductive PlaybackType where
  | none
  | multimedia
  | notifications
  | keypadSound
  | callRingtone
  | textMessageRingtone
  | meditation
  | alarm
  | preWakeUp
  | snooze
  | focusTimer
  | bedtime
  deriving DecidableEq, Repr

namespace PlaybackType

def singleVibration : PlaybackType := notifications

def last : PlaybackType := bedtime

/-- `static_cast<uint8_t>`. -/
def toUInt8 (type : PlaybackType) : UInt8 := type.ctorIdx.toUInt8

end PlaybackType

/-- `PlaybackTypePriority`, where it has an entry. -/
def playbackTypePriority : PlaybackType → Option UInt8
  | .meditation => some 1
  | .callRingtone => some 2
  | .alarm => some 3
  | .multimedia => some 4
  | .textMessageRingtone => some 5
  | .notifications => some 5
  | .keypadSound => some 6
  | .none => some PlaybackType.last.toUInt8
  | _ => Option.none

inductive State where
  | idle
  | playback
  | recording
  | routing
  deriving DecidableEq, Repr

structure Audio where
  currentState : State
  currentOperationPlaybackType : PlaybackType
  deriving DecidableEq, Repr

/-! ## Tokens -/

structure Token where
  t : Int16
  deriving DecidableEq, Repr

namespace Token

def tokenUninitialized : Int16 := -1

def tokenBad : Int16 := -2

def maxToken : Int16 := 32767

variable (token : Token)

def isValid : Bool := tokenUninitialized < token.t

def isUninitialized : Bool := token.t = tokenUninitialized

def makeBadToken : Token := ⟨tokenBad⟩

def incrementToken : Token := ⟨if token.t = maxToken then 0 else token.t + 1⟩

end Token

/-! ## Inputs -/

inductive VibrationStatus where
  | on
  | off
  deriving DecidableEq, Repr

structure Input where
  audio : Audio
  token : Token
  vibrationOn : VibrationStatus
  deriving DecidableEq, Repr

namespace Input

def enableVibration (input : Input) : Input := { input with vibrationOn := .on }

def disableVibration (input : Input) : Input := { input with vibrationOn := .off }

end Input

structure AudioMux where
  refToken : Token
  audioInputs : List Input

namespace AudioMux

def getPlaybackPriority (type : Option PlaybackType) : UInt8 :=
  (type.bind playbackTypePriority).getD PlaybackType.last.toUInt8

def isMergable : PlaybackType → Bool
  | .none | .notifications | .keypadSound | .textMessageRingtone => true
  | .callRingtone | .meditation | .alarm | .multimedia | .bedtime | .preWakeUp | .snooze
  | .focusTimer => false

/-- The loop of `GetAvailableInput` from place `i` on, with what it has found so far. -/
def availableInputLoop (playbackType : PlaybackType) :
    List Input → Nat → Option Nat → Option Nat → Option Nat
  | [], _, idleInput, overridableInput => idleInput.or overridableInput
  | audioInput :: audioInputs, i, idleInput, overridableInput =>
      let currentPlaybackType := audioInput.audio.currentOperationPlaybackType
      let currentInputPrior := getPlaybackPriority (some currentPlaybackType)
      if audioInput.audio.currentState ≠ .idle then
        if currentInputPrior < getPlaybackPriority (some playbackType) then Option.none
        else if currentPlaybackType = playbackType ∧ isMergable currentPlaybackType then
          -- The candidate is dropped and the loop is left; an idle input is still returned.
          idleInput
        else availableInputLoop playbackType audioInputs (i + 1) idleInput (some i)
      else availableInputLoop playbackType audioInputs (i + 1) (some i) overridableInput

variable (mux : AudioMux)

def getAvailableInput (playbackType : PlaybackType) : Option Nat :=
  availableInputLoop playbackType mux.audioInputs 0 Option.none Option.none

/-- The first input in one of the states. -/
def getInputInState (states : List State) : Option Nat :=
  mux.audioInputs.findIdx? fun input => input.audio.currentState ∈ states

def getInput (token : Token) : Option Nat :=
  if ¬ token.isValid then Option.none
  else mux.audioInputs.findIdx? fun input => token = input.token

def getIdleInput : Option Nat := mux.getInputInState [.idle]

/-- The loop of `GetRoutingInput`, with the place of the lowest priority so far. -/
def lowInputLoop : List Input → Nat → Nat → Audio → Nat
  | [], _, low, _ => low
  | audioInput :: audioInputs, i, low, lowAudio =>
      let lowestPrio := getPlaybackPriority (some lowAudio.currentOperationPlaybackType)
      let currentPrio :=
        getPlaybackPriority (some audioInput.audio.currentOperationPlaybackType)
      if lowestPrio < currentPrio then lowInputLoop audioInputs (i + 1) i audioInput.audio
      else lowInputLoop audioInputs (i + 1) low lowAudio

/-- `force` is for the first input, which there always is. -/
def getRoutingInput (force : Bool) : Option Nat :=
  match mux.getInputInState [.routing] with
  | some input => some input
  | Option.none =>
      match force, mux.audioInputs with
      | true, front :: _ => some (lowInputLoop mux.audioInputs 0 0 front.audio)
      | _, _ => Option.none

def getPlaybackInput (playbackType : PlaybackType) : Option Nat :=
  if (mux.getInputInState [.routing, .recording]).isSome then Option.none
  else mux.getAvailableInput playbackType

def getActiveInput : Option Nat :=
  match mux.getInputInState [.routing] with
  | some input => some input
  | Option.none => mux.audioInputs.findIdx? fun input => input.audio.currentState ≠ .idle

/-- What is done to the input at a place. -/
def onInput (input : Nat) (f : Input → Input) : AudioMux :=
  { mux with audioInputs := mux.audioInputs.modify input f }

def resetInput (input : Nat) : Token × AudioMux :=
  let refToken := mux.refToken.incrementToken
  (refToken, { mux.onInput input fun i => { i.disableVibration with token := refToken } with
    refToken := refToken })

end AudioMux

end MuditaOS.AudioInputs
