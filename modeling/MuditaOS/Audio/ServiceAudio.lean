import MuditaOS.Audio.AudioMux

/-!
# The audio service

A transcription of the requests of `ServiceAudio.cpp` that start, pause, resume and stop the
inputs, with the part of `Audio.cpp` that they use. What the operations answer is an argument of
each request, and so are the settings that it reads. Of the messages to other services there are
those that start and stop the motor.
-/

namespace MuditaOS.AudioInputs

inductive RetCode where
  | success
  | invokedInIncorrectState
  | unsupportedProfile
  | unsupportedEvent
  | invalidFormat
  | operationCreateFailed
  | fileDoesntExist
  | failedToAllocateMemory
  | operationNotSet
  | profileNotSet
  | deviceFailure
  | tokenNotFound
  | ignored
  | failed
  deriving DecidableEq, Repr

namespace Operation

inductive Kind where
  | idle
  | playback
  | recorder
  | router
  deriving DecidableEq, Repr

end Operation

/-! ## Audio -/

/-- What comes of the start of an operation. -/
inductive Started where
  | notCreated (errorCode : RetCode)
  | ran (retCode : RetCode)
  /-- An `AudioInitException` out of the operation. -/
  | threw
  deriving DecidableEq, Repr

namespace Audio

/-- The type of the current operation, which is told by the state. -/
def operationType (audio : Audio) : Operation.Kind :=
  match audio.currentState with
  | .idle => .idle
  | .playback => .playback
  | .recording => .recorder
  | .routing => .router

def init : Audio := ⟨.idle, .none⟩

/-- Only an operation for playback keeps the type. -/
def created (audio : Audio) (op : Operation.Kind) (playbackType : PlaybackType) : Audio :=
  match op with
  | .idle => ⟨audio.currentState, .none⟩
  | .playback => ⟨.playback, playbackType⟩
  | .recorder => ⟨.recording, .none⟩
  | .router => ⟨.routing, .none⟩

/-- `none` is the exception. -/
def start (audio : Audio) (op : Operation.Kind) (playbackType : PlaybackType)
    (result : Started) : Option RetCode × Audio :=
  match result with
  | .notCreated errorCode => (some errorCode, init)
  | .ran retCode => (some retCode, audio.created op playbackType)
  | .threw => (none, audio.created op playbackType)

/-- `Start` without arguments. -/
def restart (audio : Audio) (result : Started) : Option RetCode × Audio :=
  audio.start audio.operationType audio.currentOperationPlaybackType result

/-- `idleCreated` tells whether there is an operation to take the place of the stopped one. -/
def stop (audio : Audio) (idleCreated : Bool) : RetCode × Audio :=
  if audio.currentState = .idle then (.success, audio)
  else if idleCreated then (.success, init)
  else (.operationCreateFailed, audio)

/-- `Pause` and `Resume` of the operation, which answers `retCode`. -/
def onOperation (audio : Audio) (retCode : RetCode) : RetCode :=
  if audio.currentState = .idle then .invokedInIncorrectState else retCode

end Audio

/-! ## The service -/

inductive VibrationRequest where
  | vibrationStop
  | vibrationPulseOnce
  | vibrationPulseRepeatUntilStop
  deriving DecidableEq, Repr

structure ServiceAudio where
  audioMux : AudioMux
  vibrationMotorStatus : VibrationStatus
  /-- What the event manager was asked for, the last one first. -/
  requests : List VibrationRequest

/-- What a request finds in the settings, and what comes of the operations it calls. -/
structure Surroundings where
  enableVibration : PlaybackType → Bool
  enableSound : PlaybackType → Bool
  bluetoothVoiceProfileConnected : Bool
  /-- `ENABLE_PLAYBACK_AUTO_REPEAT` of the build. -/
  autoRepeat : Bool
  started : Started
  /-- For the input at each place. -/
  idleCreated : Nat → Bool
  retCode : RetCode

inductive VibrationType where
  | none
  | oneShot
  | continuous
  deriving DecidableEq, Repr

def vibrationMap : VibrationType → List PlaybackType
  | .none => []
  | .continuous => [.callRingtone, .alarm]
  | .oneShot => [.notifications, .textMessageRingtone, .singleVibration]

def isResumable (type : PlaybackType) : Bool := type = .multimedia

def shouldLoop (autoRepeat : Bool) (type : PlaybackType) : Bool :=
  type = .callRingtone ∨ type = .alarm ∨ (autoRepeat ∧ type = .multimedia)

namespace AudioMux

def addInputs : Nat → AudioMux → AudioMux
  | 0, mux => mux
  | n + 1, mux =>
      let refToken := mux.refToken.incrementToken
      addInputs n ⟨refToken, mux.audioInputs ++ [⟨.init, refToken, .off⟩]⟩

/-- There is one input at the least. -/
def make (audioInputsCount : Nat) : AudioMux :=
  addInputs (if 0 < audioInputsCount then audioInputsCount else 1)
    ⟨⟨Token.tokenUninitialized⟩, []⟩

end AudioMux

namespace ServiceAudio

def make (audioInputsCount : Nat) : ServiceAudio := ⟨.make audioInputsCount, .off, []⟩

variable (s : ServiceAudio) (given : Surroundings)

/-- The input at a place. -/
def input? (input : Nat) : Option Input := s.audioMux.audioInputs[input]?

def onInput (input : Nat) (f : Input → Input) : ServiceAudio :=
  { s with audioMux := s.audioMux.onInput input f }

/-- `getSetting` of a setting that is a `Bool`, and false where there is none. For no type it is
that of the active input. -/
def getSetting (setting : PlaybackType → Bool) (type : PlaybackType) : Bool :=
  if type = .none then
    match s.audioMux.getActiveInput.bind s.input? with
    | some input => setting input.audio.currentOperationPlaybackType
    | none => false
  else setting type

def isVibrationEnabled (type : PlaybackType) : Bool := s.getSetting given.enableVibration type

def isOperationEnabled (plType : PlaybackType) (opType : Operation.Kind) : Bool :=
  if opType = .router ∨ opType = .recorder then true else s.getSetting given.enableSound plType

/-! ### The motor -/

def isVibrationMotorOn : Bool := s.vibrationMotorStatus = .on

def getVibrationType (type : PlaybackType) : VibrationType :=
  if ¬ s.isVibrationEnabled given type then .none
  else if type ∈ vibrationMap .continuous then .continuous
  else if type ∈ vibrationMap .oneShot then .oneShot
  else .none

def disableVibration (input : Option Nat) : ServiceAudio :=
  let s :=
    if s.isVibrationMotorOn then
      { s with
        vibrationMotorStatus := .off
        requests := .vibrationStop :: s.requests }
    else s
  match input with
  | some input => s.onInput input Input.disableVibration
  | none => s

def enableOneShotVibration : ServiceAudio :=
  if ¬ s.isVibrationMotorOn then { s with requests := .vibrationPulseOnce :: s.requests } else s

def enableContinuousVibration (input : Option Nat) : ServiceAudio :=
  let s :=
    match input with
    | some input => s.onInput input Input.enableVibration
    | none => s
  let anyOfInputsOn := s.audioMux.audioInputs.any fun i => i.vibrationOn = .on
  if anyOfInputsOn ∧ ¬ s.isVibrationMotorOn then
    { s with
      vibrationMotorStatus := .on
      requests := .vibrationPulseRepeatUntilStop :: s.requests }
  else s

def vibrationUpdate (type : PlaybackType) (input : Option Nat) : ServiceAudio :=
  match s.getVibrationType given type with
  | .none => s.disableVibration input
  | .oneShot => s.enableOneShotVibration
  | .continuous => s.enableContinuousVibration input

/-- `VibrationUpdate` with its default arguments. -/
def vibrationUpdateDefault : ServiceAudio := s.vibrationUpdate given .none none

/-! ### The requests -/

def stopInput (input : Nat) : RetCode × ServiceAudio :=
  match s.input? input with
  | none => (.success, s)
  | some i =>
      if i.audio.currentState = .idle then (.success, s)
      else
        let (retCode, audio) := i.audio.stop (given.idleCreated input)
        let s := s.onInput input fun i => { i with audio }
        let s := { s with audioMux := (s.audioMux.resetInput input).2 }
        (retCode, s.vibrationUpdateDefault given)

/-- Stops, one after the other, the inputs at the places that are to be stopped. -/
def stopInputs (stops : Input → Bool) : List Nat → ServiceAudio →
    List (Token × RetCode) × ServiceAudio
  | [], s => ([], s)
  | place :: places, s =>
      match s.input? place with
      | none => stopInputs stops places s
      | some input =>
          if stops input then
            let (retCode, s) := s.stopInput given place
            let (retCodes, s) := stopInputs stops places s
            ((input.token, retCode) :: retCodes, s)
          else stopInputs stops places s

def allInputs : List Nat := List.range s.audioMux.audioInputs.length

def handlePause (token : Token) : (RetCode × Token) × ServiceAudio :=
  match s.audioMux.getInput token with
  | none => ((.tokenNotFound, .makeBadToken), s)
  | some place =>
      match s.input? place with
      | none => ((.tokenNotFound, .makeBadToken), s)
      | some audioInput =>
          let (reply, s) :=
            if isResumable audioInput.audio.currentOperationPlaybackType then
              ((audioInput.audio.onOperation given.retCode, audioInput.token),
                s.onInput place Input.disableVibration)
            else
              let (retCode, s) := s.stopInput given place
              ((retCode, ⟨Token.tokenUninitialized⟩), s)
          (reply, s.vibrationUpdateDefault given)

def handleResume (token : Token) : (RetCode × Token) × ServiceAudio :=
  match s.audioMux.getInput token with
  | none => ((.tokenNotFound, .makeBadToken), s)
  | some place =>
      match s.input? place with
      | none => ((.tokenNotFound, .makeBadToken), s)
      | some input =>
          ((input.audio.onOperation given.retCode, token),
            s.vibrationUpdate given input.audio.currentOperationPlaybackType (some place))

/-- The lambda `AudioStart` of `HandleStart`. -/
def audioStart (opType : Operation.Kind) (playbackType : PlaybackType) (input : Option Nat) :
    (RetCode × Token) × ServiceAudio :=
  let (reply, s) :=
    match input with
    | none => ((RetCode.failed, Token.makeBadToken), s)
    | some place =>
        let (_, s) := stopInputs given (fun _ => true) s.allInputs s
        let (retToken, audioMux) := s.audioMux.resetInput place
        let s := { s with audioMux }
        match s.input? place with
        | none => ((.failed, retToken), s)
        | some i =>
            if s.isOperationEnabled given playbackType opType then
              let (retCode, audio) := i.audio.start opType playbackType given.started
              ((retCode.getD .failedToAllocateMemory, retToken),
                s.onInput place fun i => { i with audio })
            else ((.failed, retToken), s)
  (reply, s.vibrationUpdate given playbackType input)

def handleStart (opType : Operation.Kind) (playbackType : PlaybackType) :
    (RetCode × Token) × ServiceAudio :=
  match opType with
  | .playback =>
      let input := s.audioMux.getPlaybackInput playbackType
      if playbackType = .callRingtone ∧ given.bluetoothVoiceProfileConnected ∧ input.isSome then
        ((.success, .makeBadToken), s.vibrationUpdate given playbackType input)
      else s.audioStart given opType playbackType input
  | .recorder => s.audioStart given opType playbackType s.audioMux.getIdleInput
  | .router => s.audioStart given opType playbackType (s.audioMux.getRoutingInput true)
  | .idle => ((.operationNotSet, .makeBadToken), s)

/-- What is stopped, unless the token is valid and no input has it. -/
def stopRequested (stopTypes : List PlaybackType) (token : Token) :
    Option (List (Token × RetCode) × ServiceAudio) :=
  match s.audioMux.getInput token with
  | some place =>
      let (retCode, s) := s.stopInput given place
      some ([(token, retCode)], s)
  | none =>
      if token.isValid then none
      else if stopTypes ≠ [] then
        some (stopInputs given (fun i => i.audio.currentOperationPlaybackType ∈ stopTypes)
          s.allInputs s)
      else if token.isUninitialized then some (stopInputs given (fun _ => true) s.allInputs s)
      else some ([], s)

def handleStop (stopTypes : List PlaybackType) (token : Token) :
    (RetCode × Token) × ServiceAudio :=
  match s.stopRequested given stopTypes token with
  | none => ((.tokenNotFound, .makeBadToken), s)
  | some (retCodes, s) =>
      match retCodes.find? fun p => p.2 ≠ .success with
      | some (token, retCode) => ((retCode, token), s)
      | none => ((.success, token), s.vibrationUpdateDefault given)

def handleEOF (token : Token) : ServiceAudio :=
  match s.audioMux.getInput token with
  | none => s
  | some place =>
      match s.input? place with
      | none => s
      | some input =>
          if shouldLoop given.autoRepeat input.audio.currentOperationPlaybackType then
            s.onInput place fun i => { i with audio := (input.audio.restart given.started).2 }
          else (s.stopInput given place).2

def handleFileDeleted (token : Token) : ServiceAudio :=
  match s.audioMux.getInput token with
  | none => s
  | some place => (s.stopInput given place).2

end ServiceAudio

inductive Request where
  | start (opType : Operation.Kind) (playbackType : PlaybackType)
  | pause (token : Token)
  | resume (token : Token)
  | stop (stopTypes : List PlaybackType) (token : Token)
  | eof (token : Token)
  | fileDeleted (token : Token)

/-- One request, in what surrounds it. -/
structure Call where
  request : Request
  surroundings : Surroundings

namespace ServiceAudio

def handle (s : ServiceAudio) (call : Call) : ServiceAudio :=
  match call.request with
  | .start opType playbackType => (s.handleStart call.surroundings opType playbackType).2
  | .pause token => (s.handlePause call.surroundings token).2
  | .resume token => (s.handleResume call.surroundings token).2
  | .stop stopTypes token => (s.handleStop call.surroundings stopTypes token).2
  | .eof token => s.handleEOF call.surroundings token
  | .fileDeleted token => s.handleFileDeleted call.surroundings token

end ServiceAudio

end MuditaOS.AudioInputs
