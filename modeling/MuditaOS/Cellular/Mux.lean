import MuditaOS.Cellular.MuxFrame
import Mathlib

/-!
# The receiving half of `CellularMux`

`parseCellularResultCMUX` cuts the byte stream of the modem into frames. Its two
static variables live across calls and are the state here, next to the list of
results handed to `sendFrameToChannel`.
-/

namespace MuditaOS.Cellular

/-- `bsp::cellular::CellularResultCode`. -/
inductive CellularResultCode where
  | Uninitialized | ReceivedAndIdle | ReceivedAndFull | ReceivedAfterFull
  | ReceivingNotStarted | ReceivedNoData | TransmittingNotStarted
  | CMUXFrameError
  deriving DecidableEq, Repr

def cellularResultStructMaxDataSize : Nat := 128

structure CellularDMAResultStruct where
  resultCode : CellularResultCode := .ReceivedNoData
  dataSize : Nat := 0
  data : Vector UInt8 cellularResultStructMaxDataSize

structure CellularResultStruct where
  resultCode : CellularResultCode := .Uninitialized
  data : List UInt8
  deriving DecidableEq, Repr

/-- The statics of `parseCellularResultCMUX`, and what it has handed over. -/
structure MuxRx where
  currentFrame : List UInt8 := []
  frameStartDetected : Bool := false
  handed : List CellularResultStruct := []
  deriving DecidableEq, Repr

/-- The loop body: one received character. -/
def MuxRx.parseCharacter (st : MuxRx) (resultCode : CellularResultCode)
    (character : UInt8) : MuxRx :=
  if st.frameStartDetected || character == ts0710Flag then
    let currentFrame := st.currentFrame ++ [character]
    if st.frameStartDetected && character == ts0710Flag then
      let currentFrame :=
        if currentFrame.length = 2 then currentFrame.drop 1 else currentFrame
      if isComplete currentFrame then
        { currentFrame := []
          frameStartDetected := false
          handed := st.handed ++ [⟨resultCode, currentFrame⟩] }
      else { st with currentFrame := currentFrame, frameStartDetected := true }
    else { st with currentFrame := currentFrame, frameStartDetected := true }
  else st

/-- The loop over `gsl::at(result.data, i)`, which terminates the program when
`i` is outside the array. -/
def MuxRx.parseLoop (result : CellularDMAResultStruct) :
    Nat → Nat → MuxRx → Option MuxRx
  | 0, _, st => some st
  | n + 1, i, st => (result.data[i]?).bind fun character =>
      parseLoop result n (i + 1) (st.parseCharacter result.resultCode character)

def MuxRx.parseCellularResultCMUX (st : MuxRx)
    (result : CellularDMAResultStruct) : Option MuxRx :=
  MuxRx.parseLoop result result.dataSize 0 st

end MuditaOS.Cellular

/-! ## Sending user data through a channel

A transcription of the request path of `CellularMuxData.cpp`. The iterator into
the user data is an offset; a range that does not lie in the vector is `none`.
The size goes into an `int`, so what is left of a vector is an integer.
-/

namespace MuditaOS.Cellular

def maximumFrameLength : Nat := 127

/-- The header fields that `request` gives to all its frames; a `DLCI_t` is an
`int`. -/
def uihFrame (dlci : Int) (data : List UInt8) : Frame where
  address := UInt8.ofInt (dlci * 2 ^ 2)
  control := TypeOfFrame.UIH.value
  data := data

/-- `while (parts-- != 0)`, with the frames it writes. -/
def requestLoop (dlci : Int) (userData : List UInt8) :
    Nat → Int → Nat → Option (List Frame)
  | 0, _, _ => some []
  | parts + 1, dataLeft, i =>
      let step : Int := if dataLeft ≤ maximumFrameLength then dataLeft
        else maximumFrameLength
      if 0 ≤ step ∧ i + step ≤ userData.length then
        (requestLoop dlci userData parts (dataLeft - step) (i + step.toNat)).map
          (uihFrame dlci ((userData.drop i).take step.toNat) :: ·)
      else none

/-- The frames that `request` serializes and writes. -/
def requestFrames (dlci : Int) (userData : List UInt8) : Option (List Frame) :=
  if userData.length ≤ maximumFrameLength then some [uihFrame dlci userData]
  else
    requestLoop dlci userData
      ((userData.length / maximumFrameLength + 1) % 2 ^ 32)
      (Int.bmod userData.length (2 ^ 32)) 0

/-- `CellularMuxData::request`: what is written to the modem, one vector for each
frame. -/
def request (dlci : Int) (userData : List UInt8) : Option (List (List UInt8)) :=
  (requestFrames dlci userData).bind fun frames => frames.mapM Frame.serialize

end MuditaOS.Cellular
