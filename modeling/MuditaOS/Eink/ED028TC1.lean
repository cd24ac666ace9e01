import Mathlib
import MuditaOS.Gui.Context

/-!
# The display driver

A transcription of `EinkBufferTransformation.cpp`, `EinkDimensions.cpp`, of `updateFrame`
and `refreshImage` of `ED028TC1.cpp`, and of `EinkDisplay.cpp`. The picture is sent with
four bits a pixel, two pixels a byte, turned into the coordinates of the panel, on a board
that mounts the panel turned by a quarter; `transformFrameCoordinateSystemNoRotation4Bpp`
is what a board with an upright panel uses in its place. The panel's own controller is not
part of the sources: it is a `Controller`, with what its commands do as its laws.
-/

namespace MuditaOS.Eink

open MuditaOS.Gui

structure FrameSize where
  width : Nat
  height : Nat
  deriving DecidableEq, Repr

structure EinkFrame where
  pos_x : Nat
  pos_y : Nat
  size : FrameSize
  deriving DecidableEq, Repr

inductive EinkDisplayColorMode
  | standard
  | inverted
  deriving DecidableEq, Repr

/-- `BOARD_EINK_DISPLAY_RES_X` and `BOARD_EINK_DISPLAY_RES_Y`. -/
structure Board where
  resX : Nat
  resY : Nat
  alignedX : 8 ∣ resX
  alignedY : 8 ∣ resY
  boundX : resX < 65536
  boundY : resY < 65536

def puretx : Board := ⟨480, 600, by decide, by decide, by decide, by decide⟩

/-! ## The order of the pixels -/

/-- `dataIn[index]` of the buffer. -/
abbrev pixelAt (dataIn : List UInt8) (index : Nat) : UInt32 := (dataIn.getD index 0).toUInt32

/-- The values of `inputRow` from `first` down to seven. -/
def inputRows (first : Nat) : List Nat :=
  if 7 ≤ first then first :: inputRows (first - 8) else []
termination_by first

/-- A `uint32_t` as it stands in memory. -/
def littleEndian (v : UInt32) : List UInt8 :=
  [v.toUInt8, (v >>> 8).toUInt8, (v >>> 16).toUInt8, (v >>> 24).toUInt8]

/-- The first pixel of each pair in the high half. -/
def pack (p : Nat → UInt32) : UInt32 :=
  let firstPixelPair := (p 0 <<< 4) ||| p 1
  let secondPixelPair := (p 2 <<< 4) ||| p 3
  let thirdPixelPair := (p 4 <<< 4) ||| p 5
  let fourthPixelPair := (p 6 <<< 4) ||| p 7
  (firstPixelPair <<< 0) ||| (secondPixelPair <<< 8) ||| (thirdPixelPair <<< 16) |||
    (fourthPixelPair <<< 24)

def invert (invertColors : EinkDisplayColorMode) (pixels : UInt32) : UInt32 :=
  match invertColors with
  | .inverted => ~~~pixels
  | .standard => pixels

def transformFrameCoordinateSystem4Bpp (resX : Nat) (dataIn : List UInt8)
    (windowWidthPx windowHeightPx : Nat) (invertColors : EinkDisplayColorMode) : List UInt8 :=
  (List.range windowWidthPx).reverse.flatMap fun inputCol =>
    (inputRows (windowHeightPx - 1)).flatMap fun inputRow =>
      let index := inputRow * resX + inputCol
      littleEndian (invert invertColors (pack fun k => pixelAt dataIn (index - k * resX)))

/-- The values of `inputCol` from `first` down to zero. -/
def inputCols (first : Int) : List Nat :=
  if 0 ≤ first then first.toNat :: inputCols (first - 8) else []
termination_by (first + 1).toNat
decreasing_by omega

def Board.getDisplayXAxis (board : Board) (frame : EinkFrame) : Nat :=
  board.resY - frame.pos_y - frame.size.height

def Board.getDisplayYAxis (board : Board) (frame : EinkFrame) : Nat :=
  board.resX - frame.pos_x - frame.size.width

def getDisplayWindowWidth (frame : EinkFrame) : Nat := frame.size.height

def getDisplayWindowHeight (frame : EinkFrame) : Nat := frame.size.width

/-- A number's high and low byte, as the commands carry it. -/
def msbLsb (v : Nat) : List UInt8 := [UInt8.ofNat (v >>> 8), UInt8.ofNat v]

structure Window where
  x : Nat
  y : Nat
  width : Nat
  height : Nat
  deriving DecidableEq, Repr

def Window.arguments (window : Window) : List UInt8 :=
  msbLsb window.x ++ msbLsb window.y ++ msbLsb window.width ++ msbLsb window.height

def Board.window (board : Board) (frame : EinkFrame) : Window where
  x := board.getDisplayXAxis frame
  y := board.getDisplayYAxis frame
  width := getDisplayWindowWidth frame
  height := getDisplayWindowHeight frame

def einkDataStartTransmissionWindow : UInt8 := 0x83

def einkDataStartTransmission1 : UInt8 := 0x10

def einkDisplayRefresh : UInt8 := 0x12

def updCpyToPre : UInt8 := 8

/-- `bpp - 1`. -/
def eink4Bpp : UInt8 := 3

/-- The pixels of a message, two a byte. -/
def nibbles (data : List UInt8) : List UInt8 :=
  data.flatMap fun (b : UInt8) => [b >>> 4, b &&& 15]

def Window.Holds (window : Window) (column line : Nat) : Prop :=
  window.x ≤ column ∧ column < window.x + window.width ∧
    window.y ≤ line ∧ line < window.y + window.height

instance {window : Window} {column line : Nat} : Decidable (window.Holds column line) :=
  inferInstanceAs (Decidable (_ ∧ _))

/-- The panel's controller: its picture memory and its screen, by column and line, and what
the commands do to them. Choosing a waveform and dithering to four bits leave a picture of
four bits as it is. -/
structure Controller where
  State : Type
  memory : State → Nat → Nat → UInt8
  screen : State → Nat → Nat → UInt8
  prepare : Bool → State → State
  load : List UInt8 → List UInt8 → State → State
  refresh : List UInt8 → State → State
  memory_prepare : ∀ deep s, memory (prepare deep s) = memory s
  screen_prepare : ∀ deep s, screen (prepare deep s) = screen s
  memory_load : ∀ (window : Window) data s column line,
    window.x < 65536 → window.y < 65536 → window.width < 65536 → window.height < 65536 →
    (nibbles data).length = window.width * window.height →
    memory (load (einkDataStartTransmissionWindow :: window.arguments)
        (einkDataStartTransmission1 :: eink4Bpp :: data) s) column line =
      if window.Holds column line then
        (nibbles data).getD ((line - window.y) * window.width + (column - window.x)) 0
      else memory s column line
  screen_load : ∀ command message s, screen (load command message s) = screen s
  memory_refresh : ∀ command s, memory (refresh command s) = memory s
  screen_refresh : ∀ (window : Window) s column line,
    window.x < 65536 → window.y < 65536 → window.width < 65536 → window.height < 65536 →
    screen (refresh (einkDisplayRefresh :: updCpyToPre :: window.arguments) s) column line =
      if window.Holds column line then memory s column line else screen s column line

/-! ## The display -/

inductive EinkRefreshMode
  | refreshNone
  | refreshFast
  | refreshDeep
  deriving DecidableEq, Repr

def EinkRefreshMode.toNat : EinkRefreshMode → Nat
  | .refreshNone => 0
  | .refreshFast => 1
  | .refreshDeep => 2

/-- What the transfers of a call come to: the panel an error leaves behind can hold and show
anything. -/
inductive EinkStatus (controller : Controller)
  | einkOK
  | error (panel : controller.State)

section

variable {controller : Controller} (board : Board)

/-- The message is as long as the frame asks for; the transformation writes that much when the
height is a multiple of eight. -/
def updateFrame (frame : EinkFrame) (buffer : List UInt8) (invertColors : EinkDisplayColorMode)
    (panel : controller.State) : controller.State :=
  let pixelsInByte := 2
  let rotated := transformFrameCoordinateSystem4Bpp board.resX buffer frame.size.width
    frame.size.height invertColors
  let msgSize := 2 + frame.size.width * frame.size.height / pixelsInByte
  controller.load (einkDataStartTransmissionWindow :: (board.window frame).arguments)
    ((einkDataStartTransmission1 :: eink4Bpp :: rotated).take msgSize) panel

def refreshImage (frame : EinkFrame) (panel : controller.State) : controller.State :=
  controller.refresh (einkDisplayRefresh :: updCpyToPre :: (board.window frame).arguments) panel

/-- The transfers of `showImageUpdate`, one frame after the other. -/
def showImageUpdate (updateFrames : List EinkFrame) (frameBuffer : List UInt8)
    (displayMode : EinkDisplayColorMode) (panel : controller.State) : controller.State :=
  updateFrames.foldl (fun panel frame =>
    let buffer := frameBuffer.drop (frame.pos_y * frame.size.width)
    updateFrame board frame buffer displayMode panel) panel

/-- With its preparation. -/
def showImageRefresh (refreshFrame : EinkFrame) (refreshMode : EinkRefreshMode)
    (panel : controller.State) : controller.State :=
  refreshImage board refreshFrame (controller.prepare (refreshMode = .refreshDeep) panel)

end

end MuditaOS.Eink
