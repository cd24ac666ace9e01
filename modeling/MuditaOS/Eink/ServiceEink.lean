import MuditaOS.Eink.ED028TC1

/-!
# The display service

A transcription of `ServiceEink.cpp`: the frames to send are those of the lines that differ
from the context sent before, and the areas to refresh are gathered until the service gets
to refreshing, which it asks itself to do by a message so that a cancellation can come
before. The status of the transfers a message leads to is part of the message's event. The
timer that switches the panel off and the sentinel that holds the frequency are left out.
-/

namespace MuditaOS.Eink

open MuditaOS.Gui

/-! ## Frames -/

/-- The gap and the joined height are `uint32_t`. -/
def mergeFrom (gapThreshold : Nat) (merged : BoundingBox) : List BoundingBox → List BoundingBox
  | [] => [merged]
  | bb :: boxes =>
      let gap := (bb.y - (merged.y + merged.h)) % 4294967296
      if gap < gapThreshold then
        mergeFrom gapThreshold
          { merged with h := ((bb.y + bb.h - merged.y) % 4294967296).toNat } boxes
      else merged :: mergeFrom gapThreshold bb boxes

def mergeBoundingBoxes (boxes : List BoundingBox) (gapThreshold : Nat) : List BoundingBox :=
  match boxes with
  | [] => []
  | front :: boxes => mergeFrom gapThreshold front boxes

def uint16 (v : Int) : Nat := (v % 65536).toNat

def makeAlignedFrames (boxes : List BoundingBox) (a : Nat) : List EinkFrame :=
  boxes.map fun bb =>
    let y := uint16 bb.y
    let h := uint16 bb.h
    let pos_y := y / a * a
    ⟨uint16 bb.x, pos_y, ⟨uint16 bb.w, (y - pos_y + h + (a - 1)) / a * a % 65536⟩⟩

def calculateUpdateFrames {w h : Nat} (context previousContext : Context w h) :
    List EinkFrame :=
  let diffBoundingBoxes := context.linesDiffs previousContext
  let gapThreshold := h / 4
  let alignment := 8
  makeAlignedFrames (mergeBoundingBoxes diffBoundingBoxes gapThreshold) alignment

def expandFrame (frame other : EinkFrame) : EinkFrame :=
  let x := min frame.pos_x other.pos_x
  let y := min frame.pos_y other.pos_y
  let xmax1 := frame.pos_x + frame.size.width
  let xmax2 := other.pos_x + other.size.width
  let w := max xmax1 xmax2 - x
  let ymax1 := frame.pos_y + frame.size.height
  let ymax2 := other.pos_y + other.size.height
  let h := max ymax1 ymax2 - y
  ⟨x, y, ⟨w, h⟩⟩

/-! ## The service -/

inductive RefreshModes
  | guiRefreshNone
  | guiRefreshFast
  | guiRefreshDeep
  deriving DecidableEq, Repr

def translateToEinkRefreshMode : RefreshModes → EinkRefreshMode
  | .guiRefreshDeep => .refreshDeep
  | .guiRefreshFast => .refreshFast
  | .guiRefreshNone => .refreshNone

/-- A context as it is drawn: a colour is an index of sixteen. -/
structure Picture (board : Board) where
  context : Context board.resX board.resY
  colours : ∀ pixel ∈ context.data, pixel < 16

inductive State
  | running
  | suspended
  deriving DecidableEq, Repr

inductive EinkDisplayState
  | idle
  | needRefresh
  | canceled
  deriving DecidableEq, Repr

inductive RefreshStatus
  | success
  | failed
  deriving DecidableEq, Repr

structure RefreshMessage where
  contextId : Int
  refreshFrame : EinkFrame
  refreshMode : EinkRefreshMode
  originalSender : String
  deriving DecidableEq, Repr

inductive Sent
  | refreshMessage (message : RefreshMessage)
  | imageDisplayedNotification (contextId : Int) (receiver : String)
  deriving DecidableEq, Repr

structure ServiceEink (controller : Controller) (board : Board) where
  currentState : State
  panel : controller.State
  displayMode : EinkDisplayColorMode
  previousContext : Option (Context board.resX board.resY)
  previousRefreshMode : EinkRefreshMode
  einkDisplayState : EinkDisplayState
  refreshFramesSum : EinkFrame
  refreshModeSum : EinkRefreshMode
  isRefreshFramesSumValid : Bool
  previousRefreshStatus : RefreshStatus

def Board.whole (board : Board) : EinkFrame := ⟨0, 0, ⟨board.resX, board.resY⟩⟩

/-- What `handleImageMessage` finds out before it turns to the display. -/
structure Plan (board : Board) where
  updateFrames : List EinkFrame
  refreshFrame : EinkFrame
  isRefreshRequired : Bool
  previousContext : Context board.resX board.resY

namespace ServiceEink

variable {controller : Controller} {board : Board}

def init (panel : controller.State) (displayMode : EinkDisplayColorMode) :
    ServiceEink controller board where
  currentState := .running
  panel := panel
  displayMode := displayMode
  previousContext := none
  previousRefreshMode := .refreshNone
  einkDisplayState := .idle
  refreshFramesSum := ⟨0, 0, ⟨0, 0⟩⟩
  refreshModeSum := .refreshNone
  isRefreshFramesSumValid := false
  previousRefreshStatus := .success

variable (s : ServiceEink controller board)

def setDisplayMode (mode : EinkDisplayColorMode) : ServiceEink controller board :=
  { s with
    displayMode := mode
    previousContext := none
    previousRefreshMode := .refreshNone }

/-- The areas changed since the last update. -/
def plan (ctx : Context board.resX board.resY) (refreshMode : EinkRefreshMode) : Plan board :=
  let refreshFrame := board.whole
  match s.previousContext with
  | none => ⟨[refreshFrame], refreshFrame, true, ctx.get 0 0 board.resX board.resY⟩
  | some previousContext =>
      let updateFrames := calculateUpdateFrames ctx previousContext
      if s.previousRefreshMode.toNat < refreshMode.toNat then
        ⟨updateFrames, refreshFrame, true, previousContext.insert 0 0 ctx⟩
      else
        match updateFrames with
        | [] => ⟨[], refreshFrame, false, previousContext⟩
        | front :: frames =>
            let back := (front :: frames).getLast (List.cons_ne_nil front frames)
            let refreshFrame :=
              if refreshMode ≠ .refreshDeep then
                { front with
                  size.height := back.pos_y + back.size.height - front.pos_y }
              else refreshFrame
            ⟨front :: frames, refreshFrame, true, previousContext.insert 0 0 ctx⟩

/-- After a refresh that failed the first frame is the whole screen. -/
def framesToSend (updateFrames : List EinkFrame) : List EinkFrame :=
  match s.previousRefreshStatus, updateFrames with
  | .failed, _ :: frames => board.whole :: frames
  | _, frames => frames

/-- `refreshMode` and `isImageUpdated` as the transfers leave them. -/
def updateImage (ctx : Context board.resX board.resY) (plan : Plan board)
    (refreshMode : EinkRefreshMode) (status : EinkStatus controller) :
    ServiceEink controller board × EinkRefreshMode × Bool :=
  match s.framesToSend plan.updateFrames, status with
  | [], _ => ({ s with previousContext := some plan.previousContext }, refreshMode, false)
  | updateFrames, .einkOK =>
      ({ s with
        previousContext := some plan.previousContext
        panel := showImageUpdate board updateFrames ctx.data s.displayMode s.panel },
        refreshMode, true)
  | _, .error panel => ({ s with previousContext := none, panel := panel }, .refreshNone, false)

/-- The sums after one more refresh is asked for. -/
def sumUp (refreshFrame : EinkFrame) (refreshMode : EinkRefreshMode) :
    ServiceEink controller board :=
  { s with
    refreshModeSum :=
      if s.refreshModeSum.toNat < refreshMode.toNat then refreshMode else s.refreshModeSum
    refreshFramesSum :=
      if s.isRefreshFramesSumValid then expandFrame s.refreshFramesSum refreshFrame
      else refreshFrame
    isRefreshFramesSumValid := true
    einkDisplayState := .needRefresh }

def handleImageMessage (contextId : Int) (ctx : Context board.resX board.resY)
    (guiRefreshMode : RefreshModes) (sender : String) (status : EinkStatus controller) :
    ServiceEink controller board × List Sent :=
  match s.currentState with
  | .suspended => (s, [])
  | .running =>
      let refreshMode := translateToEinkRefreshMode guiRefreshMode
      let plan := s.plan ctx refreshMode
      let (s, refreshMode, isImageUpdated) := s.updateImage ctx plan refreshMode status
      let s := { s with previousRefreshMode := refreshMode }
      if isImageUpdated ∨ plan.isRefreshRequired ∨ s.isRefreshFramesSumValid then
        (s.sumUp plan.refreshFrame refreshMode,
          [.refreshMessage ⟨contextId, plan.refreshFrame, refreshMode, sender⟩])
      else
        ({ s with einkDisplayState := .idle }, [.imageDisplayedNotification contextId sender])

/-- `showImageRefresh` and what follows from its status. -/
def refresh (status : EinkStatus controller) : ServiceEink controller board :=
  let s :=
    match s.previousRefreshStatus with
    | .failed => { s with refreshModeSum := .refreshDeep, previousRefreshStatus := .success }
    | .success => s
  let s :=
    match status with
    | .einkOK =>
        { s with panel := showImageRefresh board s.refreshFramesSum s.refreshModeSum s.panel }
    | .error panel =>
        { s with
          panel := panel
          previousContext := none
          previousRefreshMode := .refreshNone
          previousRefreshStatus := .failed }
  { s with
    einkDisplayState := .idle
    isRefreshFramesSumValid := false
    refreshModeSum := .refreshNone }

def handleRefreshMessage (message : RefreshMessage) (status : EinkStatus controller) :
    ServiceEink controller board × List Sent :=
  (match s.einkDisplayState with
    | .needRefresh => s.refresh status
    | _ => s,
    [.imageDisplayedNotification message.contextId message.originalSender])

def handleCancelRefreshMessage : ServiceEink controller board :=
  match s.einkDisplayState with
  | .needRefresh => { s with einkDisplayState := .canceled }
  | _ => s

/-- A preparation that fails has sent no picture. -/
def handlePrepareEarlyRequest (refreshMode : RefreshModes) (prepared : Bool) :
    ServiceEink controller board :=
  if prepared then
    { s with
      panel :=
        controller.prepare (translateToEinkRefreshMode refreshMode = .refreshDeep) s.panel }
  else s

end ServiceEink

inductive ServicePowerMode
  | active
  | suspendToRAM
  | suspendToNVM
  deriving DecidableEq, Repr

def ServiceEink.switchPowerModeHandler {controller : Controller} {board : Board}
    (s : ServiceEink controller board) (mode : ServicePowerMode) :
    ServiceEink controller board :=
  match mode with
  | .active => { s with currentState := .running }
  | .suspendToRAM | .suspendToNVM => { s with currentState := .suspended }

/-- A message, with the status its transfers come to. -/
inductive Event (controller : Controller) (board : Board)
  | image (contextId : Int) (picture : Picture board) (refreshMode : RefreshModes)
      (sender : String) (status : EinkStatus controller)
  | refresh (message : RefreshMessage) (status : EinkStatus controller)
  | cancelRefresh
  | einkMode (mode : EinkDisplayColorMode)
  | prepareEarly (refreshMode : RefreshModes) (prepared : Bool)
  | switchPowerMode (mode : ServicePowerMode)

def ServiceEink.handle {controller : Controller} {board : Board}
    (s : ServiceEink controller board) : Event controller board →
      ServiceEink controller board × List Sent
  | .image contextId picture refreshMode sender status =>
      s.handleImageMessage contextId picture.context refreshMode sender status
  | .refresh message status => s.handleRefreshMessage message status
  | .cancelRefresh => (s.handleCancelRefreshMessage, [])
  | .einkMode mode => (s.setDisplayMode mode, [])
  | .prepareEarly refreshMode prepared => (s.handlePrepareEarlyRequest refreshMode prepared, [])
  | .switchPowerMode mode => (s.switchPowerModeHandler mode, [])

def ServiceEink.step {controller : Controller} {board : Board}
    (s : ServiceEink controller board) (event : Event controller board) :
    ServiceEink controller board := (s.handle event).1

end MuditaOS.Eink
