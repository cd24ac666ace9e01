import MuditaOS.Eink.ServiceEink

/-!
# The service that draws

A transcription of `ServiceGUI.cpp`, `ContextPool.cpp`, `DrawCommandsQueue.cpp`,
`RenderCache.cpp` and `WorkerGUI.cpp`, together with the display service they send to. Two
threads share the pool and the queue of commands, each call of which holds its lock, and the
signalling queue of one place, which is overwritten. What a handler does between two such
calls is one step; a drawing worker takes one step a command. The display service takes one
step a message, which is as good as the transfer it makes as long as nobody draws in the
context meanwhile. The mailboxes are in order of arrival.
-/

namespace MuditaOS.Gui

open MuditaOS.Eink

/-! ## Drawing -/

structure ColorScheme where
  intensity : Fin 16 → UInt8
  shades : ∀ colour, intensity colour < 16

def white : Fin 16 := 15

abbrev DrawCommand (board : Board) := ColorScheme → Picture board → Picture board

def DrawCommand.clear {board : Board} : DrawCommand board := fun scheme picture =>
  ⟨picture.context.fill (scheme.intensity white), fun pixel hpixel => by
    rw [List.eq_of_mem_replicate hpixel]
    exact scheme.shades white⟩

/-- `Renderer::render`, one command after the other. -/
def render {board : Board} (scheme : ColorScheme) (context : Picture board)
    (commands : List (DrawCommand board)) : Picture board :=
  commands.foldl (fun context cmd => cmd scheme context) context

def blank (board : Board) : Picture board :=
  ⟨Context.init board.resX board.resY, fun pixel hpixel => by
    rw [List.eq_of_mem_replicate hpixel]
    decide⟩

/-! ## The pool of contexts -/

structure ContextPool (board : Board) where
  contexts : Int → Picture board
  freeContextIds : List Int
  lockedContextIds : List Int

namespace ContextPool

variable {board : Board}

def ids (capacity : Nat) : List Int := (List.range capacity).map Int.ofNat

def init (board : Board) (capacity : Nat) : ContextPool board where
  contexts _ := blank board
  freeContextIds := ids capacity
  lockedContextIds := []

def removeContextId (sequence : List Int) (contextId : Int) : List Int :=
  sequence.filter (· ≠ contextId)

def addContextId (sequence : List Int) (contextId : Int) : List Int :=
  if contextId ∈ sequence then sequence else sequence ++ [contextId]

variable (pool : ContextPool board)

def lockContext (contextId : Int) : ContextPool board :=
  { pool with
    freeContextIds := removeContextId pool.freeContextIds contextId
    lockedContextIds := addContextId pool.lockedContextIds contextId }

def freeContext (contextId : Int) : ContextPool board :=
  { pool with
    lockedContextIds := removeContextId pool.lockedContextIds contextId
    freeContextIds := addContextId pool.freeContextIds contextId }

/-- The first free context, once there is one. -/
def borrowContext : Option (Int × ContextPool board) :=
  pool.freeContextIds.head?.map fun contextId => (contextId, pool.lockContext contextId)

def borrowContextById (id : Int) : Option (ContextPool board) :=
  if id ∈ pool.freeContextIds then some (pool.lockContext id) else none

def returnContext (id : Int) : ContextPool board := pool.freeContext id

def isAnyContextLocked : Bool := !pool.lockedContextIds.isEmpty

def peekContext (id : Int) : Picture board := pool.contexts id

def draw (id : Int) (scheme : ColorScheme) (cmd : DrawCommand board) : ContextPool board :=
  { pool with contexts := Function.update pool.contexts id (cmd scheme (pool.contexts id)) }

end ContextPool

/-! ## The queue and the cache -/

structure QueueItem (board : Board) where
  commands : List (DrawCommand board)
  refreshMode : RefreshModes

/-- The mode of the queue that is cleared. -/
def getMaxRefreshMode {board : Board} (queue : List (QueueItem board)) : RefreshModes :=
  if queue.any fun item => item.refreshMode = .guiRefreshDeep then .guiRefreshDeep
  else .guiRefreshFast

structure RenderReference where
  contextId : Int
  refreshMode : RefreshModes
  deriving DecidableEq, Repr

def RenderReference.cache (cached : Option RenderReference) (render : RenderReference) :
    RenderReference :=
  match cached with
  | some cachedRender =>
      if cachedRender.refreshMode = .guiRefreshDeep then
        { render with refreshMode := cachedRender.refreshMode }
      else render
  | none => render

/-- `getMaxRefreshMode` of two modes. -/
def maxRefreshMode (lhs rhs : RefreshModes) : RefreshModes :=
  if lhs = .guiRefreshDeep then lhs else rhs

/-! ## The parties -/

inductive RenderingState
  | idle
  | rendering
  deriving DecidableEq, Repr

inductive DisplayingState
  | idle
  | displaying
  deriving DecidableEq, Repr

inductive ServiceGUIState
  | notInitialized
  | running
  | closing
  | closed
  deriving DecidableEq, Repr

inductive Signal
  | render
  | changeColorScheme
  deriving DecidableEq, Repr

inductive Message (board : Board)
  | draw (item : QueueItem board)
  | renderingFinished (render : RenderReference)
  | imageDisplayed (contextId : Int)
  | changeColorScheme (scheme : ColorScheme)
  | closeReason

inductive EinkMessage
  | image (contextId : Int) (refreshMode : RefreshModes)
  | refresh (message : RefreshMessage)
  | cancelRefresh
  | prepareEarly (refreshMode : RefreshModes)
  | einkMode (mode : EinkDisplayColorMode)

/-- Where the service's own thread stands: between two messages, with commands to enqueue or
to announce, behind the return of a context, or about to send the cached one. -/
inductive Thread (board : Board)
  | ready
  | enqueueing (item : QueueItem board)
  | notifying
  | returned
  | sending

inductive Worker (board : Board)
  | waiting
  | signalled (command : Signal)
  | dequeued (item : QueueItem board)
  | rendering (contextId : Int) (commands : List (DrawCommand board))
      (refreshMode : RefreshModes)

structure System (controller : Controller) (board : Board) where
  contextPool : ContextPool board
  commandsQueue : List (QueueItem board)
  colorSchemeUpdate : ColorScheme
  cache : Option RenderReference
  /-- The context that the timer releases. -/
  contextReleaseTimer : Option Int
  renderingState : RenderingState
  displayingState : DisplayingState
  serviceState : ServiceGUIState
  thread : Thread board
  mailbox : List (Message board)
  signallingQueue : Option Signal
  worker : Worker board
  colorScheme : ColorScheme
  einkMailbox : List EinkMessage
  eink : ServiceEink controller board
  /-- How often the service has said that it is ready to be closed. -/
  closeReady : Nat

namespace System

variable {controller : Controller} {board : Board}

def init (capacity : Nat) (scheme : ColorScheme) (eink : ServiceEink controller board) :
    System controller board where
  contextPool := .init board capacity
  commandsQueue := []
  colorSchemeUpdate := scheme
  cache := none
  contextReleaseTimer := none
  renderingState := .idle
  displayingState := .idle
  serviceState := .running
  thread := .ready
  mailbox := []
  signallingQueue := none
  worker := .waiting
  colorScheme := scheme
  einkMailbox := []
  eink := eink
  closeReady := 0

variable (s : System controller board)

/-! ## The service -/

def setState (state : ServiceGUIState) : System controller board :=
  { s with serviceState := if s.serviceState = .closed then .closed else state }

def sendEink (message : EinkMessage) : System controller board :=
  { s with einkMailbox := s.einkMailbox ++ [message] }

def isAnyFrameBeingRenderedOrDisplayed : Bool := s.contextPool.isAnyContextLocked

def prepareDisplayEarly (refreshMode : RefreshModes) : System controller board :=
  s.sendEink (.prepareEarly refreshMode)

/-- The queue is cleared here; the item is enqueued in the next step. -/
def enqueueDrawCommands (item : QueueItem board) : System controller board :=
  let refreshMode :=
    if item.refreshMode = .guiRefreshDeep then item.refreshMode
    else if getMaxRefreshMode s.commandsQueue = .guiRefreshDeep then
      getMaxRefreshMode s.commandsQueue
    else item.refreshMode
  { s with commandsQueue := [], thread := .enqueueing { item with refreshMode } }

def notifyRenderer (item : QueueItem board) : System controller board :=
  { s with renderingState := .rendering }.enqueueDrawCommands item

def handleDrawMessage (item : QueueItem board) : System controller board :=
  if item.commands.isEmpty then s
  else
    let s :=
      if s.isAnyFrameBeingRenderedOrDisplayed then s else s.prepareDisplayEarly item.refreshMode
    s.notifyRenderer item

def handleChangeColorScheme (scheme : ColorScheme) : System controller board :=
  { s with colorSchemeUpdate := scheme, signallingQueue := some .changeColorScheme }

def scheduleContextRelease (contextId : Int) : System controller board :=
  { s with contextReleaseTimer := some contextId }

def sendOnDisplay (contextId : Int) (refreshMode : RefreshModes) : System controller board :=
  { s with displayingState := .displaying }.sendEink (.image contextId refreshMode)
    |>.scheduleContextRelease contextId

def sendCancelRefresh : System controller board := s.sendEink .cancelRefresh

def handleGUIRenderingFinished (render : RenderReference) : System controller board :=
  let s := { s with renderingState := .idle }
  match s.displayingState with
  | .idle =>
      match s.cache with
      | some cachedRender =>
          { s with cache := none }.sendOnDisplay render.contextId
            (maxRefreshMode cachedRender.refreshMode render.refreshMode)
      | none => s.sendOnDisplay render.contextId render.refreshMode
  | .displaying =>
      { s with
        cache := some (RenderReference.cache s.cache render)
        contextPool := s.contextPool.returnContext render.contextId }.sendCancelRefresh

/-- What follows the return of the context is the next step. -/
def handleImageDisplayedNotification (contextId : Int) : System controller board :=
  { s with
    displayingState := .idle
    contextPool := s.contextPool.returnContext contextId
    contextReleaseTimer := none
    thread := .returned }

def sendCloseReadyMessage : System controller board := { s with closeReady := s.closeReady + 1 }

def processCloseReason : System controller board :=
  if s.renderingState = .idle ∧ s.displayingState = .idle then
    s.sendCloseReadyMessage.setState .closed
  else s.setState .closing

/-- The cached context may have been borrowed by the worker meanwhile. -/
def trySendNextFrame (render : RenderReference) : System controller board :=
  let s :=
    match s.contextPool.borrowContextById render.contextId with
    | some contextPool =>
        { s with contextPool }.sendOnDisplay render.contextId render.refreshMode
    | none => s
  { s with cache := none }

def handleMessage : Message board → System controller board
  | .draw item => s.handleDrawMessage item
  | .renderingFinished render => s.handleGUIRenderingFinished render
  | .imageDisplayed contextId => s.handleImageDisplayedNotification contextId
  | .changeColorScheme scheme => s.handleChangeColorScheme scheme
  | .closeReason => s.processCloseReason

/-- The thread goes on with the handler it is in, or takes the next message. -/
def threadStep : System controller board :=
  match s.thread with
  | .enqueueing item =>
      { s with commandsQueue := s.commandsQueue ++ [item], thread := .notifying }
  | .notifying => { s with signallingQueue := some .render, thread := .ready }
  | .returned =>
      if s.cache.isSome ∧ !s.isAnyFrameBeingRenderedOrDisplayed then { s with thread := .sending }
      else if s.serviceState = .closing then
        { s.sendCloseReadyMessage.setState .closed with thread := .ready }
      else { s with thread := .ready }
  | .sending =>
      match s.cache with
      | some render => { s.trySendNextFrame render with thread := .ready }
      | none => { s with thread := .ready }
  | .ready =>
      match s.mailbox with
      | [] => s
      | message :: mailbox => { s with mailbox }.handleMessage message

/-! ## The worker -/

def workerStep : System controller board :=
  match s.worker with
  | .waiting =>
      match s.signallingQueue with
      | some command => { s with signallingQueue := none, worker := .signalled command }
      | none => s
  | .signalled .changeColorScheme =>
      { s with colorScheme := s.colorSchemeUpdate, worker := .waiting }
  | .signalled .render =>
      match s.commandsQueue with
      | [] => { s with worker := .waiting }
      | item :: commandsQueue => { s with commandsQueue, worker := .dequeued item }
  | .dequeued item =>
      match s.contextPool.borrowContext with
      | some (contextId, contextPool) =>
          { s with contextPool, worker := .rendering contextId item.commands item.refreshMode }
      | none => s
  | .rendering contextId (cmd :: commands) refreshMode =>
      { s with
        contextPool := s.contextPool.draw contextId s.colorScheme cmd
        worker := .rendering contextId commands refreshMode }
  | .rendering contextId [] refreshMode =>
      { s with
        worker := .waiting
        mailbox := s.mailbox ++ [.renderingFinished ⟨contextId, refreshMode⟩] }

/-! ## The display -/

/-- The message as the display service handles it, reading the context where it lies. -/
def einkEvent (message : EinkMessage) (status : EinkStatus controller) (prepared : Bool) :
    Event controller board :=
  match message with
  | .image contextId refreshMode =>
      .image contextId (s.contextPool.peekContext contextId) refreshMode "ServiceGUI" status
  | .refresh message => .refresh message status
  | .cancelRefresh => .cancelRefresh
  | .prepareEarly refreshMode => .prepareEarly refreshMode prepared
  | .einkMode mode => .einkMode mode

def send : Sent → System controller board
  | .refreshMessage message => s.sendEink (.refresh message)
  | .imageDisplayedNotification contextId _ =>
      { s with mailbox := s.mailbox ++ [.imageDisplayed contextId] }

def einkStep (status : EinkStatus controller) (prepared : Bool) : System controller board :=
  match s.einkMailbox with
  | [] => s
  | message :: einkMailbox =>
      let (eink, sent) := s.eink.handle (s.einkEvent message status prepared)
      sent.foldl send { s with einkMailbox, eink }

/-- The timer calls the handler on the service's thread. -/
def releaseTimeout : System controller board :=
  match s.thread, s.contextReleaseTimer with
  | .ready, some contextId => s.handleImageDisplayedNotification contextId
  | _, _ => s

end System

/-! ## The whole -/

/-- An application, the settings or the system manager sends a message, the power mode of the
display service is switched, the timer ends, or one of the threads takes a step. -/
inductive Action (controller : Controller) (board : Board)
  | draw (item : QueueItem board)
  | changeColorScheme (scheme : ColorScheme)
  | closeReason
  | einkMode (mode : EinkDisplayColorMode)
  | switchPowerMode (mode : ServicePowerMode)
  | releaseTimeout
  | thread
  | worker
  | eink (status : EinkStatus controller) (prepared : Bool)

def System.step {controller : Controller} {board : Board} (s : System controller board) :
    Action controller board → System controller board
  | .draw item => { s with mailbox := s.mailbox ++ [.draw item] }
  | .changeColorScheme scheme => { s with mailbox := s.mailbox ++ [.changeColorScheme scheme] }
  | .closeReason => { s with mailbox := s.mailbox ++ [.closeReason] }
  | .einkMode mode => s.sendEink (.einkMode mode)
  | .switchPowerMode mode => { s with eink := s.eink.switchPowerModeHandler mode }
  | .releaseTimeout => s.releaseTimeout
  | .thread => s.threadStep
  | .worker => s.workerStep
  | .eink status prepared => s.einkStep status prepared

end MuditaOS.Gui
