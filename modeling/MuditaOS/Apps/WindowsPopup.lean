import MuditaOS.Lib.InOrder

/-!
# The popups of an application

A transcription of `WindowsPopupRequest.cpp`, `WindowsPopupQueue.cpp`, `WindowsPopupFilter.cpp`
and of what `ApplicationCommon.cpp` does with them. The queue is a `std::multiset`, whose
`extract` of a value takes the first entry that is equivalent to the value. The windows and
the answers of the filters change from outside. That a request was handled is recorded, and
what its blueprint does then is left out.
-/

namespace MuditaOS.Apps

open MuditaOS.Lib

inductive ID
  | volume
  | phoneModes
  | brightness
  | tethering
  | tetheringPhoneModeChangeProhibited
  | bluetoothAuthenticate
  | bluetoothInfo
  | phoneLock
  | phoneLockInput
  | phoneLockInfo
  | phoneLockChangeInfo
  | simLock
  | simInfo
  | simNotReady
  | simSwitching
  | alarmActivated
  | alarmDeactivated
  | alarm
  | powerOff
  | reboot
  | bedtimeNotification
  | chargingNotification
  | chargingDoneNotification
  | audioError
  | appTestPopup
  | invalid
  deriving DecidableEq, Repr

/-- From lowest to highest. -/
inductive Priority
  | low
  | normal
  | high
  | highest
  deriving DecidableEq, Repr

def Priority.toNat : Priority → Nat
  | .low => 0
  | .normal => 1
  | .high => 2
  | .highest => 3

inductive WindowType
  | normal
  | popup
  deriving DecidableEq, Repr

structure Disposition where
  priority : Priority := .normal
  windowtype : WindowType := .normal
  id : ID := .invalid
  deriving DecidableEq, Repr

/-! ## Windows -/

structure WindowData where
  name : String
  disposition : Disposition
  deriving DecidableEq, Repr

/-- The last window is on top. -/
abbrev WindowsStack := List WindowData

namespace WindowsStack

def topWindow : Nat := 0

def simUnlockWindow : String := "SimUnlockPopup"

variable (stack : WindowsStack)

def getWindowData (depth : Nat) : Option WindowData :=
  if stack.length ≤ depth then none else stack[stack.length - (depth + 1)]?

def drop (window : String) : WindowsStack := stack.eraseP fun el => el.name = window

end WindowsStack

/-! ## Requests -/

structure PopupRequestParams where
  popupId : ID
  disposition : Disposition := {}
  ignoreIfTheSamePopupIsOnTopOfTheStack : Bool := false
  deriving DecidableEq, Repr

structure Request where
  id : ID
  params : PopupRequestParams
  deriving DecidableEq, Repr

def Request.priority (request : Request) : Priority := request.params.disposition.priority

def Request.operatorLess (request p : Request) : Bool :=
  p.priority.toNat < request.priority.toNat

instance : WeakOrder Request.operatorLess where
  asymm h := by
    simp only [Request.operatorLess, decide_eq_true_eq, decide_eq_false_iff_not] at h ⊢
    omega
  trans hxy hyz := by
    simp only [Request.operatorLess, decide_eq_false_iff_not] at hxy hyz ⊢
    omega

inductive FilterType
  | showPopup
  | ignore
  | remove
  deriving DecidableEq, Repr

/-- A filter may be an empty function. -/
structure Filter where
  appDependentFilter : List (Option (PopupRequestParams → FilterType))

namespace Filter

variable (popupFilter : Filter)

def isPermitted (stack : WindowsStack) (params : PopupRequestParams) : Bool :=
  if popupFilter.appDependentFilter.any fun filter =>
      filter.any fun filter => filter params ≠ .showPopup then false
  else
    match stack.getWindowData WindowsStack.topWindow with
    | none => true
    | some data =>
        if data.disposition.id = params.popupId then true
        else data.disposition.priority.toNat ≤ params.disposition.priority.toNat

def addPopup (params : PopupRequestParams) : Bool :=
  popupFilter.appDependentFilter.all fun filter =>
    filter.any fun filter => filter params ≠ .remove

end Filter

structure WindowsPopupQueue where
  requests : SortedBy Request.operatorLess

namespace WindowsPopupQueue

def empty : WindowsPopupQueue := ⟨.empty _⟩

variable (queue : WindowsPopupQueue)

def pushRequest (r : Request) : WindowsPopupQueue := ⟨queue.requests.emplace r⟩

def popRequest (isPermitted : PopupRequestParams → Bool) : Option (Request × WindowsPopupQueue) :=
  match queue.requests.entries.find? fun val => isPermitted val.params with
  | some val => (queue.requests.extract val).map fun (request, requests) => (request, ⟨requests⟩)
  | none => none

end WindowsPopupQueue

/-! ## The application -/

structure Application where
  windowsStack : WindowsStack
  popupFilter : Filter
  windowsPopupQueue : WindowsPopupQueue
  /-- The requests that were put into the queue. -/
  accepted : List Request
  /-- The requests that were handled or cleared. -/
  left : List Request

namespace Application

def init (popupFilter : Filter) (stack : WindowsStack) : Application :=
  ⟨stack, popupFilter, .empty, [], []⟩

variable (app : Application)

def isPermitted : PopupRequestParams → Bool := app.popupFilter.isPermitted app.windowsStack

def tryShowPopup : Application :=
  match app.windowsPopupQueue.popRequest app.isPermitted with
  | none => app
  | some (request, windowsPopupQueue) =>
      { app with
        windowsPopupQueue
        left := app.left ++ [request]
        windowsStack :=
          if request.params.popupId = .simInfo then
            app.windowsStack.drop WindowsStack.simUnlockWindow
          else app.windowsStack }

/-- Without a window the source reads an empty optional. -/
def actionPopupPush (data : PopupRequestParams) : Option Application :=
  (app.windowsStack.getWindowData WindowsStack.topWindow).map fun top =>
    let id := data.popupId
    if data.ignoreIfTheSamePopupIsOnTopOfTheStack && id = top.disposition.id then app
    else
      let data :=
        if data.disposition.windowtype = .popup then data
        else { data with disposition := { windowtype := .popup, id } }
      if app.popupFilter.addPopup { popupId := id } then
        tryShowPopup
          { app with
            windowsPopupQueue := app.windowsPopupQueue.pushRequest ⟨id, data⟩
            accepted := app.accepted ++ [⟨id, data⟩] }
      else app

def clearPendingPopups : Application :=
  { app with
    windowsPopupQueue := .empty
    left := app.left ++ app.windowsPopupQueue.requests.entries }

end Application

/-- A popup is asked for, the windows change and the next popup is tried, the filters change,
or the pending popups are cleared. -/
inductive Event
  | showPopup (params : PopupRequestParams)
  | handleSwitchWindow (stack : WindowsStack)
  | windows (stack : WindowsStack)
  | filters (popupFilter : Filter)
  | clearPendingPopups

def Application.step (app : Application) : Event → Option Application
  | .showPopup params => app.actionPopupPush params
  | .handleSwitchWindow stack => some ({ app with windowsStack := stack }.tryShowPopup)
  | .windows stack => some { app with windowsStack := stack }
  | .filters popupFilter => some { app with popupFilter }
  | .clearPendingPopups => some app.clearPendingPopups

end MuditaOS.Apps
