import MuditaOS.Sys.Bus

/-!
# Closing the system

A transcription of the part of `SystemManagerCommon` that shuts the services down. They are
asked one by one to get ready; `serviceCloseTimer` watches over each answer, and when the
last has come, or the timer expires, `CloseServices` destroys them. The messages are handled
only as long as the state is `Running`.
-/

namespace MuditaOS.Sys

inductive CloseReason where
  | RegularPowerDown
  | OnboardingPowerDown
  | Reboot
  | RebootMSC
  | RebootToRecovery
  | FactoryReset
  | SystemBrownout
  | LowBattery
  deriving DecidableEq, Repr

inductive WhiteListType where
  | RegularClose
  | Update
  | Restore
  deriving DecidableEq, Repr

inductive State where
  | Running
  | Suspend
  | Shutdown
  | ShutdownReady
  | Reboot
  | RebootToRecovery
  | RebootMSC
  deriving DecidableEq, Repr

/-- Which list the product has is left open. -/
abbrev WhiteLists := WhiteListType → List Name

structure SystemManager where
  /-- The services in the order in which they have been created. -/
  created : List Name
  servicesList : List Name
  serviceListReversed : Bool
  servicesToClose : List Name
  closeReason : CloseReason
  /-- `serviceCloseTimer` is active. -/
  serviceCloseTimer : Bool
  state : State
  /-- There has been a close request. -/
  requested : Bool
  /-- How often the timer has been started since the last one. -/
  starts : Nat
  /-- The first service has been asked for of an empty list. -/
  undefined : Bool
  /-- What `RestoreSystemHandler` has destroyed, -/
  restored : List Name
  /-- and what `CloseServices` has. -/
  destroyed : List Name
  deriving DecidableEq, Repr

inductive SystemEvent where
  | close (reason : CloseReason)
  | restore
  | readyToClose (sender : Name)
  /-- `serviceCloseTimer` expires. -/
  | expired
  deriving DecidableEq, Repr

namespace SystemManager

/-- The value of `closeReason` is set before it is read. -/
def boot (services : List Name) : SystemManager :=
  { created := services
    servicesList := services
    serviceListReversed := false
    servicesToClose := []
    closeReason := .RegularPowerDown
    serviceCloseTimer := false
    state := .Running
    requested := false
    starts := 0
    undefined := false
    restored := []
    destroyed := [] }

def startTimer (s : SystemManager) : SystemManager :=
  { s with serviceCloseTimer := true, starts := s.starts + 1 }

/-- The services that are destroyed, in this order, and those that stay. -/
def destroyServices (whitelist servicesList : List Name) : List Name × List Name :=
  servicesList.partition fun service => service ∉ whitelist

def whiteListTypeFor : CloseReason → WhiteListType
  | .RegularPowerDown | .OnboardingPowerDown | .SystemBrownout | .LowBattery => .RegularClose
  | .Reboot => .RegularClose
  | .RebootMSC => .RegularClose
  | .RebootToRecovery | .FactoryReset => .Update

def stateFor : CloseReason → State
  | .RegularPowerDown | .OnboardingPowerDown | .SystemBrownout | .LowBattery => .Shutdown
  | .Reboot => .Reboot
  | .RebootMSC => .RebootMSC
  | .RebootToRecovery | .FactoryReset => .RebootToRecovery

def closeServices (lists : WhiteLists) (s : SystemManager) : SystemManager :=
  let services := destroyServices (lists (whiteListTypeFor s.closeReason)) s.servicesList
  { s with
    servicesToClose := []
    servicesList := services.2
    destroyed := s.destroyed ++ services.1
    state := stateFor s.closeReason }

def initiateSystemCloseSequence (s : SystemManager) (closeReason : CloseReason) : SystemManager :=
  let servicesToClose := s.servicesToClose ++ s.servicesList
  startTimer
    { s with
      servicesToClose
      closeReason
      requested := true
      starts := 0
      undefined := s.undefined || servicesToClose.isEmpty }

def reverseOnce (s : SystemManager) : SystemManager :=
  if ¬ s.serviceListReversed then
    { s with servicesList := s.servicesList.reverse, serviceListReversed := true }
  else s

def closeSystemHandler (s : SystemManager) (closeReason : CloseReason) : SystemManager :=
  s.reverseOnce.initiateSystemCloseSequence closeReason

def restoreSystemHandler (lists : WhiteLists) (s : SystemManager) : SystemManager :=
  let s := s.reverseOnce
  let services := destroyServices (lists .Restore) s.servicesList
  { s with servicesList := services.2, restored := s.restored ++ services.1 }

def serviceReadyToCloseHandler (lists : WhiteLists) (s : SystemManager) (sender : Name) :
    SystemManager :=
  if s.servicesToClose ≠ [] ∧ s.serviceCloseTimer then
    let s := { s with serviceCloseTimer := false }
    if sender ∉ s.servicesToClose then s
    else
      let s := { s with servicesToClose := s.servicesToClose.filter (· ≠ sender) }
      if s.servicesToClose = [] then s.closeServices lists else s.startTimer
  else s

/-- The timer is a single-shot timer: it is stopped before the callback. -/
def onTimeout (lists : WhiteLists) (s : SystemManager) : SystemManager :=
  if s.serviceCloseTimer then { s with serviceCloseTimer := false }.closeServices lists else s

def step (lists : WhiteLists) (s : SystemManager) (e : SystemEvent) : SystemManager :=
  if s.state = .Running then
    match e with
    | .close reason => s.closeSystemHandler reason
    | .restore => s.restoreSystemHandler lists
    | .readyToClose sender => s.serviceReadyToCloseHandler lists sender
    | .expired => s.onTimeout lists
  else s

end SystemManager

end MuditaOS.Sys
