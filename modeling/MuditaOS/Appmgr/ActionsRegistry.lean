import Mathlib.Data.List.Basic

/-!
# The queue of application actions

`ActionsRegistry` offers the actions that wait to its owner until one is accepted. The action
accepted is pending until the owner calls `finished`, and stays in the queue until then.

The pointer to the pending action is its place in the deque, which `push_back` does not change.
Objects with the same content are told apart by the number of the call of `enqueue` they came
with. A pointer to parameters is an address. What the owner answers, and what it leaves of the
parameters and the target of an action that it is shown, belongs to the call; the clock stands
still during a call.
-/

namespace MuditaOS.Appmgr

/-- In nanoseconds, as all times. -/
def ExpirationTimeout : Int := 30 * 1000000000

structure ActionEntry where
  actionId : Int
  params : Option Nat
  target : String
  createdAt : Int
  deriving DecidableEq, Repr

namespace ActionEntry

def isExpired (now : Int) (action : ActionEntry) : Bool :=
  now - action.createdAt > ExpirationTimeout

def operatorEq (lhs rhs : ActionEntry) : Bool :=
  lhs.actionId = rhs.actionId ∧ lhs.createdAt = rhs.createdAt ∧ lhs.params = rhs.params

end ActionEntry

/-- An element of the deque. -/
structure Queued extends ActionEntry where
  serial : Nat
  deriving DecidableEq, Repr

inductive ActionProcessStatus
  | Accepted
  | Skipped
  | Dropped
  deriving DecidableEq, Repr

/-- What `OnNextActionReadyCallback` returns, and what it leaves in the entry. -/
structure Reply where
  status : ActionProcessStatus
  params : Option Nat
  target : String
  deriving DecidableEq, Repr

abbrev OnNextActionReadyCallback := Queued → Reply

/-- A call of the callback. -/
structure Offer where
  action : Queued
  status : ActionProcessStatus
  deriving DecidableEq, Repr

structure ActionsRegistry where
  actions : List Queued
  actionInProgress : Option Nat
  deriving DecidableEq, Repr

namespace ActionsRegistry

variable (nextActionReady : OnNextActionReadyCallback) (now : Int) (r : ActionsRegistry)

def hasPendingAction : Bool := r.actionInProgress.isSome

def getPendingAction : Option Queued := r.actionInProgress.bind (r.actions[·]?)

def answered (action : Queued) : Queued :=
  { action with
    params := (nextActionReady action).params
    target := (nextActionReady action).target }

def offer (action : Queued) : Offer := ⟨action, (nextActionReady action).status⟩

/-- The loop of `notifyAboutNextAction`: what it leaves of the deque from here on, where the
accepted action is in that, and the calls it makes. -/
def notifyFrom : List Queued → List Queued × Option Nat × List Offer
  | [] => ([], none, [])
  | action :: rest =>
      match (nextActionReady action).status with
      | .Accepted =>
          (answered nextActionReady action :: rest, some 0, [offer nextActionReady action])
      | .Dropped =>
          let looked := notifyFrom rest
          (looked.1, looked.2.1, offer nextActionReady action :: looked.2.2)
      | .Skipped =>
          let looked := notifyFrom rest
          (answered nextActionReady action :: looked.1, looked.2.1.map (· + 1),
            offer nextActionReady action :: looked.2.2)

def notifyAboutNextAction : ActionsRegistry × List Offer :=
  let looked := notifyFrom nextActionReady r.actions
  ({ actions := looked.1
     actionInProgress := looked.2.1.or r.actionInProgress },
    looked.2.2)

def addAction (action : Queued) : ActionsRegistry :=
  { r with actions := r.actions ++ [action] }

def process : ActionsRegistry × List Offer :=
  if r.hasPendingAction then (r, []) else r.notifyAboutNextAction nextActionReady

def enqueue (action : Queued) : ActionsRegistry × List Offer :=
  (r.addAction action).process nextActionReady

def removeExpiredActions : ActionsRegistry :=
  { r with actions := r.actions.filter fun action => !action.isExpired now }

def onFinished : ActionsRegistry × List Offer :=
  let r := r.removeExpiredActions now
  if r.actions.isEmpty then (r, []) else r.notifyAboutNextAction nextActionReady

/-- Without a pending action the assertion fails, and there is no such call. -/
def finished : ActionsRegistry × List Offer :=
  match r.getPendingAction with
  | none => (r, [])
  | some pending =>
      onFinished nextActionReady now
        { actions := r.actions.eraseP fun action => action.operatorEq pending.toActionEntry
          actionInProgress := none }

end ActionsRegistry

/-! ## Sessions -/

inductive Op
  | enqueue (action : ActionEntry)
  | process
  | finished
  deriving DecidableEq, Repr

/-- A call on the registry, the time of it, and the answers of its owner. -/
structure Call where
  op : Op
  now : Int
  nextActionReady : OnNextActionReadyCallback

structure Session where
  registry : ActionsRegistry
  enqueued : Nat
  log : List Offer

namespace Session

variable (s : Session) (c : Call)

def start : Session := ⟨⟨[], none⟩, 0, []⟩

/-- What the call adds to the queue. -/
def added : List Queued :=
  match c.op with
  | .enqueue action => [⟨action, s.enqueued⟩]
  | _ => []

def call : ActionsRegistry × List Offer :=
  match c.op with
  | .enqueue action => s.registry.enqueue c.nextActionReady ⟨action, s.enqueued⟩
  | .process => s.registry.process c.nextActionReady
  | .finished => s.registry.finished c.nextActionReady c.now

def offers : List Offer := (s.call c).2

def step : Session where
  registry := (s.call c).1
  enqueued := s.enqueued + (s.added c).length
  log := s.log ++ s.offers c

def run (calls : List Call) : Session := calls.foldl step s

end Session

/-! ## Logs -/

/-- The actions with this answer. -/
def serials (status : ActionProcessStatus) (log : List Offer) : List Nat :=
  (log.filter fun o => o.status = status).map (·.action.serial)

/-- The actions accepted that were not skipped at any time. -/
def neverSkipped (log : List Offer) : List Nat :=
  (serials .Accepted log).filter fun serial => serial ∉ serials .Skipped log

end MuditaOS.Appmgr
