import MuditaOS.Sys.Bus

/-!
# The governor of the CPU frequency

A transcription of `CpuGovernor` and of the loops over its sentinels. It holds weak pointers:
a sentinel is gone when its owner is, and its entry stays in the vector until one of the loops
that clean it comes by. The pointers to the entries are never null.
-/

namespace MuditaOS.Sys

inductive CpuFrequencyMHz where
  | Level_0
  | Level_1
  | Level_2
  | Level_3
  | Level_4
  | Level_5
  | Level_6
  deriving DecidableEq, Repr

namespace CpuFrequencyMHz

def mhz : CpuFrequencyMHz → Nat
  | Level_0 => 4
  | Level_1 => 12
  | Level_2 => 24
  | Level_3 => 66
  | Level_4 => 132
  | Level_5 => 264
  | Level_6 => 528

instance : LT CpuFrequencyMHz := ⟨fun a b => a.mhz < b.mhz⟩

instance : LE CpuFrequencyMHz := ⟨fun a b => a.mhz ≤ b.mhz⟩

instance {a b : CpuFrequencyMHz} : Decidable (a < b) :=
  inferInstanceAs (Decidable (a.mhz < b.mhz))

instance {a b : CpuFrequencyMHz} : Decidable (a ≤ b) :=
  inferInstanceAs (Decidable (a.mhz ≤ b.mhz))

end CpuFrequencyMHz

structure CpuSentinel where
  name : Name
  currentReason : String
  deriving DecidableEq, Repr

structure GovernorSentinel where
  /-- What the weak pointer can be locked to; none once it has expired. -/
  sentinelPtr : Option CpuSentinel
  requestedFrequency : CpuFrequencyMHz
  wfiBlocked : Bool
  deriving DecidableEq, Repr

namespace sentinel

structure View where
  name : Name
  /-- The current minimum frequency set in the sentinel. -/
  minFrequency : CpuFrequencyMHz
  reason : String
  deriving DecidableEq, Repr

def View.default : View := ⟨[], .Level_0, ""⟩

end sentinel

open sentinel

namespace CpuGovernor

/-! ## The loops -/

/-- The loop over the entries from the last to the first, with so many still to come. It stops
at the first live one for which the callback says so, and says whether it has. -/
def forEachGovernedSentinel (foo : GovernorSentinel → Bool) :
    Nat → List GovernorSentinel → List GovernorSentinel × Bool
  | 0, sentinels => (sentinels, false)
  | i + 1, sentinels =>
      match sentinels[i]? with
      | none => (sentinels, false)
      | some sentinel =>
          if sentinel.sentinelPtr.isNone then
            forEachGovernedSentinel foo i (sentinels.eraseIdx i)
          else if foo sentinel then (sentinels, true)
          else forEachGovernedSentinel foo i sentinels

def forEachSentinel (foo : CpuSentinel → Bool) (sentinels : List GovernorSentinel) :
    List GovernorSentinel × Bool :=
  forEachGovernedSentinel (fun sentinel => sentinel.sentinelPtr.any foo) sentinels.length sentinels

def clean (sentinels : List GovernorSentinel) : List GovernorSentinel :=
  (forEachGovernedSentinel (fun _ => false) sentinels.length sentinels).1

def isNamed (sentinelName : Name) (sentinel : GovernorSentinel) : Bool :=
  sentinel.sentinelPtr.any fun sharedResource => sharedResource.name = sentinelName

/-- The first live sentinel of this name is changed. -/
def changeNamed (sentinelName : Name) (change : GovernorSentinel → GovernorSentinel) :
    List GovernorSentinel → List GovernorSentinel
  | [] => []
  | sentinel :: sentinels =>
      if isNamed sentinelName sentinel then change sentinel :: sentinels
      else sentinel :: changeNamed sentinelName change sentinels

/-- `std::max_element`: the first of the largest. -/
def maxElement : List GovernorSentinel → Option GovernorSentinel
  | [] => none
  | sentinel :: sentinels =>
      some (sentinels.foldl
        (fun l r => if l.requestedFrequency < r.requestedFrequency then r else l) sentinel)

/-! ## The operations -/

def registerNewSentinel (newSentinel : Option CpuSentinel) (sentinels : List GovernorSentinel) :
    List GovernorSentinel × Bool :=
  match newSentinel with
  | none => (sentinels, false)
  | some newSentinel =>
      -- whether it is already registered is in the second component
      let checked := forEachSentinel (fun s => s.name = newSentinel.name) sentinels
      if ¬ checked.2 then (checked.1 ++ [⟨some newSentinel, .Level_0, false⟩], true)
      else (checked.1, false)

def removeSentinel (sentinelName : Name) (sentinels : List GovernorSentinel) :
    List GovernorSentinel :=
  if sentinelName ≠ [] then sentinels.filter fun sentinel => ¬ isNamed sentinelName sentinel
  else sentinels

def setCpuFrequencyRequest (sentinelName : Name) (request : CpuFrequencyMHz) :
    List GovernorSentinel → List GovernorSentinel :=
  changeNamed sentinelName fun sentinel => { sentinel with requestedFrequency := request }

def resetCpuFrequencyRequest (sentinelName : Name) :
    List GovernorSentinel → List GovernorSentinel :=
  setCpuFrequencyRequest sentinelName .Level_0

def blockWfiMode (sentinelName : Name) (request : Bool) :
    List GovernorSentinel → List GovernorSentinel :=
  changeNamed sentinelName fun sentinel => { sentinel with wfiBlocked := request }

/-- The view is none where the end of the sentinels is dereferenced. -/
def getMinimumFrequencyRequested (sentinels : List GovernorSentinel) :
    List GovernorSentinel × Option View :=
  if sentinels = [] then (sentinels, some { View.default with reason := "empty" })
  else
    let sentinels := clean sentinels
    let view := (maxElement sentinels).map fun minSentinel =>
      let d := { View.default with minFrequency := minSentinel.requestedFrequency }
      match minSentinel.sentinelPtr with
      | some p => { d with name := p.name, reason := p.currentReason }
      | none => { d with reason := "cant lock" }
    (sentinels, view)

def isWfiBlocked (sentinels : List GovernorSentinel) : Bool :=
  sentinels.any fun sentinel => sentinel.wfiBlocked

/-- The callbacks of the sentinels are left out. -/
def informSentinelsAboutCpuFrequencyChange (sentinels : List GovernorSentinel) :
    List GovernorSentinel :=
  (forEachSentinel (fun _ => false) sentinels).1

/-! ## The owners -/

/-- The owner of a registered sentinel, and the sentinel with it, is destroyed. -/
def ownerDestroyed (sentinelName : Name) (sentinels : List GovernorSentinel) :
    List GovernorSentinel :=
  sentinels.map fun sentinel =>
    if isNamed sentinelName sentinel then { sentinel with sentinelPtr := none } else sentinel

/-- The owner notes why it asks for a frequency. -/
def ownerHolds (sentinelName : Name) (reason : String) (sentinels : List GovernorSentinel) :
    List GovernorSentinel :=
  sentinels.map fun sentinel =>
    if isNamed sentinelName sentinel then
      { sentinel with
        sentinelPtr := sentinel.sentinelPtr.map fun s => { s with currentReason := reason } }
    else sentinel

end CpuGovernor

inductive GovernorEvent where
  | registerNewSentinel (newSentinel : Option CpuSentinel)
  | removeSentinel (sentinelName : Name)
  | setCpuFrequencyRequest (sentinelName : Name) (request : CpuFrequencyMHz)
  | resetCpuFrequencyRequest (sentinelName : Name)
  | blockWfiMode (sentinelName : Name) (request : Bool)
  | getMinimumFrequencyRequested
  | isWfiBlocked
  | inform
  | ownerDestroyed (sentinelName : Name)
  | ownerHolds (sentinelName : Name) (reason : String)
  deriving DecidableEq, Repr

namespace CpuGovernor

def step (sentinels : List GovernorSentinel) : GovernorEvent → List GovernorSentinel
  | .registerNewSentinel newSentinel => (registerNewSentinel newSentinel sentinels).1
  | .removeSentinel sentinelName => removeSentinel sentinelName sentinels
  | .setCpuFrequencyRequest sentinelName request =>
      setCpuFrequencyRequest sentinelName request sentinels
  | .resetCpuFrequencyRequest sentinelName => resetCpuFrequencyRequest sentinelName sentinels
  | .blockWfiMode sentinelName request => blockWfiMode sentinelName request sentinels
  | .getMinimumFrequencyRequested => (getMinimumFrequencyRequested sentinels).1
  | .isWfiBlocked => sentinels
  | .inform => informSentinelsAboutCpuFrequencyChange sentinels
  | .ownerDestroyed sentinelName => ownerDestroyed sentinelName sentinels
  | .ownerHolds sentinelName reason => ownerHolds sentinelName reason sentinels

def run (events : List GovernorEvent) : List GovernorSentinel := events.foldl step []

end CpuGovernor

end MuditaOS.Sys
