import Mathlib.Data.Finset.Card
import Mathlib.Data.Finset.Dedup
import Mathlib.Data.List.Basic

/-!
# Sequences of held keys

A transcription of `GenericLongPressSequence.hpp`, of `KeySequenceMgr.cpp` and of what
they use of `KeyMap.hpp`. A sequence is known to the manager by its place in the
collection. The callbacks of a sequence only touch the two lists, so a call of `process`
returns the one that it invokes.
-/

namespace MuditaOS.Evtmgr

inductive KeyMap where
  | frontlight | back | lightPress | rotateLeft | rotateRight | deepPressUp | deepPressDown
  deriving DecidableEq, Repr

inductive RawKey.State where
  | undefined | pressed | released | moved
  deriving DecidableEq, Repr

structure RawKey where
  state : RawKey.State
  /-- The value of the enumerator. -/
  keyCode : Nat
  deriving DecidableEq, Repr

/-- Other keys are mapped to `KeyMap{}`: the assertion on them holds. -/
def mapKey (key : RawKey) : KeyMap :=
  match key.keyCode with
  | 21 => .frontlight
  | 23 => .back
  | 12 => .lightPress
  | 22 => .rotateLeft
  | 2 => .rotateRight
  | 11 => .deepPressUp
  | 13 => .deepPressDown
  | _ => .frontlight

/-- The keys whose bit is set. -/
abbrev KeyStates := Finset KeyMap

def KeyStates.put (states : KeyStates) (key : KeyMap) (value : Bool) : KeyStates :=
  if value then insert key states else states.erase key

def KeyStates.ifOnlySet (states : KeyStates) (keys : List KeyMap) : Prop :=
  states ⊆ keys.toFinset

instance {states : KeyStates} {keys : List KeyMap} : Decidable (states.ifOnlySet keys) :=
  inferInstanceAs (Decidable (states ⊆ keys.toFinset))

/-! ## A sequence -/

inductive State where
  | idle | inProgress | ready | abort
  deriving DecidableEq, Repr

inductive Callback where
  | triggered | ready | idle | abort
  deriving DecidableEq, Repr

structure GenericLongPressSequence where
  keys : List KeyMap
  /-- There is no fold over an empty pack. -/
  keys_ne : keys ≠ []
  state : State
  keyStates : KeyStates
  /-- Whether the timer has been started, and neither stopped nor expired since. -/
  timer : Bool

namespace GenericLongPressSequence

def ofKeys (keys : List KeyMap) (keys_ne : keys ≠ []) : GenericLongPressSequence :=
  ⟨keys, keys_ne, .idle, ∅, false⟩

variable (seq : GenericLongPressSequence)

def keysToScanCount : Nat := seq.keys.length

def switchToAbort : Option Callback × GenericLongPressSequence :=
  (some .abort, { seq with state := .abort, timer := false })

def switchToIdle : Option Callback × GenericLongPressSequence :=
  (some .idle, { seq with state := .idle })

def switchToInProgress : Option Callback × GenericLongPressSequence :=
  (some .triggered, { seq with state := .inProgress, timer := true })

/-- The keys that are down are those of the sequence. -/
def Matches : Prop :=
  seq.keyStates.card = seq.keysToScanCount ∧ seq.keyStates.ifOnlySet seq.keys

instance : Decidable seq.Matches := inferInstanceAs (Decidable (_ ∧ _))

/-- `process` once the key states are set. -/
def advance : Option Callback × GenericLongPressSequence :=
  match seq.state with
  | .idle => if seq.Matches then seq.switchToInProgress else (none, seq)
  | .inProgress | .ready =>
      if seq.keysToScanCount < seq.keyStates.card then seq.switchToAbort
      else if seq.keyStates.card < seq.keysToScanCount then seq.switchToIdle
      else (none, seq)
  | .abort => (none, if seq.keyStates.card = 0 then { seq with state := .idle } else seq)

def setKey (key : RawKey) : GenericLongPressSequence :=
  { seq with keyStates := seq.keyStates.put (mapKey key) (key.state = .pressed) }

def process (key : RawKey) : Option Callback × GenericLongPressSequence :=
  (seq.setKey key).advance

/-- The timer is a single shot. -/
def handleTimer : Option Callback × GenericLongPressSequence :=
  (some .ready, { seq with state := .ready, timer := false })

end GenericLongPressSequence

/-! ## The manager -/

inductive Effect where
  | action (seq : Nat)
  | backOfEmpty
  deriving DecidableEq, Repr

/-- The two lists of the manager. -/
structure Lists where
  inProgressSequences : List Nat
  readySequences : List Nat
  deriving DecidableEq, Repr

namespace Lists

variable (l : Lists) (seq : Nat)

def moveToReadyList : Lists :=
  if seq ∈ l.inProgressSequences then
    ⟨l.inProgressSequences.filter (· ≠ seq), l.readySequences ++ [seq]⟩
  else l

/-- `back` of an empty list is undefined; it is taken for a null pointer here. -/
def actionIfPossible : List Effect × Lists :=
  if l.inProgressSequences = [] then
    match l.readySequences.getLast? with
    | some s => ([.action s], { l with readySequences := [] })
    | none => ([.backOfEmpty], l)
  else ([], l)

def removeFromInProgressList : Lists :=
  if seq ∈ l.inProgressSequences then
    { l with inProgressSequences := l.inProgressSequences.filter (· ≠ seq) }
  else l

def removeFromReadyList : Lists :=
  if seq ∈ l.readySequences then
    { l with readySequences := l.readySequences.filter (· ≠ seq) }
  else l

def addToInProgressList : Lists :=
  { l with inProgressSequences := l.inProgressSequences ++ [seq] }

def invoke : Option Callback → List Effect × Lists
  | some .triggered => ([], l.addToInProgressList seq)
  | some .ready => (l.moveToReadyList seq).actionIfPossible
  | some .idle => (l.removeFromInProgressList seq).actionIfPossible
  | some .abort => ([], (l.removeFromInProgressList seq).removeFromReadyList seq)
  | none => ([], l)

end Lists

structure KeySequenceMgr where
  sequenceCollection : List GenericLongPressSequence
  lists : Lists

/-- The loop of `process`, from the place of its first sequence. -/
def processFrom (key : RawKey) : Nat → List GenericLongPressSequence → Lists →
    List Effect × List GenericLongPressSequence × Lists
  | _, [], l => ([], [], l)
  | i, seq :: seqs, l =>
      let (callback, seq) := seq.process key
      let (effects, l) := l.invoke i callback
      let (rest, seqs, l) := processFrom key (i + 1) seqs l
      (effects ++ rest, seq :: seqs, l)

namespace KeySequenceMgr

def ofSequences (sequenceCollection : List GenericLongPressSequence) : KeySequenceMgr :=
  ⟨sequenceCollection, [], []⟩

variable (m : KeySequenceMgr)

def process (key : RawKey) : List Effect × KeySequenceMgr :=
  let (effects, seqs, l) := processFrom key 0 m.sequenceCollection m.lists
  (effects, ⟨seqs, l⟩)

/-- The timer of a sequence expires, if it runs. -/
def expire (i : Nat) : List Effect × KeySequenceMgr :=
  match m.sequenceCollection[i]? with
  | some seq =>
      if seq.timer then
        let (callback, seq) := seq.handleTimer
        let (effects, l) := m.lists.invoke i callback
        (effects, ⟨m.sequenceCollection.set i seq, l⟩)
      else ([], m)
  | none => ([], m)

end KeySequenceMgr

end MuditaOS.Evtmgr
