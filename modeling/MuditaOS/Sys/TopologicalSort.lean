import Mathlib.Logic.Function.Basic
import MuditaOS.Sys.Bus

/-!
# The order in which services start

A transcription of `TopologicalSort`. An entry of a map that has not been set is the default
one, so a map is a function. `visit` has fuel for its recursion. The layer that it counts is
not used.
-/

namespace MuditaOS.Sys

structure Node where
  name : Name
  dependencies : List Name
  deriving DecidableEq, Repr

namespace TopologicalSort

abbrev Edges := Name → List Name

abbrev VisitedMap := Name → Bool

def createEdges (nodes : List Node) : Edges :=
  nodes.foldl
    (fun edges node =>
      node.dependencies.foldl
        (fun edges dependency =>
          Function.update edges node.name (edges node.name ++ [dependency]))
        edges)
    fun _ => []

def createVisitedMap (nodes : List Node) : VisitedMap :=
  nodes.foldl (fun visited node => Function.update visited node.name false) fun _ => false

/-- `none` when the fuel runs out. -/
def visit (edges : Edges) : Nat → Name → VisitedMap × List Name →
    Option (VisitedMap × List Name)
  | 0, _, _ => none
  | fuel + 1, node, state =>
      let state := (edges node).foldlM
        (fun state dependency =>
          if state.1 dependency = false then visit edges fuel dependency state else some state)
        (Function.update state.1 node true, state.2)
      state.map fun state => (state.1, state.2 ++ [node])

/-- `none` where the end of the nodes would be dereferenced. -/
def prepareOutput (nodes : List Node) (sorted : List Name) : Option (List Node) :=
  sorted.mapM fun name => nodes.find? fun node => node.name = name

def sort (fuel : Nat) (nodes : List Node) : Option (List Node) :=
  let edges := createEdges nodes
  let state := nodes.foldlM
    (fun state node =>
      if state.1 node.name = false then visit edges fuel node.name state else some state)
    (createVisitedMap nodes, [])
  state.bind fun state => prepareOutput nodes state.2

end TopologicalSort

end MuditaOS.Sys
