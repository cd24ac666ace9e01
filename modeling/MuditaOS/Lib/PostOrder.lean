import Mathlib.Data.List.Basic
import Mathlib.Data.List.Nodup
import Mathlib.Logic.Relation

/-!
# Post-order

A depth-first search puts a node out once it has gone through all the edges of the node. What
it has visited and not yet put out is the path on which it is. If there is no cycle, none of
these can be at the end of an edge of the node that it has come to, so whatever that edge leads
to and has been visited is out already.
-/

namespace MuditaOS.Lib

variable {κ : Type*}

/-- Each node comes after all those that its edges lead to. -/
def InPostOrder (edges : κ → List κ) (out : List κ) : Prop :=
  ∀ before node after, out = before ++ node :: after → ∀ next ∈ edges node, next ∈ before

def Edge (edges : κ → List κ) (a b : κ) : Prop := b ∈ edges a

def Acyclic (edges : κ → List κ) : Prop := ∀ a, ¬ Relation.TransGen (Edge edges) a a

variable {edges : κ → List κ} {visited visited' visited'' : κ → Bool} {out out' out'' : List κ}
  {node next : κ}

/-- A rank that grows along the edges leaves no cycle. -/
theorem not_transGen_of_rank {edge : κ → κ → Prop} {rank : κ → Nat}
    (h : ∀ a b, edge a b → rank a < rank b) (a : κ) : ¬ Relation.TransGen edge a a := by
  intro hcycle
  have hlift := hcycle.lift rank h
  rw [Relation.transGen_eq_self] at hlift
  exact Nat.lt_irrefl _ hlift

theorem inPostOrder_nil : InPostOrder edges [] := by
  intro before node after h
  simp at h

theorem InPostOrder.concat (h : InPostOrder edges out) (hnext : ∀ next ∈ edges node, next ∈ out) :
    InPostOrder edges (out ++ [node]) := by
  intro before n after heq next hmem
  rcases List.eq_nil_or_concat after with rfl | ⟨after', last, rfl⟩
  · obtain ⟨rfl, hlast⟩ := List.append_inj' heq rfl
    obtain rfl : node = n := by simpa using hlast
    exact hnext next hmem
  · rw [List.concat_eq_append, ← List.cons_append, ← List.append_assoc] at heq
    obtain ⟨rfl, _⟩ := List.append_inj' heq rfl
    exact h before n after' rfl next hmem

/-! ## The state of a search -/

/-- What is out has been visited, once, and after all that its edges lead to. -/
structure Searching (edges : κ → List κ) (visited : κ → Bool) (out : List κ) : Prop where
  marked : ∀ node ∈ out, visited node = true
  nodup : out.Nodup
  order : InPostOrder edges out

/-- The search has come this far: the path is the same as before. -/
structure Onward (visited : κ → Bool) (out : List κ) (visited' : κ → Bool) (out' : List κ) :
    Prop where
  marked : ∀ node, visited node = true → visited' node = true
  mem : ∀ node ∈ out, node ∈ out'
  path : ∀ node, visited' node = true → node ∉ out' → visited node = true ∧ node ∉ out
  stays : ∀ node, visited node = true → node ∉ out → node ∉ out'

/-- There is a path to the node from all that has been visited and is not out. -/
def OnPath (edges : κ → List κ) (visited : κ → Bool) (out : List κ) (node : κ) : Prop :=
  ∀ open', visited open' = true → open' ∉ out → Relation.ReflTransGen (Edge edges) open' node

theorem searching_nil : Searching edges visited [] :=
  ⟨by simp, List.nodup_nil, inPostOrder_nil⟩

theorem Onward.refl : Onward visited out visited out :=
  ⟨fun _ h => h, fun _ h => h, fun _ h hnot => ⟨h, hnot⟩, fun _ _ hnot => hnot⟩

theorem Onward.trans (h : Onward visited out visited' out')
    (h' : Onward visited' out' visited'' out'') : Onward visited out visited'' out'' where
  marked := fun node hnode => h'.marked node (h.marked node hnode)
  mem := fun node hnode => h'.mem node (h.mem node hnode)
  path := by
    intro node hnode hnot
    obtain ⟨hvisited, hout⟩ := h'.path node hnode hnot
    exact h.path node hvisited hout
  stays := fun node hnode hnot => h'.stays node (h.marked node hnode) (h.stays node hnode hnot)

theorem OnPath.onward (h : OnPath edges visited out node)
    (hon : Onward visited out visited' out') : OnPath edges visited' out' node := by
  intro open' hopen hnot
  obtain ⟨hvisited, hout⟩ := hon.path open' hopen hnot
  exact h open' hvisited hout

/-- The search goes along an edge. -/
theorem OnPath.along (h : OnPath edges visited out node) (hedge : next ∈ edges node) :
    OnPath edges visited out next := fun open' hopen hnot =>
  (h open' hopen hnot).tail hedge

/-- What has been visited at the end of an edge is out. -/
theorem OnPath.mem_out (h : OnPath edges visited out node) (hacyclic : Acyclic edges)
    (hedge : next ∈ edges node) (hvisited : visited next = true) : next ∈ out := by
  by_contra hnot
  exact hacyclic next (Relation.TransGen.tail' (h next hvisited hnot) hedge)

/-- The search is through with a node. -/
theorem Searching.finish (h : Searching edges visited out) (hnot : node ∉ out)
    (hvisited : visited node = true) (hnext : ∀ next ∈ edges node, next ∈ out) :
    Searching edges visited (out ++ [node]) where
  marked := by
    intro n hn
    rcases List.mem_append.1 hn with hn | hn
    · exact h.marked n hn
    · rw [List.mem_singleton.1 hn, hvisited]
  nodup := by
    rw [List.nodup_append]
    refine ⟨h.nodup, List.nodup_singleton node, ?_⟩
    rintro a ha b hb rfl
    exact hnot (List.mem_singleton.1 hb ▸ ha)
  order := h.order.concat hnext

section Marks

variable [DecidableEq κ]

/-- The search comes to a node. -/
theorem Searching.mark (h : Searching edges visited out) :
    Searching edges (Function.update visited node true) out where
  marked := by
    intro n hn
    by_cases heq : n = node
    · rw [heq, Function.update_self]
    · rw [Function.update_of_ne heq]
      exact h.marked n hn
  nodup := h.nodup
  order := h.order

theorem OnPath.mark (h : OnPath edges visited out node) :
    OnPath edges (Function.update visited node true) out node := by
  intro open' hopen hnot
  by_cases heq : open' = node
  · rw [heq]
  · rw [Function.update_of_ne heq] at hopen
    exact h open' hopen hnot

/-- From the visit of a node to its end the path has not changed. -/
theorem Onward.finish (h : Onward (Function.update visited node true) out visited' out')
    (hfresh : ∀ n, visited n = true → n ≠ node) :
    Onward visited out visited' (out' ++ [node]) where
  marked := fun n hn => h.marked n (by rwa [Function.update_of_ne (hfresh n hn)])
  mem := fun n hn => List.mem_append_left _ (h.mem n hn)
  path := by
    intro n hn hnot
    rw [List.mem_append, not_or, List.mem_singleton] at hnot
    obtain ⟨hvisited, hout⟩ := h.path n hn hnot.1
    rw [Function.update_of_ne hnot.2] at hvisited
    exact ⟨hvisited, hout⟩
  stays := by
    intro n hn hnot
    rw [List.mem_append, not_or, List.mem_singleton]
    exact ⟨h.stays n (by rwa [Function.update_of_ne (hfresh n hn)]) hnot, hfresh n hn⟩

end Marks

end MuditaOS.Lib
