import Mathlib.Data.Finset.Dedup
import Mathlib.Data.List.Perm.Basic
import Mathlib.Data.List.Nodup
import MuditaOS.Lib.PostOrder
import MuditaOS.Sys.TopologicalSort

/-!
# Services start after their dependencies

`visit` is a depth-first search that puts the nodes out in post-order. Each call of it marks
a name that has not been visited, and a name stays visited, so the recursion is never deeper
than there are names: this is the fuel. What has been visited and is not out is the path to
the node that is visited, as the calls in progress are, so without a cycle a dependency that
has been visited is out.
-/

namespace MuditaOS.Sys.TopologicalSort

open MuditaOS.Lib

variable {edges : Edges} {names : List Name} {nodes : List Node} {fuel : Nat}
  {state : VisitedMap × List Name}

/-! ## The search -/

def unvisited (names : List Name) (visited : VisitedMap) : Nat :=
  names.countP fun name => visited name = false

/-- What a part of the search makes of the state. -/
structure Goes (edges : Edges) (names : List Name) (state state' : VisitedMap × List Name) :
    Prop where
  onward : Onward state.1 state.2 state'.1 state'.2
  searching : Searching edges state'.1 state'.2
  names : ∀ name ∈ state'.2, name ∈ names

/-- A visit of a name that can be reached, with fuel for all that is unvisited, ends with the
name put out. -/
def Visits (edges : Edges) (names : List Name) (fuel : Nat) : Prop :=
  ∀ node ∈ names, ∀ state : VisitedMap × List Name, state.1 node = false →
    unvisited names state.1 ≤ fuel → Searching edges state.1 state.2 →
    OnPath edges state.1 state.2 node → (∀ name ∈ state.2, name ∈ names) →
    ∃ state', visit edges fuel node state = some state' ∧ Goes edges names state state' ∧
      node ∈ state'.2

theorem unvisited_le {visited visited' : VisitedMap}
    (h : ∀ name, visited name = true → visited' name = true) :
    unvisited names visited' ≤ unvisited names visited := by
  refine List.countP_mono_left fun name _ hname => ?_
  cases hvisited : visited name with
  | false => rfl
  | true => simp [h name hvisited] at hname

theorem unvisited_update_lt {visited : VisitedMap} {node : Name} (hmem : node ∈ names)
    (hnot : visited node = false) :
    unvisited names (Function.update visited node true) < unvisited names visited := by
  have hle : ∀ list : List Name,
      unvisited list (Function.update visited node true) ≤ unvisited list visited := by
    intro list
    refine unvisited_le fun name hname => ?_
    by_cases heq : name = node
    · rw [heq, Function.update_self]
    · rwa [Function.update_of_ne heq]
  obtain ⟨before, after, rfl⟩ := List.append_of_mem hmem
  have hbefore := hle before
  have hafter := hle after
  simp only [unvisited, List.countP_append, List.countP_cons, Function.update_self, hnot,
    decide_true, Bool.true_eq_false, decide_false, Bool.false_eq_true, if_false, if_true] at *
  omega

/-- The loops: what has not been visited when its turn comes is visited then. -/
theorem visits_loop (hvisits : Visits edges names fuel) :
    ∀ {dependencies : List Name} {state : VisitedMap × List Name},
      (∀ name ∈ dependencies, name ∈ names) → unvisited names state.1 ≤ fuel →
      Searching edges state.1 state.2 → (∀ name ∈ state.2, name ∈ names) →
      (∀ name ∈ dependencies, ∀ visited out, Onward state.1 state.2 visited out →
        OnPath edges visited out name ∧ (visited name = true → name ∈ out)) →
      ∃ state', dependencies.foldlM
          (fun state dependency =>
            if state.1 dependency = false then visit edges fuel dependency state else some state)
          state = some state' ∧
        Goes edges names state state' ∧ ∀ name ∈ dependencies, name ∈ state'.2 := by
  intro dependencies
  induction dependencies with
  | nil =>
      intro state _ _ hsearch hnames _
      exact ⟨state, rfl, ⟨Onward.refl, hsearch, hnames⟩, by simp⟩
  | cons dependency rest ih =>
      intro state hmem hfuel hsearch hnames hpath
      obtain ⟨hon, hout⟩ := hpath dependency List.mem_cons_self _ _ Onward.refl
      -- the state once this dependency is out
      obtain ⟨next, hnext, hgoes, hdone⟩ : ∃ next,
          (if state.1 dependency = false then visit edges fuel dependency state else some state)
            = some next ∧ Goes edges names state next ∧ dependency ∈ next.2 := by
        by_cases hvisited : state.1 dependency = false
        · rw [if_pos hvisited]
          exact hvisits dependency (hmem dependency List.mem_cons_self) state hvisited hfuel
            hsearch hon hnames
        · rw [if_neg hvisited]
          exact ⟨state, rfl, ⟨Onward.refl, hsearch, hnames⟩,
            hout (by simpa using hvisited)⟩
      obtain ⟨last, hlast, hgoes', hrest⟩ := ih
        (fun name h => hmem name (List.mem_cons_of_mem _ h))
        (Nat.le_trans (unvisited_le hgoes.onward.marked) hfuel) hgoes.searching hgoes.names
        (fun name h visited out hlater =>
          hpath name (List.mem_cons_of_mem _ h) visited out (hgoes.onward.trans hlater))
      refine ⟨last, ?_, ⟨hgoes.onward.trans hgoes'.onward, hgoes'.searching, hgoes'.names⟩, ?_⟩
      · rw [List.foldlM_cons, hnext]
        exact hlast
      · intro name h
        rcases List.mem_cons.1 h with rfl | h
        · exact hgoes'.onward.mem name hdone
        · exact hrest name h

theorem visits (hnames : ∀ node ∈ names, ∀ dependency ∈ edges node, dependency ∈ names)
    (hacyclic : Acyclic edges) : Visits edges names fuel := by
  induction fuel with
  | zero =>
      intro node hmem state hnot hfuel
      have := unvisited_update_lt hmem hnot
      omega
  | succ fuel ih =>
      intro node hmem state hnot hfuel hsearch hpath hout
      have hlt := unvisited_update_lt hmem hnot
      obtain ⟨state', hloop, hgoes, hdone⟩ :=
        @visits_loop _ _ _ ih _ (Function.update state.1 node true, state.2) (hnames node hmem)
          (by change unvisited names (Function.update state.1 node true) ≤ fuel; omega)
          hsearch.mark hout fun dependency hdep visited out hon =>
            ⟨(hpath.mark.onward hon).along hdep, (hpath.mark.onward hon).mem_out hacyclic hdep⟩
      -- the node is on the path, and so it is not out
      have hmarked : state'.1 node = true := hgoes.onward.marked node (by simp)
      have hfresh : ∀ name, state.1 name = true → name ≠ node := by
        rintro name hname rfl
        simp [hnot] at hname
      have hnotOut : node ∉ state'.2 := hgoes.onward.stays node (by simp) fun hmem =>
        hfresh node (hsearch.marked node hmem) rfl
      refine ⟨(state'.1, state'.2 ++ [node]), ?_, ⟨hgoes.onward.finish hfresh, ?_, ?_⟩, by simp⟩
      · rw [visit, hloop]
        rfl
      · exact hgoes.searching.finish hnotOut hmarked hdone
      · intro name hname
        rcases List.mem_append.1 hname with h | h
        · exact hgoes.names name h
        · rw [List.mem_singleton.1 h]
          exact hmem

/-! ## More fuel -/

theorem foldlM_imp {α β : Type} {f g : β → α → Option β}
    (h : ∀ b a r, f b a = some r → g b a = some r) :
    ∀ {list : List α} {b r : β}, list.foldlM f b = some r → list.foldlM g b = some r := by
  intro list
  induction list with
  | nil => exact fun hr => hr
  | cons a list ih =>
      intro b r hr
      rw [List.foldlM_cons] at hr ⊢
      obtain ⟨next, hnext, hrest⟩ := Option.bind_eq_some_iff.1 hr
      exact Option.bind_eq_some_iff.2 ⟨next, h b a next hnext, ih hrest⟩

theorem visit_succ {node : Name} {state' : VisitedMap × List Name}
    (h : visit edges fuel node state = some state') :
    visit edges (fuel + 1) node state = some state' := by
  induction fuel generalizing node state state' with
  | zero => cases h
  | succ fuel ih =>
      rw [visit] at h ⊢
      obtain ⟨last, hloop, hlast⟩ := Option.map_eq_some_iff.1 h
      refine Option.map_eq_some_iff.2 ⟨last, foldlM_imp (fun b a r hr => ?_) hloop, hlast⟩
      split at hr
      case isTrue hnot =>
          rw [if_pos hnot]
          exact ih hr
      case isFalse hvisited => rwa [if_neg hvisited]

theorem sort_le {sorted : List Node} {more : Nat} (h : sort fuel nodes = some sorted)
    (hle : fuel ≤ more) : sort more nodes = some sorted := by
  induction hle with
  | refl => exact h
  | step _ ih =>
      rw [sort] at ih ⊢
      obtain ⟨last, hloop, hlast⟩ := Option.bind_eq_some_iff.1 ih
      refine Option.bind_eq_some_iff.2 ⟨last, foldlM_imp (fun b a r hr => ?_) hloop, hlast⟩
      split at hr
      case isTrue hnot =>
          rw [if_pos hnot]
          exact visit_succ hr
      case isFalse hvisited => rwa [if_neg hvisited]

/-! ## The maps -/

/-- One name depends on another. -/
def DependsOn (nodes : List Node) (name dependency : Name) : Prop :=
  ∃ node ∈ nodes, node.name = name ∧ dependency ∈ node.dependencies

theorem foldl_dependencies {name : Name} {dependencies : List Name} {edges : Edges} :
    dependencies.foldl
        (fun edges dependency => Function.update edges name (edges name ++ [dependency])) edges
      = Function.update edges name (edges name ++ dependencies) := by
  induction dependencies generalizing edges with
  | nil => simp
  | cons dependency rest ih => simp [ih, List.append_assoc]

theorem mem_createEdges {name dependency : Name} :
    dependency ∈ createEdges nodes name ↔ DependsOn nodes name dependency := by
  have hfold : ∀ (list : List Node) (edges : Edges),
      dependency ∈ list.foldl (fun edges node => node.dependencies.foldl
        (fun edges dependency =>
          Function.update edges node.name (edges node.name ++ [dependency])) edges) edges name ↔
        dependency ∈ edges name ∨ DependsOn list name dependency := by
    intro list
    induction list with
    | nil => simp [DependsOn]
    | cons node list ih =>
        intro edges
        rw [List.foldl_cons, ih, foldl_dependencies]
        by_cases heq : name = node.name
        · simp [heq, DependsOn, or_assoc]
        · simp [heq, DependsOn, Ne.symm heq]
  rw [createEdges, hfold]
  simp

theorem createVisitedMap_eq : createVisitedMap nodes = fun _ => false := by
  rw [createVisitedMap]
  induction nodes with
  | nil => rfl
  | cons node nodes ih =>
      rw [List.foldl_cons, Function.update_eq_self_iff.2 rfl]
      exact ih

/-! ## The output -/

theorem prepareOutput_spec {sorted : List Name}
    (h : ∀ name ∈ sorted, name ∈ nodes.map Node.name) :
    ∃ output, prepareOutput nodes sorted = some output ∧ output.map Node.name = sorted ∧
      ∀ node ∈ output, node ∈ nodes := by
  induction sorted with
  | nil => exact ⟨[], rfl, rfl, by simp⟩
  | cons name sorted ih =>
      obtain ⟨output, hout, hnames, hmem⟩ := ih fun n hn => h n (List.mem_cons_of_mem _ hn)
      obtain ⟨node, hnode, hname⟩ := List.mem_map.1 (h name List.mem_cons_self)
      obtain ⟨found, hfound⟩ : ∃ found,
          nodes.find? (fun node => node.name = name) = some found := by
        rw [← Option.isSome_iff_exists, List.find?_isSome]
        exact ⟨node, hnode, by simpa using hname⟩
      refine ⟨found :: output, ?_, ?_, ?_⟩
      · rw [prepareOutput] at hout ⊢
        rw [List.mapM_cons, hfound, hout]
        rfl
      · have hfoundName : found.name = name := by simpa using List.find?_some hfound
        rw [List.map_cons, hnames, hfoundName]
      · intro n hn
        rcases List.mem_cons.1 hn with rfl | hn
        · exact List.mem_of_find?_eq_some hfound
        · exact hmem n hn

/-- Each node comes after all its dependencies. -/
def StartsInOrder (sorted : List Node) : Prop :=
  ∀ before node after, sorted = before ++ node :: after →
    ∀ dependency ∈ node.dependencies, dependency ∈ before.map Node.name

/-- If the names are distinct, the dependencies are among them and there is no cycle, then with
fuel for as many calls as there are nodes the nodes are sorted: all of them, and each after
its dependencies. -/
theorem sort_startsInOrder (hdistinct : (nodes.map Node.name).Nodup)
    (hknown : ∀ name dependency, DependsOn nodes name dependency →
      dependency ∈ nodes.map Node.name)
    (hacyclic : ∀ name, ¬ Relation.TransGen (DependsOn nodes) name name) :
    ∃ sorted, (∀ fuel, nodes.length ≤ fuel → sort fuel nodes = some sorted) ∧
      sorted.Perm nodes ∧ StartsInOrder sorted := by
  have hedge : Edge (createEdges nodes) = DependsOn nodes := by
    ext name dependency
    exact mem_createEdges
  -- nothing has been visited, so the path is empty
  have hempty : ∀ visited out, Onward (createVisitedMap nodes) [] visited out →
      ∀ name, visited name = true → name ∈ out := by
    intro visited out hon name hvisited
    by_contra hnot
    have hbefore := (hon.path name hvisited hnot).1
    rw [createVisitedMap_eq] at hbefore
    cases hbefore
  have hvisits : Visits (createEdges nodes) (nodes.map Node.name) nodes.length :=
    visits (fun node _ dependency hdep => hknown node dependency (mem_createEdges.1 hdep))
      (by rw [Acyclic, hedge]; exact hacyclic)
  obtain ⟨last, hloop, hgoes, hall⟩ := @visits_loop _ _ _ hvisits (nodes.map Node.name)
    (createVisitedMap nodes, []) (fun _ h => h)
    (by
      rw [createVisitedMap_eq]
      simp [unvisited])
    (by rw [createVisitedMap_eq]; exact searching_nil) (by simp)
    (fun name _ visited out hon =>
      ⟨fun open' hopen hnot => absurd (hempty visited out hon open' hopen) hnot,
        hempty visited out hon name⟩)
  obtain ⟨sorted, hsorted, hnames, hmem⟩ := prepareOutput_spec hgoes.names
  refine ⟨sorted, fun fuel hfuel => sort_le ?_ hfuel, ?_, ?_⟩
  · rw [List.foldlM_map] at hloop
    rw [sort, hloop]
    exact hsorted
  · rw [List.perm_ext_iff_of_nodup
      (List.Nodup.of_map Node.name (by rw [hnames]; exact hgoes.searching.nodup))
      (List.Nodup.of_map Node.name hdistinct)]
    intro node
    refine ⟨hmem node, fun hnode => ?_⟩
    have hout := hall node.name (List.mem_map_of_mem hnode)
    rw [← hnames] at hout
    obtain ⟨same, hsame, hname⟩ := List.mem_map.1 hout
    rwa [← List.inj_on_of_nodup_map hdistinct (hmem same hsame) hnode hname]
  · rintro before node after rfl dependency hdep
    have hnode := hmem node (by simp)
    refine hgoes.searching.order (before.map Node.name) node.name (after.map Node.name) ?_
      dependency (mem_createEdges.2 ⟨node, hnode, rfl, hdep⟩)
    rw [← hnames, List.map_append, List.map_cons]

/-- Three services, the first of which needs both others, and the second the third. -/
theorem sort_startsInOrder_three :
    ∃ sorted, (∀ fuel, 3 ≤ fuel → sort fuel [⟨[1], [[2], [3]]⟩, ⟨[2], [[3]]⟩, ⟨[3], []⟩]
        = some sorted) ∧
      sorted.Perm [⟨[1], [[2], [3]]⟩, ⟨[2], [[3]]⟩, ⟨[3], []⟩] ∧ StartsInOrder sorted := by
  refine @sort_startsInOrder [⟨[1], [[2], [3]]⟩, ⟨[2], [[3]]⟩, ⟨[3], []⟩] (by decide) ?_
    (@not_transGen_of_rank _ _ (fun name => (name.headD 0).toNat) ?_)
  all_goals
    intro name dependency hdepends
    simp only [DependsOn, List.mem_cons, List.not_mem_nil, or_false] at hdepends
    obtain ⟨node, rfl | rfl | rfl, rfl, hdep⟩ := hdepends <;> simp at hdep
  · rcases hdep with rfl | rfl <;> decide
  · rw [hdep]
    decide
  · rcases hdep with rfl | rfl <;> decide
  · rw [hdep]
    decide

end MuditaOS.Sys.TopologicalSort
