import Mathlib.Data.List.Nodup
import Mathlib.Order.Basic

/-!
# Lists in the order of a field

What enters a queue is numbered, and the queue is in order as long as the numbers rise.
Then what is still in it is what came in without what has been taken out, in the order in
which it came. Only what goes past something else spoils the order.

A container that a comparison sorts puts what comes in behind its equivalents and takes the
first of them out, so that each class of them is a queue of its own.
-/

namespace MuditaOS.Lib

variable {α β : Type*} [Preorder β] {key : α → β} {l p m a b : List α} {x : α}

/-- The field rises along the list. -/
def InOrder (key : α → β) (l : List α) : Prop := l.Pairwise fun x y => key x < key y

theorem InOrder.sublist (h : InOrder key l) (hsub : m.Sublist l) : InOrder key m :=
  List.Pairwise.sublist hsub h

theorem InOrder.nodup (h : InOrder key l) : l.Nodup := by
  refine List.Pairwise.imp ?_ h
  rintro x _ hlt rfl
  exact lt_irrefl _ hlt

theorem inOrder_of_map (h : (l.map key).Pairwise (· < ·)) : InOrder key l :=
  List.pairwise_map.1 h

/-- What comes last, and is larger than all before, keeps the order. -/
theorem inOrder_append_singleton (h : ∀ y ∈ l, key y < key x) :
    InOrder key (l ++ [x]) ↔ InOrder key l := by
  constructor
  · intro hall
    exact hall.sublist (List.sublist_append_left l [x])
  · intro hl
    refine List.pairwise_append.2 ⟨hl, List.pairwise_singleton _ x, fun y hy z hz => ?_⟩
    rw [List.mem_singleton.1 hz]
    exact h y hy

/-- Two parts of a queue that is in order are in order the other way round only if there is
nothing in one of them. -/
theorem inOrder_swap (h : InOrder key (p ++ (a ++ (m ++ b)))) :
    InOrder key (p ++ (b ++ a)) ↔ a = [] ∨ b = [] := by
  constructor
  · intro hswap
    cases a with
    | nil => exact Or.inl rfl
    | cons x a =>
        right
        cases b with
        | nil => rfl
        | cons y b =>
            have hxy : key x < key y :=
              (List.pairwise_append.1 (List.pairwise_append.1 h).2.1).2.2 x
                List.mem_cons_self y (List.mem_append_right m List.mem_cons_self)
            have hyx : key y < key x :=
              (List.pairwise_append.1 (List.pairwise_append.1 hswap).2.1).2.2 y
                List.mem_cons_self x List.mem_cons_self
            exact absurd hxy (lt_asymm hyx)
  · rintro (rfl | rfl)
    · refine h.sublist (List.Sublist.append_left ?_ p)
      rw [List.append_nil]
      exact List.sublist_append_right m b
    · refine h.sublist (List.Sublist.append_left ?_ p)
      exact List.sublist_append_left a (m ++ [])

/-- A queue and what has been taken out of it are together what came in. So the queue is
in order exactly when it is what came in without what has been taken out. -/
theorem eq_filter_iff_inOrder [DecidableEq α] (hall : InOrder key l)
    (hperm : (m ++ a).Perm l) :
    m = l.filter (fun y => y ∉ a) ↔ InOrder key m := by
  have hrest : InOrder key (l.filter fun y => y ∉ a) := hall.sublist List.filter_sublist
  constructor
  · intro heq
    rw [heq]
    exact hrest
  · intro hm
    have hdisj : ∀ y ∈ m, y ∉ a := by
      intro y hy hya
      exact (List.nodup_append.1 (hperm.nodup_iff.2 hall.nodup)).2.2 y hy y hya rfl
    have hkept : (m ++ a).filter (fun y => y ∉ a) = m := by
      rw [List.filter_append, List.filter_eq_self.2, List.filter_eq_nil_iff.2, List.append_nil]
      · intro y hy
        simpa using hy
      · intro y hy
        simpa using hdisj y hy
    have hsame : m.Perm (l.filter fun y => y ∉ a) := by
      have := hperm.filter fun y => decide (y ∉ a)
      rwa [hkept] at this
    exact List.Perm.eq_of_pairwise
      (fun x y _ _ hxy hyx => absurd hxy (lt_asymm hyx)) hm hrest hsame

/-! ## A container that a comparison sorts -/

/-- What a comparison has to satisfy: not coming before is a preorder. -/
class WeakOrder (less : α → α → Bool) : Prop where
  asymm : ∀ {x y}, less x y = true → less y x = false
  trans : ∀ {x y z}, less x y = false → less y z = false → less x z = false

/-- Neither comes before the other. -/
def equivalent (less : α → α → Bool) (x y : α) : Bool := !less x y && !less y x

/-- Nothing stands in front of what comes before it. -/
structure SortedBy (less : α → α → Bool) where
  entries : List α
  sorted : entries.Pairwise fun x y => less y x = false

/-- Behind all that it does not come before. -/
def emplaced (less : α → α → Bool) (x : α) : List α → List α
  | [] => [x]
  | y :: ys => if less x y then x :: y :: ys else y :: emplaced less x ys

/-- The entries that are equivalent to one another. -/
def IsClass (less : α → α → Bool) (own : α → Bool) : Prop :=
  ∀ {x y}, own x = true → (own y = true ↔ equivalent less x y = true)

section

variable {less : α → α → Bool} {own : α → Bool}

theorem equivalent_iff {y : α} :
    equivalent less x y = true ↔ less x y = false ∧ less y x = false := by
  simp [equivalent]

theorem perm_emplaced : ∀ {l : List α}, (emplaced less x l).Perm (x :: l)
  | [] => .refl _
  | y :: ys => by
      rw [emplaced]
      split
      · exact .refl _
      · exact (perm_emplaced.cons y).trans (.swap x y ys)

theorem sorted_emplaced [WeakOrder less] (h : l.Pairwise fun x y => less y x = false) :
    (emplaced less x l).Pairwise fun x y => less y x = false := by
  induction l with
  | nil => exact List.pairwise_singleton _ x
  | cons y ys ih =>
      obtain ⟨hy, hys⟩ := List.pairwise_cons.1 h
      rw [emplaced]
      split
      · next hless =>
          have hyx := WeakOrder.asymm hless
          refine List.pairwise_cons.2 ⟨fun z hz => ?_, h⟩
          rcases List.mem_cons.1 hz with rfl | hz
          · exact hyx
          · exact WeakOrder.trans (hy z hz) hyx
      · next hless =>
          refine List.pairwise_cons.2 ⟨fun z hz => ?_, ih hys⟩
          rcases List.mem_cons.1 (perm_emplaced.mem_iff.1 hz) with rfl | hz
          · exact Bool.eq_false_iff.2 hless
          · exact hy z hz

/-- What comes in goes behind its whole class. -/
theorem filter_emplaced [WeakOrder less] (hown : IsClass less own)
    (h : l.Pairwise fun x y => less y x = false) :
    (emplaced less x l).filter own = l.filter own ++ [x].filter own := by
  induction l with
  | nil => rfl
  | cons y ys ih =>
      obtain ⟨hy, hys⟩ := List.pairwise_cons.1 h
      rw [emplaced]
      split
      · next hless =>
          cases hx : own x with
          | false => simp [hx]
          | true =>
              have hnone : (y :: ys).filter own = [] := by
                refine List.filter_eq_nil_iff.2 fun z hz hz' => ?_
                have hxz := (equivalent_iff.1 ((hown hx).1 hz')).1
                have hxy : less x y = false := by
                  rcases List.mem_cons.1 hz with rfl | hz
                  · exact hxz
                  · exact WeakOrder.trans hxz (hy z hz)
                rw [hxy] at hless
                cases hless
              rw [List.filter_cons_of_pos hx, hnone, List.filter_cons_of_pos hx]
              rfl
      · rw [List.filter_cons, List.filter_cons, ih hys]
        split <;> rfl

namespace SortedBy

def empty (less : α → α → Bool) : SortedBy less := ⟨[], .nil⟩

def emplace [WeakOrder less] (s : SortedBy less) (x : α) : SortedBy less :=
  ⟨emplaced less x s.entries, sorted_emplaced s.sorted⟩

/-- The first entry that is equivalent, and what is left without it. -/
def extract (s : SortedBy less) (x : α) : Option (α × SortedBy less) :=
  (s.entries.find? (equivalent less x)).map fun y =>
    (y, ⟨s.entries.eraseP (equivalent less x), s.sorted.eraseP _⟩)

variable {s rest : SortedBy less} {y : α}

theorem extract_eq_some (h : s.extract x = some (y, rest)) :
    ∃ before behind, s.entries = before ++ y :: behind ∧ rest.entries = before ++ behind ∧
      equivalent less x y = true ∧ ∀ z ∈ before, equivalent less x z = false := by
  obtain ⟨z, hfind, heq⟩ := Option.map_eq_some_iff.1 h
  cases heq
  obtain ⟨hy, before, behind, hentries, hbefore⟩ := List.find?_eq_some_iff_append.1 hfind
  have hnone : ∀ z ∈ before, ¬ equivalent less x z = true := fun z hz => by
    simpa using hbefore z hz
  refine ⟨before, behind, hentries, ?_, hy, fun z hz => Bool.eq_false_iff.2 (hnone z hz)⟩
  show s.entries.eraseP _ = _
  rw [hentries, List.eraseP_append_right _ hnone, List.eraseP_cons_of_pos hy]

/-- What goes out was the first of its class. -/
theorem filter_extract [WeakOrder less] (hown : IsClass less own)
    (h : s.extract x = some (y, rest)) :
    s.entries.filter own = [y].filter own ++ rest.entries.filter own := by
  obtain ⟨before, behind, hentries, hrest, hxy, hbefore⟩ := extract_eq_some h
  rw [hentries, hrest, List.filter_append, List.filter_append, List.filter_cons]
  cases hy : own y with
  | false => simp [hy]
  | true =>
      have hnone : before.filter own = [] := by
        refine List.filter_eq_nil_iff.2 fun z hz hz' => ?_
        have hyz := equivalent_iff.1 ((hown hy).1 hz')
        have hxy := equivalent_iff.1 hxy
        have hxz := equivalent_iff.2
          ⟨WeakOrder.trans hxy.1 hyz.1, WeakOrder.trans hyz.2 hxy.2⟩
        rw [hbefore z hz] at hxz
        cases hxz
      simp [hnone, hy]

end SortedBy

end

end MuditaOS.Lib
