import Mathlib

/-!
# The earliest entries of a list

A waiting list that keeps only the entries with the least key is determined by
the entries up to its own key: what lies later may come, go and change without
it. `earliest_congr` is that fact, and `earliest_append_singleton` is the step of
a scan that builds the list.
-/

namespace MuditaOS.Lib

variable {α β : Type*} [LinearOrder β] {f : α → β} {xs ys : List α}

/-- The entries with the least key, in their order. -/
def earliest (f : α → β) (xs : List α) : List α :=
  xs.filter fun x => xs.all fun y => f x ≤ f y

/-- The entry is no later than the list's own, or the list has none. -/
def within (f : α → β) (front : List α) (x : α) : Bool :=
  match front with
  | [] => true
  | a :: _ => f x ≤ f a

@[simp] theorem earliest_nil : earliest f [] = [] := rfl

theorem mem_earliest {x : α} :
    x ∈ earliest f xs ↔ x ∈ xs ∧ ∀ y ∈ xs, f x ≤ f y := by
  simp [earliest]

theorem earliest_ne_nil (h : xs ≠ []) : earliest f xs ≠ [] := by
  obtain ⟨m, hm, hleast⟩ : ∃ m ∈ xs, ∀ y ∈ xs, f m ≤ f y := by
    induction xs with
    | nil => exact absurd rfl h
    | cons x xs ih =>
        by_cases hxs : xs = []
        · subst hxs
          exact ⟨x, by simp, by simp⟩
        · obtain ⟨m, hm, hleast⟩ := ih hxs
          rcases le_total (f x) (f m) with hle | hle
          · refine ⟨x, by simp, fun y hy => ?_⟩
            rcases List.mem_cons.1 hy with rfl | hy
            · exact le_refl _
            · exact le_trans hle (hleast y hy)
          · refine ⟨m, List.mem_cons_of_mem _ hm, fun y hy => ?_⟩
            rcases List.mem_cons.1 hy with rfl | hy
            · exact hle
            · exact hleast y hy
  exact List.ne_nil_of_mem (mem_earliest.2 ⟨hm, hleast⟩)

theorem earliest_eq_nil : earliest f xs = [] ↔ xs = [] := by
  refine ⟨fun h => ?_, fun h => by rw [h]; rfl⟩
  by_cases hxs : xs = []
  · exact hxs
  · exact absurd h (earliest_ne_nil hxs)

/-- All the earliest entries share one key, which bounds the list. -/
theorem earliest_eq_filter {a : α} {as : List α} (h : earliest f xs = a :: as) :
    (∀ y ∈ xs, f a ≤ f y) ∧ earliest f xs = xs.filter fun x => f x ≤ f a := by
  have ha := mem_earliest.1 (h ▸ List.mem_cons_self : a ∈ earliest f xs)
  refine ⟨ha.2, List.filter_congr fun x hx => ?_⟩
  rw [Bool.eq_iff_iff, List.all_eq_true, decide_eq_true_iff]
  refine ⟨fun hall => of_decide_eq_true (hall a ha.1), fun hle y hy => ?_⟩
  exact decide_eq_true (le_trans hle (ha.2 y hy))

theorem mem_earliest_of_within {x : α} (hx : x ∈ xs)
    (hw : within f (earliest f xs) x) : x ∈ earliest f xs := by
  cases h : earliest f xs with
  | nil => exact absurd (earliest_eq_nil.1 h) (List.ne_nil_of_mem hx)
  | cons a as =>
      rw [h] at hw
      rw [← h, (earliest_eq_filter h).2, List.mem_filter]
      exact ⟨hx, hw⟩

/-- Two lists that agree up to the key of the earliest entries of one have the
same earliest entries. -/
theorem earliest_congr
    (h : ys.filter (within f (earliest f xs)) =
      xs.filter (within f (earliest f xs))) : earliest f ys = earliest f xs := by
  cases hxs : earliest f xs with
  | nil =>
      have hall : within f (earliest f xs) = fun _ => true := by
        rw [hxs]
        rfl
      rw [hall, List.filter_true, List.filter_true] at h
      rw [h, hxs]
  | cons a as =>
      obtain ⟨hleast, hfilter⟩ := earliest_eq_filter hxs
      have hcut : within f (earliest f xs) = fun x => decide (f x ≤ f a) := by
        rw [hxs]
        rfl
      rw [hcut] at h
      have ha : a ∈ ys := by
        have : a ∈ xs.filter fun x => f x ≤ f a := by
          rw [← hfilter, hxs]
          exact List.mem_cons_self
        rw [← h] at this
        exact (List.mem_filter.1 this).1
      have hbound : ∀ y ∈ ys, f a ≤ f y := by
        intro y hy
        rcases le_total (f a) (f y) with hle | hle
        · exact hle
        · have : y ∈ ys.filter fun x => f x ≤ f a :=
            List.mem_filter.2 ⟨hy, decide_eq_true hle⟩
          rw [h] at this
          exact hleast y (List.mem_filter.1 this).1
      rw [← hxs, hfilter, ← h]
      refine List.filter_congr fun x hx => ?_
      rw [Bool.eq_iff_iff, List.all_eq_true, decide_eq_true_iff]
      refine ⟨fun hall => of_decide_eq_true (hall a ha), fun hle y hy => ?_⟩
      exact decide_eq_true (le_trans hle (hbound y hy))

/-- One step of a scan that keeps the earliest entries seen. -/
theorem earliest_append_singleton {a x : α} {as : List α}
    (h : earliest f xs = a :: as) :
    earliest f (xs ++ [x]) =
      if f x < f a then [x]
      else if f x = f a then a :: as ++ [x] else a :: as := by
  obtain ⟨hleast, hfilter⟩ := earliest_eq_filter h
  by_cases hlt : f x < f a
  · rw [if_pos hlt]
    have hnone : (xs.filter fun y => (xs ++ [x]).all fun z => f y ≤ f z) = [] := by
      refine List.filter_eq_nil_iff.2 fun y hy hall => ?_
      have := of_decide_eq_true (List.all_eq_true.1 hall x (by simp))
      exact absurd (lt_of_le_of_lt this hlt) (not_lt.2 (hleast y hy))
    have hkept : ((xs ++ [x]).all fun z => f x ≤ f z) = true := by
      refine List.all_eq_true.2 fun z hz => decide_eq_true ?_
      rcases List.mem_append.1 hz with hz | hz
      · exact le_of_lt (lt_of_lt_of_le hlt (hleast z hz))
      · rw [List.mem_singleton.1 hz]
    rw [earliest, List.filter_append, hnone, List.filter_singleton, hkept]
    rfl
  · rw [if_neg hlt]
    have hle : f a ≤ f x := not_lt.1 hlt
    have ha := mem_earliest.1 (h ▸ List.mem_cons_self : a ∈ earliest f xs)
    have hall : ∀ y ∈ xs ++ [x], ((xs ++ [x]).all fun z => f y ≤ f z) =
        decide (f y ≤ f a) := by
      intro y _
      rw [Bool.eq_iff_iff, List.all_eq_true, decide_eq_true_iff]
      refine ⟨fun hall => of_decide_eq_true (hall a (by simp [ha.1])), ?_⟩
      intro hya z hz
      refine decide_eq_true ?_
      rcases List.mem_append.1 hz with hz | hz
      · exact le_trans hya (hleast z hz)
      · rw [List.mem_singleton.1 hz]
        exact le_trans hya hle
    rw [earliest, List.filter_congr hall, List.filter_append, ← hfilter, h,
      List.filter_singleton]
    by_cases heq : f x = f a
    · rw [if_pos heq, decide_eq_true (le_of_eq heq)]
      rfl
    · have hgt : ¬ f x ≤ f a := fun hxa => heq (le_antisymm hxa hle)
      rw [if_neg heq, decide_eq_false hgt]
      simp

end MuditaOS.Lib
