import Mathlib.Data.List.TakeDrop
import Mathlib.Data.Nat.Find

/-!
# A search through pages

A long list is asked for page by page until a page has what is looked for, or there is none.
The pages come from a function of their number, which need not be that of a list: the end is
wherever the next page is empty. For the pages of a list, one behind the other, the search
is that in the list.
-/

namespace MuditaOS.Lib

variable {α : Type*} {p : α → Bool} {pages : Nat → List α} {x : α} {l : List α}
  {i k limit : Nat}

/-- The search from a page on; there is no answer where it has not ended in so many pages. -/
def searchPages (p : α → Bool) (pages : Nat → List α) : Nat → Nat → Option (Option α)
  | 0, _ => none
  | fuel + 1, k =>
      match (pages k).find? p with
      | some x => some (some x)
      | none => if pages (k + 1) = [] then some none else searchPages p pages fuel (k + 1)

/-- The pages before this one have nothing, and are followed by another. -/
def Passes (p : α → Bool) (pages : Nat → List α) (k : Nat) : Prop :=
  ∀ j < k, (pages j).find? p = none ∧ pages (j + 1) ≠ []

def ComesFirst (p : α → Bool) (pages : Nat → List α) (x : α) : Prop :=
  ∃ k, Passes p pages k ∧ (pages k).find? p = some x

def ComesToEnd (p : α → Bool) (pages : Nat → List α) : Prop :=
  ∃ k, Passes p pages k ∧ (pages k).find? p = none ∧ pages (k + 1) = []

theorem passes_zero : Passes p pages 0 := fun _ hj => absurd hj (Nat.not_lt_zero _)

theorem passes_succ : Passes p pages (k + 1) ↔
    ((pages 0).find? p = none ∧ pages 1 ≠ []) ∧ Passes p (fun j => pages (j + 1)) k := by
  constructor
  · intro h
    exact ⟨h 0 (Nat.succ_pos k), fun j hj => h (j + 1) (Nat.succ_lt_succ hj)⟩
  · intro ⟨hzero, h⟩ j hj
    cases j with
    | zero => exact hzero
    | succ j => exact h j (Nat.lt_of_succ_lt_succ hj)

theorem searchPages_shift {fuel : Nat} : searchPages p pages fuel (k + 1) =
    searchPages p (fun j => pages (j + 1)) fuel k := by
  induction fuel generalizing k with
  | zero => rfl
  | succ fuel ih => rw [searchPages, searchPages, ih]

/-- The search ends with one of the two, and then with that. -/
theorem searchPages_eq_some {fuel : Nat} {result : Option α}
    (h : searchPages p pages fuel 0 = some result) :
    match result with
    | some x => ComesFirst p pages x
    | none => ComesToEnd p pages := by
  induction fuel generalizing pages with
  | zero => cases h
  | succ fuel ih =>
      rw [searchPages] at h
      cases hfind : (pages 0).find? p with
      | some x =>
          rw [hfind] at h
          cases h
          exact ⟨0, passes_zero, hfind⟩
      | none =>
          rw [hfind] at h
          by_cases hend : pages 1 = []
          · simp only [Nat.zero_add, if_pos hend] at h
            cases h
            exact ⟨0, passes_zero, hfind, hend⟩
          · simp only [Nat.zero_add, if_neg hend] at h
            have hrest := ih (searchPages_shift.symm.trans h)
            cases result with
            | some x =>
                obtain ⟨k, hpasses, hx⟩ := hrest
                exact ⟨k + 1, passes_succ.2 ⟨⟨hfind, hend⟩, hpasses⟩, hx⟩
            | none =>
                obtain ⟨k, hpasses, hnone⟩ := hrest
                exact ⟨k + 1, passes_succ.2 ⟨⟨hfind, hend⟩, hpasses⟩, hnone⟩

theorem searchPages_of_passes {fuel : Nat} (h : Passes p pages k) :
    searchPages p pages (k + fuel) 0 = searchPages p pages fuel k := by
  induction k generalizing pages with
  | zero => rw [Nat.zero_add]
  | succ k ih =>
      obtain ⟨⟨hfind, hnext⟩, hpasses⟩ := passes_succ.1 h
      rw [Nat.succ_add, searchPages, hfind]
      simp only [Nat.zero_add, if_neg hnext]
      rw [searchPages_shift, ih hpasses, searchPages_shift]

theorem ComesFirst.search (h : ComesFirst p pages x) :
    ∃ fuel, searchPages p pages fuel 0 = some (some x) := by
  obtain ⟨k, hpasses, hx⟩ := h
  refine ⟨k + 1, ?_⟩
  rw [searchPages_of_passes hpasses, searchPages, hx]

theorem ComesToEnd.search (h : ComesToEnd p pages) :
    ∃ fuel, searchPages p pages fuel 0 = some none := by
  obtain ⟨k, hpasses, hnone, hend⟩ := h
  refine ⟨k + 1, ?_⟩
  rw [searchPages_of_passes hpasses, searchPages, hnone]
  exact if_pos hend

/-- Where nothing is found anywhere, the search ends if some later page is empty. -/
theorem comesToEnd_of_empty (hnone : ∀ k, (pages k).find? p = none) (h : pages (k + 1) = []) :
    ComesToEnd p pages := by
  classical
  have hexists : ∃ k, pages (k + 1) = [] := ⟨k, h⟩
  refine ⟨Nat.find hexists, fun j hj => ⟨hnone j, Nat.find_min hexists hj⟩, hnone _,
    Nat.find_spec hexists⟩

/-- The search does not come past an empty page behind the first. -/
theorem ComesFirst.congr {pages' : Nat → List α} (h : ComesFirst p pages x)
    (hend : pages (k + 1) = []) (hsame : ∀ j ≤ k, pages j = pages' j) : ComesFirst p pages' x := by
  obtain ⟨n, hpasses, hx⟩ := h
  have hn : n ≤ k := Nat.le_of_not_lt fun hlt => (hpasses k hlt).2 hend
  refine ⟨n, fun j hj => ?_, hsame n hn ▸ hx⟩
  rw [← hsame j (by omega), ← hsame (j + 1) (by omega)]
  exact hpasses j hj

/-! ## The pages of a list -/

def page (l : List α) (limit k : Nat) : List α := (l.drop (k * limit)).take limit

theorem page_eq_nil_iff (hlimit : 0 < limit) : page l limit k = [] ↔ l.length ≤ k * limit := by
  rw [page, List.take_eq_nil_iff, List.drop_eq_nil_iff, or_iff_right (Nat.ne_of_gt hlimit)]

theorem page_succ : page l limit (k + 1) = page (l.drop limit) limit k := by
  rw [page, page, List.drop_drop, Nat.succ_mul, Nat.add_comm]

/-- The pages one behind the other. -/
theorem flatten_pages : ((List.range k).map (page l limit)).flatten = l.take (k * limit) := by
  induction k with
  | zero => rw [Nat.zero_mul, List.take_zero]; rfl
  | succ k ih =>
      rw [List.range_succ, List.map_append, List.flatten_append, ih, List.map_singleton,
        List.flatten_singleton, page, Nat.succ_mul, List.take_add]

theorem getElem?_page {i : Nat} (h : i < limit) : (page l limit k)[i]? = l[k * limit + i]? := by
  rw [page, List.getElem?_take_of_lt h, List.getElem?_drop]

theorem length_page : (page l limit k).length = min limit (l.length - k * limit) := by
  rw [page, List.length_take, List.length_drop]

/-- The first hit of the list is the first on its pages, up to the one that it is on. -/
theorem find?_eq_of_page (h : (page l limit k).find? p = some x)
    (hbefore : ∀ j < k, (page l limit j).find? p = none) : l.find? p = some x := by
  induction k generalizing l with
  | zero =>
      rw [page, Nat.zero_mul, List.drop_zero] at h
      rw [← List.take_append_drop limit l, List.find?_append, h]
      rfl
  | succ k ih =>
      have hfirst := hbefore 0 (Nat.succ_pos k)
      rw [page, Nat.zero_mul, List.drop_zero] at hfirst
      rw [← List.take_append_drop limit l, List.find?_append, hfirst, Option.none_or]
      refine ih (page_succ ▸ h) fun j hj => ?_
      rw [← page_succ]
      exact hbefore (j + 1) (Nat.succ_lt_succ hj)

/-- The first hit is on the page that its place says. -/
theorem comesFirst_of_find? (hlimit : 0 < limit) (h : l.find? p = some x) :
    ComesFirst p (page l limit) x := by
  obtain ⟨n, hn⟩ : ∃ n, l.length ≤ n := ⟨_, Nat.le_refl _⟩
  induction n generalizing l with
  | zero =>
      rw [List.length_eq_zero_iff.1 (Nat.le_zero.1 hn)] at h
      cases h
  | succ n ih =>
      have hsplit := h
      rw [← List.take_append_drop limit l, List.find?_append] at hsplit
      have hpage : page l limit 0 = l.take limit := by
        rw [page, Nat.zero_mul, List.drop_zero]
      cases hfirst : (l.take limit).find? p with
      | some y =>
          rw [hfirst, Option.some_or] at hsplit
          exact ⟨0, passes_zero, by rw [hpage, hfirst, hsplit]⟩
      | none =>
          rw [hfirst, Option.none_or] at hsplit
          obtain ⟨k, hpasses, hx⟩ := ih hsplit (by
            have := List.length_pos_of_mem (List.mem_of_find?_eq_some h)
            rw [List.length_drop]
            omega)
          have hpages : page (l.drop limit) limit = fun j => page l limit (j + 1) :=
            funext fun _ => page_succ.symm
          rw [hpages] at hpasses hx
          refine ⟨k + 1, passes_succ.2 ⟨⟨hpage ▸ hfirst, fun hnil => ?_⟩, hpasses⟩, hx⟩
          rw [page_eq_nil_iff hlimit, Nat.one_mul] at hnil
          rw [List.drop_eq_nil_of_le hnil] at hsplit
          cases hsplit

theorem comesFirst_page_iff (hlimit : 0 < limit) :
    ComesFirst p (page l limit) x ↔ l.find? p = some x := by
  constructor
  · intro ⟨k, hpasses, hx⟩
    exact find?_eq_of_page hx fun j hj => (hpasses j hj).1
  · exact comesFirst_of_find? hlimit

end MuditaOS.Lib
