import Mathlib

/-!
# Cutting a list into parts of bounded weight

Elements have weights, and a list has to be cut, between its elements, into
parts no heavier than `k`. Taking as much as fits each time is optimal: whatever
another cut has consumed with the same number of parts, the greedy one has
consumed at least that. `Greedy.isLeast` is the consequence for the number of
parts.
-/

namespace MuditaOS.Lib

variable {α : Type*} {w : α → Nat} {k : Nat}

def weight (w : α → Nat) (l : List α) : Nat := (l.map w).sum

@[simp] theorem weight_nil : weight w [] = 0 := rfl

@[simp] theorem weight_cons {a : α} {l : List α} :
    weight w (a :: l) = w a + weight w l := rfl

@[simp] theorem weight_append {l m : List α} :
    weight w (l ++ m) = weight w l + weight w m := by
  rw [weight, List.map_append, List.sum_append]
  rfl

theorem length_le_weight (hw : ∀ a, 0 < w a) : ∀ {l : List α},
    l.length ≤ weight w l := by
  intro l
  induction l with
  | nil => exact Nat.le_refl 0
  | cons a l ih =>
      have := hw a
      rw [List.length_cons, weight_cons]
      omega

theorem weight_eq_length : ∀ {l : List α}, (∀ a ∈ l, w a = 1) →
    weight w l = l.length := by
  intro l
  induction l with
  | nil => exact fun _ => rfl
  | cons a l ih =>
      intro hw
      rw [weight_cons, hw a List.mem_cons_self,
        ih fun b hb => hw b (List.mem_cons_of_mem a hb), List.length_cons,
        Nat.add_comm]

/-- A cut of the list into parts that are not empty and fit. -/
structure Packs (w : α → Nat) (k : Nat) (l : List α) (parts : List (List α)) :
    Prop where
  flatten : parts.flatten = l
  ne_nil : ∀ p ∈ parts, p ≠ []
  fits : ∀ p ∈ parts, weight w p ≤ k

/-- No element more than `p` fits when `rest` is what follows. -/
def Full (w : α → Nat) (k : Nat) (p rest : List α) : Prop :=
  ∀ a ∈ rest.head?, k < weight w p + w a

/-- The cut that takes as much as fits each time. -/
inductive Greedy (w : α → Nat) (k : Nat) : List α → List (List α) → Prop where
  | nil : Greedy w k [] []
  | cons {p rest : List α} {ps : List (List α)} (hne : p ≠ [])
      (hfits : weight w p ≤ k) (hfull : Full w k p rest)
      (hrest : Greedy w k rest ps) : Greedy w k (p ++ rest) (p :: ps)

/-- A list has a longest front that fits. -/
theorem exists_full : ∀ {l : List α} {k : Nat},
    ∃ p rest, l = p ++ rest ∧ weight w p ≤ k ∧ Full w k p rest := by
  intro l
  induction l with
  | nil => exact fun {k} => ⟨[], [], rfl, Nat.zero_le k, by simp [Full]⟩
  | cons a l ih =>
      intro k
      by_cases ha : w a ≤ k
      · obtain ⟨p, rest, hl, hfits, hfull⟩ := @ih (k - w a)
        refine ⟨a :: p, rest, by rw [hl]; rfl, by rw [weight_cons]; omega,
          fun b hb => ?_⟩
        have := hfull b hb
        rw [weight_cons]
        omega
      · refine ⟨[], a :: l, rfl, Nat.zero_le k, fun b hb => ?_⟩
        rw [List.head?_cons, Option.mem_some_iff] at hb
        rw [weight_nil, ← hb]
        omega

theorem exists_greedy (hw : ∀ a, w a ≤ k) (l : List α) :
    ∃ parts, Greedy w k l parts := by
  induction hn : l.length using Nat.strongRecOn generalizing l with
  | ind n ih =>
      obtain ⟨p, rest, rfl, hfits, hfull⟩ := @exists_full _ w l k
      rcases p with _ | ⟨a, p⟩
      · -- a single element always fits, so the list is empty
        rcases rest with _ | ⟨b, rest⟩
        · exact ⟨[], .nil⟩
        · have := hfull b rfl
          have := hw b
          rw [weight_nil] at *
          omega
      · obtain ⟨ps, hps⟩ := ih rest.length
          (by rw [← hn, List.length_append, List.length_cons]; omega) rest rfl
        exact ⟨(a :: p) :: ps, .cons (by simp) hfits hfull hps⟩

namespace Greedy

variable {l : List α} {parts : List (List α)}

theorem packs (h : Greedy w k l parts) : Packs w k l parts := by
  induction h with
  | nil => exact ⟨rfl, by simp, by simp⟩
  | cons hne hfits _ _ ih =>
      obtain ⟨hflatten, hne', hfits'⟩ := ih
      refine ⟨by rw [List.flatten_cons, hflatten], ?_, ?_⟩
      · exact List.forall_mem_cons.2 ⟨hne, hne'⟩
      · exact List.forall_mem_cons.2 ⟨hfits, hfits'⟩

/-- The greedy cut stays ahead: of what others cut, it needs no more parts for
an end. -/
theorem length_le_of_suffix (h : Greedy w k l parts) :
    ∀ {qs : List (List α)}, (∀ q ∈ qs, weight w q ≤ k) → l <:+ qs.flatten →
      parts.length ≤ qs.length := by
  induction h with
  | nil => exact fun _ _ => Nat.zero_le _
  | @cons p rest ps hne _ hfull _ ih =>
      intro qs hfits hsuffix
      rcases qs with _ | ⟨q, qs⟩
      · have hnil : p ++ rest = [] := List.suffix_nil.1 hsuffix
        exact absurd (List.append_eq_nil_iff.1 hnil).1 hne
      · rw [List.flatten_cons] at hsuffix
        rw [List.length_cons, List.length_cons]
        refine Nat.succ_le_succ (ih (fun r hr => hfits r (.tail q hr)) ?_)
        rcases List.suffix_or_suffix_of_suffix
          ((List.suffix_append p rest).trans hsuffix)
          (List.suffix_append q qs.flatten) with hin | ⟨x, hx⟩
        · exact hin
        · -- `q` would hold `p` and more
          rcases x with _ | ⟨a, x⟩
          · rw [← hx]
            exact List.suffix_refl _
          · obtain ⟨y, hy⟩ := hsuffix
            rw [← hx, ← List.append_assoc, ← List.append_assoc] at hy
            have hq := List.append_cancel_right hy
            have hheavy := hfull a (by rw [← hx]; rfl)
            have hlight := hfits q List.mem_cons_self
            rw [← hq] at hlight
            simp only [weight_append, weight_cons] at hlight
            omega

/-- No cut has fewer parts. -/
theorem isLeast (h : Greedy w k l parts) :
    IsLeast {n | ∃ qs, Packs w k l qs ∧ qs.length = n} parts.length := by
  refine ⟨⟨parts, h.packs, rfl⟩, ?_⟩
  rintro n ⟨qs, hqs, rfl⟩
  exact h.length_le_of_suffix hqs.fits ⟨[], hqs.flatten.symm⟩

/-- Elements of weight one fill every part but the last. -/
theorem length_eq (h : Greedy w k l parts) (hk : 0 < k) (hw : ∀ a ∈ l, w a = 1) :
    parts.length = (l.length + (k - 1)) / k := by
  induction h with
  | nil =>
      rw [List.length_nil, List.length_nil, Nat.zero_add]
      exact (Nat.div_eq_of_lt (by omega)).symm
  | @cons p rest ps hne hfits hfull hrest ih =>
      have hpos := List.length_pos_of_ne_nil hne
      have hweight : weight w p = p.length :=
        weight_eq_length fun a ha => hw a (List.mem_append_left rest ha)
      rw [hweight] at hfits
      rw [List.length_cons, List.length_append,
        ih fun a ha => hw a (List.mem_append_right p ha)]
      rcases rest with _ | ⟨a, rest⟩
      · rw [List.length_nil, Nat.zero_add, Nat.div_eq_of_lt (by omega),
          show p.length + 0 + (k - 1) = (p.length - 1) + k by omega,
          Nat.add_div_right _ hk, Nat.div_eq_of_lt (by omega)]
      · have hlast := hfull a rfl
        rw [hweight, hw a (by simp)] at hlast
        rw [show p.length = k by omega, Nat.add_assoc, Nat.add_comm k,
          Nat.add_div_right _ hk]

end Greedy

end MuditaOS.Lib
