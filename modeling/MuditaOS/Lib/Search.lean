import Mathlib.Data.List.Basic

/-!
# Substring search over lists

`std::string::find`, `rfind` and `substr`, with `npos` as `none`. The two
searches are executable recursions; what the rest of a development needs is
their specification, the least and the greatest position at which the pattern
occurs, in terms of `OccursAt`.

A size computed by a wrapping subtraction is also an `Option`: once it wraps it
is beyond the end of every string, which is all these functions ask of it.
-/

namespace MuditaOS.Lib

variable {α : Type*} [DecidableEq α]

/-- `pat` starts at position `i` of `s`. -/
def OccursAt (pat s : List α) (i : Nat) : Prop := pat <+: s.drop i

instance (pat s : List α) (i : Nat) : Decidable (OccursAt pat s i) :=
  inferInstanceAs (Decidable (pat <+: s.drop i))

/-- The search from a suffix of the text, which starts at position `i`. -/
def findAux (pat : List α) : List α → Nat → Option Nat
  | [], i => if pat.isPrefixOf [] then some i else none
  | c :: cs, i =>
      if pat.isPrefixOf (c :: cs) then some i else findAux pat cs (i + 1)

/-- `s.find(pat, pos)`. -/
def find (pat s : List α) (pos : Nat) : Option Nat :=
  if pos ≤ s.length then findAux pat (s.drop pos) pos else none

/-- The search downwards from position `i`. -/
def rfindAux (pat s : List α) : Nat → Option Nat
  | 0 => if pat.isPrefixOf s then some 0 else none
  | i + 1 => if pat.isPrefixOf (s.drop (i + 1)) then some (i + 1)
      else rfindAux pat s i

/-- `s.rfind(pat, pos)`; `none` is a position past the end. -/
def rfind (pat s : List α) (pos : Option Nat) : Option Nat :=
  rfindAux pat s (min (pos.getD s.length) s.length)

/-- `s.substr(pos, len)` for a position inside the string; `none` is a length
past the end. -/
def substr (s : List α) (pos : Nat) (len : Option Nat) : List α :=
  (s.drop pos).take (len.getD s.length)

/-- `a - b` on `size_t`. -/
def sizeSub (a b : Nat) : Option Nat := if b ≤ a then some (a - b) else none

/-! ## Occurrences -/

section

omit [DecidableEq α]

theorem OccursAt.isInfix {pat s : List α} {k : Nat} (h : OccursAt pat s k) :
    pat <:+: s :=
  (List.IsPrefix.isInfix h).trans (List.drop_suffix k s).isInfix

theorem OccursAt.append {pat s : List α} {k : Nat} (t : List α)
    (h : OccursAt pat s k) : OccursAt pat (s ++ t) k := by
  rw [OccursAt, List.drop_append]
  exact h.trans (List.prefix_append _ _)

theorem OccursAt.of_append {pat s t : List α} {k : Nat}
    (h : OccursAt pat (s ++ t) k) (hk : k + pat.length ≤ s.length) :
    OccursAt pat s k := by
  rw [OccursAt, List.drop_append_of_le_length (by omega)] at h
  exact List.prefix_of_prefix_length_le h (List.prefix_append _ _)
    (by rw [List.length_drop]; omega)

theorem occursAt_append_right {pat s t : List α} {k : Nat} :
    OccursAt pat (s ++ t) (s.length + k) ↔ OccursAt pat t k := by
  rw [OccursAt, OccursAt, List.drop_length_add_append]

end

/-! ## Forward search -/

theorem findAux_eq_none {pat : List α} : ∀ {s : List α} {i : Nat},
    findAux pat s i = none ↔ ∀ k ≤ s.length, ¬ OccursAt pat s k := by
  intro s
  induction s with
  | nil =>
      intro i
      simp [findAux, OccursAt, List.isPrefixOf_iff_prefix]
  | cons c cs ih =>
      intro i
      rw [findAux]
      by_cases hp : pat.isPrefixOf (c :: cs) = true
      · rw [if_pos hp]
        refine ⟨fun h => (nomatch h), fun h => ?_⟩
        exact absurd (List.isPrefixOf_iff_prefix.1 hp) (h 0 (by omega))
      · rw [if_neg hp, ih]
        refine ⟨fun h k hk => ?_, fun h k hk => h (k + 1) (by simpa using hk)⟩
        cases k with
        | zero => exact fun hocc => hp (List.isPrefixOf_iff_prefix.2 hocc)
        | succ k => exact h k (by simpa using hk)

theorem findAux_eq_some {pat : List α} : ∀ {s : List α} {i j : Nat},
    findAux pat s i = some j ↔ i ≤ j ∧ j ≤ i + s.length ∧
      OccursAt pat s (j - i) ∧ ∀ k < j - i, ¬ OccursAt pat s k := by
  intro s
  induction s with
  | nil =>
      intro i j
      rw [findAux]
      by_cases hp : pat.isPrefixOf ([] : List α) = true
      · have hnil := List.isPrefixOf_iff_prefix.1 hp
        rw [if_pos hp, Option.some.injEq]
        refine ⟨?_, fun h => by have := h.1; have := h.2.1; simp at this; omega⟩
        rintro rfl
        exact ⟨Nat.le_refl _, by simp, by simpa [OccursAt] using hnil, by simp⟩
      · rw [if_neg hp]
        refine ⟨fun h => (nomatch h), fun h => ?_⟩
        exact absurd (List.isPrefixOf_iff_prefix.2 (by simpa [OccursAt] using h.2.2.1)) hp
  | cons c cs ih =>
      intro i j
      rw [findAux]
      by_cases hp : pat.isPrefixOf (c :: cs) = true
      · have hocc : OccursAt pat (c :: cs) 0 := List.isPrefixOf_iff_prefix.1 hp
        rw [if_pos hp, Option.some.injEq]
        refine ⟨?_, fun ⟨hle, _, _, hmin⟩ => ?_⟩
        · rintro rfl
          exact ⟨Nat.le_refl _, by omega, by simpa using hocc, by simp⟩
        · by_contra hne
          exact hmin 0 (by omega) hocc
      · have hnot : ¬ OccursAt pat (c :: cs) 0 :=
          fun h => hp (List.isPrefixOf_iff_prefix.2 h)
        rw [if_neg hp, ih]
        refine ⟨fun ⟨hle, hlen, hocc, hmin⟩ => ?_, fun ⟨hle, hlen, hocc, hmin⟩ => ?_⟩
        · refine ⟨by omega, by simp; omega, ?_, fun k hk => ?_⟩
          · rw [show j - i = (j - (i + 1)) + 1 by omega]
            exact hocc
          · cases k with
            | zero => exact hnot
            | succ k => exact hmin k (by omega)
        · have hlt : i < j := by
            rcases Nat.lt_or_ge i j with h | h
            · exact h
            · have hzero : j - i = 0 := by omega
              rw [hzero] at hocc
              exact absurd hocc hnot
          refine ⟨hlt, by simp at hlen; omega, ?_, fun k hk => ?_⟩
          · rw [show j - i = (j - (i + 1)) + 1 by omega] at hocc
            exact hocc
          · exact hmin (k + 1) (by omega)

/-! ## Backward search -/

theorem rfindAux_eq_none {pat s : List α} : ∀ {i : Nat},
    rfindAux pat s i = none ↔ ∀ k ≤ i, ¬ OccursAt pat s k := by
  intro i
  induction i with
  | zero =>
      rw [rfindAux]
      simp [OccursAt, List.isPrefixOf_iff_prefix]
  | succ i ih =>
      rw [rfindAux]
      by_cases hp : pat.isPrefixOf (s.drop (i + 1)) = true
      · rw [if_pos hp]
        refine ⟨fun h => (nomatch h), fun h => ?_⟩
        exact absurd (List.isPrefixOf_iff_prefix.1 hp) (h (i + 1) (by omega))
      · rw [if_neg hp, ih]
        refine ⟨fun h k hk => ?_, fun h k hk => h k (by omega)⟩
        rcases Nat.lt_or_ge i k with hlt | hge
        · rw [show k = i + 1 by omega]
          exact fun hocc => hp (List.isPrefixOf_iff_prefix.2 hocc)
        · exact h k hge

theorem rfindAux_eq_some {pat s : List α} : ∀ {i j : Nat},
    rfindAux pat s i = some j ↔
      j ≤ i ∧ OccursAt pat s j ∧ ∀ k, j < k → k ≤ i → ¬ OccursAt pat s k := by
  intro i
  induction i with
  | zero =>
      intro j
      rw [rfindAux]
      by_cases hp : pat.isPrefixOf s = true
      · have hocc : OccursAt pat s 0 := List.isPrefixOf_iff_prefix.1 hp
        rw [if_pos hp, Option.some.injEq]
        refine ⟨?_, fun h => by have := h.1; omega⟩
        rintro rfl
        exact ⟨Nat.le_refl _, hocc, fun k h1 h2 => by omega⟩
      · rw [if_neg hp]
        refine ⟨fun h => (nomatch h), fun ⟨hle, hocc, _⟩ => ?_⟩
        rw [show j = 0 by omega] at hocc
        exact absurd (List.isPrefixOf_iff_prefix.2 hocc) hp
  | succ i ih =>
      intro j
      rw [rfindAux]
      by_cases hp : pat.isPrefixOf (s.drop (i + 1)) = true
      · have hocc : OccursAt pat s (i + 1) := List.isPrefixOf_iff_prefix.1 hp
        rw [if_pos hp, Option.some.injEq]
        refine ⟨?_, fun ⟨hle, _, hmax⟩ => ?_⟩
        · rintro rfl
          exact ⟨Nat.le_refl _, hocc, fun k h1 h2 => by omega⟩
        · by_contra hne
          exact hmax (i + 1) (by omega) (Nat.le_refl _) hocc
      · rw [if_neg hp, ih]
        refine ⟨fun ⟨hle, hocc, hmax⟩ => ⟨by omega, hocc, fun k h1 h2 => ?_⟩,
          fun ⟨hle, hocc, hmax⟩ => ⟨?_, hocc, fun k h1 h2 => hmax k h1 (by omega)⟩⟩
        · rcases Nat.lt_or_ge i k with hlt | hge
          · rw [show k = i + 1 by omega]
            exact fun h => hp (List.isPrefixOf_iff_prefix.2 h)
          · exact hmax k h1 hge
        · rcases Nat.lt_or_ge i j with hlt | hge
          · rw [show j = i + 1 by omega] at hocc
            exact absurd (List.isPrefixOf_iff_prefix.2 hocc) hp
          · exact hge

end MuditaOS.Lib
