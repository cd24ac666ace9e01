import Mathlib.Data.List.Basic

/-!
# Rows of slots

What stands in a row of numbered slots, some of them free, read from the first to the
last. To move a thing into a free slot next to it does not change what is read, and a row
of `n` slots is full if `n` things are read.
-/

namespace MuditaOS.Lib

variable {α : Type*} {n i : Nat} {s s' : Nat → Option α}

/-- What stands in the first `n` slots. -/
def inRow (n : Nat) (s : Nat → Option α) : List α := (List.range n).filterMap s

@[simp] theorem inRow_zero : inRow 0 s = [] := rfl

theorem inRow_succ : inRow (n + 1) s = inRow n s ++ (s n).toList := by
  have hlast : List.filterMap s [n] = (s n).toList := by
    cases h : s n with
    | none => rw [List.filterMap_cons_none h, Option.toList_none, List.filterMap_nil]
    | some a => rw [List.filterMap_cons_some h, Option.toList_some, List.filterMap_nil]
  rw [inRow, List.range_succ, List.filterMap_append, hlast, inRow]

theorem inRow_congr (h : ∀ j < n, s' j = s j) : inRow n s' = inRow n s :=
  List.filterMap_congr fun j hj => h j (List.mem_range.1 hj)

/-- What is moved to the next slot, if that is free, is read at the same place. -/
theorem inRow_move (hi : i + 1 < n) (hfree : s (i + 1) = none) (hleft : s' i = none)
    (hmoved : s' (i + 1) = s i) (hsame : ∀ j < n, j ≠ i → j ≠ i + 1 → s' j = s j) :
    inRow n s' = inRow n s := by
  induction n with
  | zero => omega
  | succ n ih =>
      rw [inRow_succ, inRow_succ]
      by_cases hlast : n = i + 1
      · subst hlast
        have hfront : inRow i s' = inRow i s :=
          inRow_congr fun j hj => hsame j (by omega) (by omega) (by omega)
        rw [inRow_succ, inRow_succ, hfront, hleft, hmoved, hfree]
        simp
      · rw [ih (by omega) fun j hj => hsame j (by omega), hsame n (by omega) (by omega) hlast]

/-- To clear the last slot is to drop what is read last. -/
theorem inRow_clear_last (hlast : (s n).isSome) (hclear : s' n = none)
    (hsame : ∀ j < n, s' j = s j) : inRow (n + 1) s' = (inRow (n + 1) s).dropLast := by
  obtain ⟨a, ha⟩ := Option.isSome_iff_exists.1 hlast
  rw [inRow_succ, inRow_succ, inRow_congr hsame, hclear, ha, Option.toList_none,
    Option.toList_some, List.append_nil, List.dropLast_concat]

theorem length_inRow_le : (inRow n s).length ≤ n := by
  have hle := List.length_filterMap_le s (List.range n)
  rwa [List.length_range] at hle

theorem length_inRow_eq_iff : (inRow n s).length = n ↔ ∀ i < n, (s i).isSome := by
  induction n with
  | zero => exact iff_of_true rfl fun i hi => absurd hi (Nat.not_lt_zero i)
  | succ n ih =>
      have hle := @length_inRow_le _ n s
      rw [inRow_succ, List.length_append, Nat.forall_lt_succ_right, ← ih]
      cases s n with
      | none =>
          rw [Option.toList_none, List.length_nil]
          exact iff_of_false (by omega) fun h => Bool.false_ne_true h.2
      | some a =>
          rw [Option.toList_some, List.length_singleton]
          exact ⟨fun h => ⟨by omega, rfl⟩, fun h => by omega⟩

end MuditaOS.Lib
