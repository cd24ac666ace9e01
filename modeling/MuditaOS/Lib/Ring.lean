import Mathlib.Data.List.Basic
import Mathlib.Data.Nat.ModEq

/-!
# A ring of slots

A list of slots used as a ring. `window` is what stands in the slots from a position on, past
the end of the list and on from its beginning, so that a queue in a ring is a list that grows
behind and is taken from in front.
-/

namespace MuditaOS.Lib

variable {α : Type*}

/-- A position comes back only after a whole turn. -/
theorem add_mod_eq_self {n k j : Nat} (h : j ≤ n) :
    (k + j) % n = k % n ↔ j = 0 ∨ j = n := by
  refine ⟨fun heq => ?_, fun hj => ?_⟩
  · have hmod := Nat.sub_mod_eq_zero_of_mod_eq heq
    rw [Nat.add_sub_cancel_left] at hmod
    rcases Nat.eq_or_lt_of_le h with hn | hlt
    · exact .inr hn
    · rw [Nat.mod_eq_of_lt hlt] at hmod
      exact .inl hmod
  · rcases hj with rfl | rfl
    · rfl
    · exact Nat.add_mod_right k j

/-- Two positions less than a turn apart are different. -/
theorem add_mod_ne {n k i j : Nat} (hij : i < j) (hj : j < n + i) :
    (k + i) % n ≠ (k + j) % n := by
  intro heq
  have hturn := (@add_mod_eq_self n (k + i) (j - i) (by omega)).1 (by
    rw [heq]
    congr 1
    omega)
  omega

/-- What stands in the `size` slots from `start` on. -/
def window (slots : List α) (start : Nat) : Nat → List α
  | 0 => []
  | size + 1 => window slots start size ++ slots[(start + size) % slots.length]?.toList

variable {slots : List α} {start size : Nat} {x : α}

theorem exists_slot (h : slots ≠ []) : ∃ x, slots[start % slots.length]? = some x :=
  ⟨_, List.getElem?_eq_getElem (Nat.mod_lt _ (List.length_pos_iff.2 h))⟩

theorem length_window (h : slots ≠ []) : (window slots start size).length = size := by
  induction size with
  | zero => rfl
  | succ size ih =>
      obtain ⟨x, hx⟩ := @exists_slot _ slots (start + size) h
      rw [window, List.length_append, ih, hx]
      rfl

theorem window_mod : window slots (start % slots.length) size = window slots start size := by
  induction size with
  | zero => rfl
  | succ size ih => rw [window, window, ih, Nat.mod_add_mod]

/-- The slot in front of a window, and the rest of it. -/
theorem window_succ_front :
    window slots start (size + 1) =
      slots[start % slots.length]?.toList ++ window slots (start + 1) size := by
  induction size with
  | zero => rw [window, window, window, List.nil_append, List.append_nil, Nat.add_zero]
  | succ size ih =>
      rw [window, ih, window, List.append_assoc, Nat.add_right_comm start 1 size]
      rfl

/-- The slot behind a window is not one of it. -/
theorem window_set (h : size < slots.length) :
    window (slots.set ((start + size) % slots.length) x) start size =
      window slots start size := by
  have hbelow : ∀ k ≤ size,
      window (slots.set ((start + size) % slots.length) x) start k = window slots start k := by
    intro k hk
    induction k with
    | zero => rfl
    | succ k ih =>
        have hne : (start + size) % slots.length ≠ (start + k) % slots.length :=
          (add_mod_ne (by omega) (by omega)).symm
        rw [window, window, ih (by omega), List.length_set, List.getElem?_set_ne hne]
  exact hbelow size (Nat.le_refl size)

/-- A window grows by what is put into the slot behind it. -/
theorem window_set_succ (h : size < slots.length) :
    window (slots.set ((start + size) % slots.length) x) start (size + 1) =
      window slots start size ++ [x] := by
  have hin : (start + size) % slots.length < slots.length := Nat.mod_lt _ (by omega)
  rw [window, window_set h, List.length_set, List.getElem?_set_self hin]
  rfl

end MuditaOS.Lib
