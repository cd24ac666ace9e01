import Mathlib.Data.List.TakeDrop

/-!
# Bounded queues

A queue with room for some of what is put into it: it stores the last ones of those that
are pending, and gives them out from the oldest on. What was put behind the last one given
out is pending, stored or not; what is passed over never comes out again.
-/

namespace MuditaOS.Lib

structure BoundedQueue (α : Type*) where
  pending : List α
  /-- What was dropped in front of something that was given out. -/
  passed : List α

namespace BoundedQueue

variable {α : Type*} (capacity : Nat) (q : BoundedQueue α)

def empty : BoundedQueue α := ⟨[], []⟩

/-- The number of pending ones that there is no room for. -/
def excess : Nat := q.pending.length - capacity

def stored : List α := q.pending.drop (q.excess capacity)

/-- The pending ones that are dropped. -/
def lost : List α := q.pending.take (q.excess capacity)

def dropped : List α := q.passed ++ q.lost capacity

def put (x : α) (q : BoundedQueue α) : BoundedQueue α := { q with pending := q.pending ++ [x] }

/-- To give out the oldest is to pass over what is lost. -/
def get : BoundedQueue α :=
  if q.stored capacity = [] then q else ⟨(q.stored capacity).tail, q.dropped capacity⟩

variable {capacity q} {x : α}

theorem length_stored : (q.stored capacity).length = min capacity q.pending.length := by
  rw [stored, List.length_drop, excess]
  omega

theorem lost_eq_nil (h : q.pending.length ≤ capacity) : q.lost capacity = [] := by
  rw [lost, excess, Nat.sub_eq_zero_of_le h, List.take_zero]

theorem stored_of_le (h : q.pending.length ≤ capacity) : q.stored capacity = q.pending := by
  rw [stored, excess, Nat.sub_eq_zero_of_le h, List.drop_zero]

/-- What is put in comes last, and the oldest goes if there is no more room. -/
theorem stored_put (hcapacity : 0 < capacity) : (q.put x).stored capacity =
    (if (q.stored capacity).length = capacity then (q.stored capacity).tail
      else q.stored capacity) ++ [x] := by
  have hlen := @length_stored α capacity q
  have hpending : (q.put x).pending = q.pending ++ [x] := rfl
  rw [stored, excess, hpending, List.length_append, List.length_singleton,
    List.drop_append_of_le_length (by omega)]
  congr 1
  split
  · next hfull =>
      rw [stored, List.tail_drop, excess]
      congr 1
      omega
  · next hroom =>
      rw [stored, excess]
      congr 1
      omega

theorem lost_put (hcapacity : 0 < capacity) : (q.put x).lost capacity =
    q.lost capacity ++ if (q.stored capacity).length = capacity then
      (q.stored capacity).take 1 else [] := by
  have hlen := @length_stored α capacity q
  have hpending : (q.put x).pending = q.pending ++ [x] := rfl
  rw [lost, excess, hpending, List.length_append, List.length_singleton,
    List.take_append_of_le_length (by omega)]
  split
  · next hfull =>
      have hnext : q.pending.length + 1 - capacity = q.excess capacity + 1 := by
        rw [excess]
        omega
      rw [hnext, List.take_add, lost, stored]
  · next hroom =>
      have hall : q.pending.length ≤ capacity := by omega
      rw [lost_eq_nil hall, List.append_nil, Nat.sub_eq_zero_of_le (by omega), List.take_zero]

theorem get_of_nil (h : q.stored capacity = []) : q.get capacity = q := if_pos h

theorem get_of_ne_nil (h : q.stored capacity ≠ []) :
    q.get capacity = ⟨(q.stored capacity).tail, q.dropped capacity⟩ := if_neg h

theorem length_tail_stored : (q.stored capacity).tail.length ≤ capacity := by
  rw [List.length_tail, length_stored]
  omega

theorem stored_get (h : q.stored capacity ≠ []) :
    (q.get capacity).stored capacity = (q.stored capacity).tail := by
  rw [get_of_ne_nil h]
  exact stored_of_le length_tail_stored

theorem lost_get (h : q.stored capacity ≠ []) : (q.get capacity).lost capacity = [] := by
  rw [get_of_ne_nil h]
  exact lost_eq_nil length_tail_stored

end BoundedQueue

end MuditaOS.Lib
