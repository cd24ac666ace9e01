import Mathlib.Data.List.Basic

/-!
# Ordered tables with small keys

A `std::map` whose keys are natural numbers below `n` is determined by its lookup
function; iterating over it goes through the keys in order. A list that is put
into such a table piece by piece, its `i`-th element under `i + 1`, is there as a
whole as soon as the number of entries says so, whatever the order and however
often a piece was put there.
-/

namespace MuditaOS.Lib

variable {β : Type*} {n : Nat} {t : Nat → Option β} {parts : List β}

/-- The values of the table, in the order of their keys. -/
def entries (n : Nat) (t : Nat → Option β) : List β := (List.range n).filterMap t

/-- Every value of the table is an element of the list, under its number. -/
def PartOf (t : Nat → Option β) (parts : List β) : Prop :=
  ∀ k v, t k = some v → 0 < k ∧ parts[k - 1]? = some v

/-- The table of a whole list. -/
def wholeTable (parts : List β) : Nat → Option β
  | 0 => none
  | k + 1 => parts[k]?

theorem filterMap_getElem? : ∀ {parts : List β} {m : Nat}, parts.length ≤ m →
    (List.range m).filterMap (fun k => parts[k]?) = parts := by
  intro parts
  induction parts with
  | nil => intro m _; simp
  | cons a parts ih =>
      intro m hm
      obtain ⟨m, rfl⟩ : ∃ k, m = k + 1 := ⟨m - 1, by
        rw [List.length_cons] at hm; omega⟩
      rw [List.range_succ_eq_map, List.filterMap_cons, List.filterMap_map]
      exact congrArg (a :: ·) (ih (Nat.le_of_succ_le_succ hm))

theorem entries_wholeTable (h : parts.length < n) :
    entries n (wholeTable parts) = parts := by
  obtain ⟨m, rfl⟩ : ∃ m, n = m + 1 := ⟨n - 1, by omega⟩
  rw [entries, List.range_succ_eq_map, List.filterMap_cons, List.filterMap_map]
  exact filterMap_getElem? (Nat.le_of_lt_succ h)

/-- Of two tables that agree where the first has a value, the first has no more
entries, and fewer unless they agree everywhere. -/
theorem filterMap_agree {t u : Nat → Option β} (h : ∀ k v, t k = some v → u k = some v) :
    ∀ {ks : List Nat}, (ks.filterMap t).length ≤ (ks.filterMap u).length ∧
      ((ks.filterMap t).length = (ks.filterMap u).length → ∀ k ∈ ks, t k = u k) := by
  intro ks
  induction ks with
  | nil => exact ⟨Nat.le_refl 0, by simp⟩
  | cons k ks ih =>
      obtain ⟨hle, heq⟩ := ih
      rw [List.forall_mem_cons, List.filterMap_cons, List.filterMap_cons]
      cases ht : t k with
      | some v =>
          rw [h k v ht]
          simp only [List.length_cons]
          exact ⟨by omega, fun hlen => ⟨trivial, heq (by omega)⟩⟩
      | none =>
          cases hu : u k with
          | none => exact ⟨hle, fun hlen => ⟨rfl, heq hlen⟩⟩
          | some v =>
              simp only [List.length_cons]
              exact ⟨by omega, fun hlen => by omega⟩

namespace PartOf

theorem le_whole (h : PartOf t parts) (k : Nat) (v : β) (hv : t k = some v) :
    wholeTable parts k = some v := by
  obtain ⟨hpos, hget⟩ := h k v hv
  cases k with
  | zero => exact absurd hpos (Nat.lt_irrefl 0)
  | succ k => exact hget

/-- The number of entries tells whether all elements are there. -/
theorem length_entries_iff (h : PartOf t parts) (hn : parts.length < n) :
    (entries n t).length = parts.length ↔ ∀ i < parts.length, t (i + 1) ≠ none := by
  obtain ⟨-, heq⟩ := @filterMap_agree _ t (wholeTable parts) h.le_whole
    (List.range n)
  change _ = (entries n (wholeTable parts)).length → _ at heq
  rw [entries_wholeTable hn] at heq
  refine ⟨fun hlen i hi => ?_, fun hall => ?_⟩
  · rw [heq hlen (i + 1) (List.mem_range.2 (by omega))]
    simp [wholeTable, hi]
  · rw [entries, List.filterMap_congr fun k _ => ?_, ← entries,
      entries_wholeTable hn]
    -- where the table has nothing, the whole one has nothing either
    cases hk : t k with
    | some v => exact (h.le_whole k v hk).symm
    | none =>
        cases k with
        | zero => rfl
        | succ k =>
            refine (List.getElem?_eq_none (Nat.le_of_not_lt fun hlt => ?_)).symm
            exact hall k hlt hk

/-- Then the entries are the list. -/
theorem entries_eq (h : PartOf t parts) (hn : parts.length < n)
    (hlen : (entries n t).length = parts.length) : entries n t = parts := by
  obtain ⟨-, heq⟩ := @filterMap_agree _ t (wholeTable parts) h.le_whole
    (List.range n)
  change _ = (entries n (wholeTable parts)).length → _ at heq
  rw [entries_wholeTable hn] at heq
  rw [entries, List.filterMap_congr (heq hlen), ← entries, entries_wholeTable hn]

end PartOf

end MuditaOS.Lib
