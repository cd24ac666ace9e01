import Mathlib.Data.List.Nodup

/-!
# Lists keyed by a field

A map kept as a list, or a list of objects known by a number: no two of its elements
agree in the field, so the search for a value of the field finds the one element that
has it.
-/

namespace MuditaOS.Lib

variable {α β : Type*} [DecidableEq β] {key : α → β} {l : List α} {a : α} {b : β}

theorem find?_key_eq_some (h : (l.map key).Nodup) :
    l.find? (fun a => key a = b) = some a ↔ a ∈ l ∧ key a = b := by
  constructor
  · intro hfind
    have hkey := @List.find?_some α (fun x => key x = b) a l hfind
    exact ⟨List.mem_of_find?_eq_some hfind, of_decide_eq_true hkey⟩
  · rintro ⟨hmem, rfl⟩
    cases hfind : l.find? (fun x => key x = key a) with
    | none => exact absurd (decide_eq_true rfl) (List.find?_eq_none.1 hfind a hmem)
    | some x =>
        have hkey : key x = key a :=
          of_decide_eq_true (@List.find?_some α (fun x => key x = key a) x l hfind)
        rw [List.inj_on_of_nodup_map h (List.mem_of_find?_eq_some hfind) hmem hkey]

theorem find?_key_eq_none : l.find? (fun a => key a = b) = none ↔ b ∉ l.map key := by
  rw [List.find?_eq_none, List.mem_map]
  constructor
  · rintro h ⟨a, hmem, rfl⟩
    exact h a hmem (decide_eq_true rfl)
  · intro h a hmem hkey
    exact h ⟨a, hmem, of_decide_eq_true hkey⟩

/-- Picked out key after key, the elements are the same ones in another order. -/
theorem perm_flatMap_filter_key {p : α → Prop} [DecidablePred p] {keys : List β}
    (h : keys.Nodup) :
    (keys.flatMap fun b => l.filter fun a => key a = b ∧ p a).Perm
      (l.filter fun a => key a ∈ keys ∧ p a) := by
  induction keys with
  | nil => simp
  | cons b keys ih =>
      obtain ⟨hb, hkeys⟩ := List.nodup_cons.1 h
      have hfirst : (l.filter fun a => key a ∈ b :: keys ∧ p a).filter (fun a => key a = b) =
          l.filter fun a => key a = b ∧ p a := by
        rw [List.filter_filter]
        refine List.filter_congr fun a _ => ?_
        by_cases ha : key a = b <;> simp [ha]
      have hrest : (l.filter fun a => key a ∈ b :: keys ∧ p a).filter
          (fun a => !decide (key a = b)) = l.filter fun a => key a ∈ keys ∧ p a := by
        rw [List.filter_filter]
        refine List.filter_congr fun a _ => ?_
        by_cases ha : key a = b
        · simp [ha, hb]
        · simp [ha]
      have hsplit := List.filter_append_perm (fun a => decide (key a = b))
        (l.filter fun a => key a ∈ b :: keys ∧ p a)
      rw [hfirst, hrest] at hsplit
      rw [List.flatMap_cons]
      exact ((ih hkeys).append_left _).trans hsplit

/-- The first element with a key erased, there is one less with it. -/
theorem countP_eraseP_key {c : β} (h : ∃ x ∈ l, b = key x) :
    (l.eraseP fun x => b = key x).countP (fun x => c = key x) + (if c = b then 1 else 0) =
      l.countP fun x => c = key x := by
  induction l with
  | nil =>
      obtain ⟨x, hx, _⟩ := h
      exact absurd hx List.not_mem_nil
  | cons a l ih =>
      by_cases ha : b = key a
      · subst ha
        simp [List.countP_cons]
      · have hrest : ∃ x ∈ l, b = key x := by simpa [ha] using h
        rw [List.eraseP_cons_of_neg (by simpa using ha), List.countP_cons, List.countP_cons,
          ← ih hrest]
        omega

/-- A change that does not touch what is counted. -/
theorem countP_modify {p : α → Bool} {f : α → α} (h : ∀ x, p (f x) = p x) :
    ∀ {i : Nat}, (l.modify i f).countP p = l.countP p := by
  induction l with
  | nil => simp
  | cons a l ih =>
      intro i
      cases i with
      | zero => simp [List.countP_cons, h]
      | succ i => simp [List.countP_cons, ih]

/-- Either there is one or there is none. -/
theorem any_or_countP (p : α → Bool) (l : List α) :
    (l.any p = true ∧ 0 < l.countP p) ∨ (l.any p = false ∧ l.countP p = 0) := by
  cases hany : l.any p with
  | true => exact Or.inl ⟨rfl, List.countP_pos_iff.2 (List.any_eq_true.1 hany)⟩
  | false =>
      refine Or.inr ⟨rfl, List.countP_eq_zero.2 fun x hx hp => ?_⟩
      rw [List.any_eq_true.2 ⟨x, hx, hp⟩] at hany
      cases hany

/-! ## The first value under a key -/

section Entry

variable {γ : Type*} {es : List (β × γ)} {c : β} {x : γ}

def entry (es : List (β × γ)) (b : β) : Option γ := (es.find? fun e => e.1 = b).map Prod.snd

theorem entry_eq_some :
    entry es b = some x ↔ es.find? (fun e => e.1 = b) = some (b, x) := by
  rw [entry, Option.map_eq_some_iff]
  constructor
  · rintro ⟨⟨b', x⟩, hfind, rfl⟩
    obtain rfl : b' = b := of_decide_eq_true (@List.find?_some _ (fun e => e.1 = b) _ es hfind)
    exact hfind
  · intro hfind
    exact ⟨_, hfind, rfl⟩

theorem entry_eq_none : entry es b = none ↔ es.find? (fun e => e.1 = b) = none :=
  Option.map_eq_none_iff

theorem entry_cons : entry ((b, x) :: es) c = if c = b then some x else entry es c := by
  rw [entry, List.find?_cons]
  by_cases hc : c = b
  · simp [hc]
  · simp [hc, Ne.symm hc, entry]

theorem entry_filter :
    entry (es.filter fun e => e.1 ≠ b) c = if c = b then none else entry es c := by
  rw [entry, List.find?_filter]
  by_cases hc : c = b
  · rw [if_pos hc, Option.map_eq_none_iff, List.find?_eq_none]
    simp [hc]
  · rw [if_neg hc, entry]
    congr 2
    funext e
    by_cases he : e.1 = c <;> simp [he, hc]

end Entry

end MuditaOS.Lib
