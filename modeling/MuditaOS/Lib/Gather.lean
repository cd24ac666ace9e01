import Mathlib.Data.List.Forall2

/-!
# Entries gathered line by line

A loop appends an entry for each line to a list until it gives up, and may then clear the
list or leave it as it is. All or nothing: either each line has its entry, or there is no
entry at all.
-/

namespace MuditaOS.Lib

variable {α β : Type*}

/-- What the loop does with a line: `reject` clears the list, and `abandon` does not. -/
inductive Outcome (β : Type*) where
  | push (entry : β)
  | skip
  | reject
  | abandon

namespace Outcome

def goesOn : Outcome β → Bool
  | push _ | skip => true
  | reject | abandon => false

def toOption : Outcome β → Option β
  | push entry => some entry
  | skip | reject | abandon => none

end Outcome

def gather (read : α → Outcome β) : List α → List β → Bool × List β
  | [], parsed => (true, parsed)
  | line :: lines, parsed =>
      match read line with
      | .push entry => gather read lines (parsed ++ [entry])
      | .skip => gather read lines parsed
      | .reject => (false, [])
      | .abandon => (false, parsed)

/-- Each line has its entry, in order, or there is none. -/
structure AllOrNothing (Denotes : α → β → Prop) (lines : List α) (out : Bool × List β) :
    Prop where
  all : out.1 = true → List.Forall₂ Denotes lines out.2
  nothing : out.1 = false → out.2 = []

variable {read : α → Outcome β} {Denotes : α → β → Prop} {lines front rest : List α}
  {line : α} {parsed : List β}

def gathered (read : α → Outcome β) (lines : List α) : List β :=
  lines.filterMap fun line => (read line).toOption

theorem gather_append (h : ∀ line ∈ front, (read line).goesOn) :
    gather read (front ++ rest) parsed = gather read rest (parsed ++ gathered read front) := by
  induction front generalizing parsed with
  | nil => rw [List.nil_append, gathered, List.filterMap_nil, List.append_nil]
  | cons line front ih =>
      have hfront : ∀ line ∈ front, (read line).goesOn := fun l hl =>
        h l (List.mem_cons_of_mem line hl)
      have hline := h line List.mem_cons_self
      rw [List.cons_append, gather]
      cases hread : read line with
      | push entry =>
          have hgathered : gathered read (line :: front) = entry :: gathered read front :=
            List.filterMap_cons_some (by rw [hread]; rfl)
          rw [hgathered, ← List.singleton_append, ← List.append_assoc]
          exact ih hfront
      | skip =>
          have hgathered : gathered read (line :: front) = gathered read front :=
            List.filterMap_cons_none (by rw [hread]; rfl)
          rw [hgathered]
          exact ih hfront
      | reject => rw [hread] at hline; cases hline
      | abandon => rw [hread] at hline; cases hline

theorem gather_goesOn (h : ∀ line ∈ lines, (read line).goesOn) :
    gather read lines parsed = (true, parsed ++ gathered read lines) := by
  have happend := @gather_append _ _ read lines [] parsed h
  rw [List.append_nil] at happend
  exact happend

theorem gather_reject (h : ∀ line ∈ front, (read line).goesOn) (hline : read line = .reject) :
    gather read (front ++ line :: rest) parsed = (false, []) := by
  rw [gather_append h, gather, hline]

theorem gather_abandon (h : ∀ line ∈ front, (read line).goesOn) (hline : read line = .abandon) :
    gather read (front ++ line :: rest) parsed = (false, parsed ++ gathered read front) := by
  rw [gather_append h, gather, hline]

/-- Either the loop goes on to the end, or there is a first line that stops it. -/
theorem goesOn_or_stops (read : α → Outcome β) (lines : List α) :
    (∀ line ∈ lines, (read line).goesOn) ∨
      ∃ front line rest, lines = front ++ line :: rest ∧
        (∀ line ∈ front, (read line).goesOn) ∧ (read line).goesOn = false := by
  induction lines with
  | nil => exact .inl fun line hline => absurd hline List.not_mem_nil
  | cons line lines ih =>
      cases hline : (read line).goesOn with
      | false =>
          exact .inr ⟨[], line, lines, rfl, fun l hl => absurd hl List.not_mem_nil, hline⟩
      | true =>
          rcases ih with hall | ⟨front, stop, rest, rfl, hfront, hstop⟩
          · exact .inl (List.forall_mem_cons.2 ⟨hline, hall⟩)
          · exact .inr ⟨line :: front, stop, rest, rfl,
              List.forall_mem_cons.2 ⟨hline, hfront⟩, hstop⟩

/-- There is only one first element without a property. -/
theorem first_unique {p : α → Prop} {front' rest' : List α} {line' : α}
    (h : front ++ line :: rest = front' ++ line' :: rest') (hfront : ∀ x ∈ front, p x)
    (hline : ¬ p line) (hfront' : ∀ x ∈ front', p x) (hline' : ¬ p line') :
    front = front' ∧ line = line' := by
  induction front generalizing front' with
  | nil =>
      cases front' with
      | nil => exact ⟨rfl, (List.cons.inj h).1⟩
      | cons x front' =>
          rw [(List.cons.inj h).1] at hline
          exact absurd (hfront' x List.mem_cons_self) hline
  | cons y front ih =>
      cases front' with
      | nil =>
          rw [← (List.cons.inj h).1] at hline'
          exact absurd (hfront y List.mem_cons_self) hline'
      | cons x front' =>
          obtain ⟨rfl, hrest⟩ := List.cons.inj h
          obtain ⟨rfl, hline⟩ := ih hrest (fun z hz => hfront z (List.mem_cons_of_mem y hz))
            fun z hz => hfront' z (List.mem_cons_of_mem y hz)
          exact ⟨rfl, hline⟩

theorem forall₂_gathered
    (h : ∀ line ∈ lines, ∃ entry, read line = .push entry ∧ Denotes line entry) :
    List.Forall₂ Denotes lines (gathered read lines) := by
  induction lines with
  | nil => exact .nil
  | cons line lines ih =>
      obtain ⟨entry, hread, hdenotes⟩ := h line List.mem_cons_self
      have hgathered : gathered read (line :: lines) = entry :: gathered read lines :=
        List.filterMap_cons_some (by rw [hread]; rfl)
      rw [hgathered]
      exact .cons hdenotes (ih fun l hl => h l (List.mem_cons_of_mem line hl))

theorem gathered_ne_nil {entry : β} (hline : line ∈ lines) (hread : read line = .push entry) :
    gathered read lines ≠ [] :=
  List.ne_nil_of_mem (List.mem_filterMap.2 ⟨line, hline, by rw [hread]; rfl⟩ : entry ∈ _)

theorem exists_of_forall₂ {l : List β} (h : List.Forall₂ Denotes lines l)
    (hline : line ∈ lines) : ∃ entry, Denotes line entry := by
  induction h with
  | nil => exact absurd hline List.not_mem_nil
  | cons hdenotes _ ih =>
      rcases List.mem_cons.1 hline with rfl | hline
      · exact ⟨_, hdenotes⟩
      · exact ih hline

end MuditaOS.Lib
