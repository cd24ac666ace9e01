import Mathlib.Data.List.Basic

/-!
# Streams cut into chunks

A stream that arrives in chunks is consumed by a fold over the chunks, and what
one wants to know is what the consumer looks like after some prefix of the
*uncut* stream, however it was cut. `foldl_of_flatten` is the induction for
that: an invariant relating the bytes consumed so far to the state, preserved by
every chunk that still fits in the stream.

When the stream is a concatenation of blocks, a prefix of it is some whole
blocks and a proper prefix of the next one; that is `prefix_flatten_cases`.
-/

namespace MuditaOS.Lib

variable {α σ : Type*}

/-- The induction over a cut stream: `R p s` says that after consuming `p` the
machine is in state `s`. -/
theorem foldl_of_flatten {R : List α → σ → Prop} {step : σ → List α → σ}
    {chunks : List (List α)} {stream : List α} {s : σ} (h0 : R [] s)
    (hstep : ∀ p c t s, c ∈ chunks → p ++ c ++ t = stream → R p s →
      R (p ++ c) (step s c))
    (hcut : chunks.flatten = stream) : R stream (chunks.foldl step s) := by
  suffices h : ∀ (cs : List (List α)) (p : List α) (s : σ),
      (∀ c ∈ cs, c ∈ chunks) → p ++ cs.flatten = stream → R p s →
      R stream (cs.foldl step s) by
    exact h chunks [] s (fun _ hc => hc) (by simpa using hcut) h0
  intro cs
  induction cs with
  | nil =>
      intro p s _ hp hR
      have : p = stream := by simpa using hp
      exact this ▸ hR
  | cons c cs ih =>
      intro p s hmem hp hR
      rw [List.flatten_cons, ← List.append_assoc] at hp
      exact ih (p ++ c) (step s c)
        (fun d hd => hmem d (List.mem_cons_of_mem c hd)) hp
        (hstep p c cs.flatten s (hmem c List.mem_cons_self) hp hR)

/-- `r` is what a stream of the blocks `todo` may leave unfinished: nothing, or
a proper prefix of the first block. -/
def Unfinished (todo : List (List α)) (r : List α) : Prop :=
  r = [] ∨ ∃ b rest t, todo = b :: rest ∧ t ≠ [] ∧ r ++ t = b

/-- A prefix of a concatenation of blocks is some of the blocks and an
unfinished one. -/
theorem prefix_flatten_cases : ∀ {blocks : List (List α)} {s t : List α},
    s ++ t = blocks.flatten →
    ∃ done todo r, blocks = done ++ todo ∧ s = done.flatten ++ r ∧
      Unfinished todo r := by
  intro blocks
  induction blocks with
  | nil =>
      intro s t h
      have hs : s = [] := by simp at h; exact h.1
      exact ⟨[], [], [], rfl, by simpa using hs, .inl rfl⟩
  | cons b blocks ih =>
      intro s t h
      rw [List.flatten_cons] at h
      rcases List.append_eq_append_iff.1 h with ⟨u, hb, ht⟩ | ⟨u, hs, hrest⟩
      · by_cases hu : u = []
        · subst hu
          refine ⟨[b], blocks, [], rfl, ?_, .inl rfl⟩
          simpa using hb.symm
        · exact ⟨[], b :: blocks, s, rfl, rfl,
            .inr ⟨b, blocks, u, rfl, hu, hb.symm⟩⟩
      · obtain ⟨done, todo, r, hblocks, hu, hr⟩ := ih hrest.symm
        refine ⟨b :: done, todo, r, by rw [hblocks]; rfl, ?_, hr⟩
        rw [hs, hu, List.flatten_cons, List.append_assoc]

/-- `s` is a whole number of the blocks. -/
def AtBoundary (blocks : List (List α)) (s : List α) : Prop :=
  ∃ k, s = (blocks.take k).flatten

/-- Only nothing is both unfinished and a whole number of blocks. -/
theorem Unfinished.eq_nil {blocks : List (List α)} {r : List α}
    (hr : Unfinished blocks r) (hat : AtBoundary blocks r) : r = [] := by
  rcases hr with hr | ⟨b, rest, t, rfl, ht, rfl⟩
  · exact hr
  · obtain ⟨k, hk⟩ := hat
    cases k with
    | zero => exact hk
    | succ k =>
        have hlen := congrArg List.length hk
        have := List.length_pos_of_ne_nil ht
        rw [List.take_succ_cons, List.flatten_cons, List.length_append,
          List.length_append] at hlen
        omega

/-! ## Pieces of one length -/

/-- The `i`-th piece of `k` elements, shorter or empty at the end. -/
def piece (k : Nat) (l : List α) (i : Nat) : List α := (l.drop (k * i)).take k

theorem length_piece {k i : Nat} {l : List α} :
    (piece k l i).length = min k (l.length - k * i) := by
  rw [piece, List.length_take, List.length_drop]

/-- Enough pieces make up the list, however many of them are empty. -/
theorem flatten_pieces {k : Nat} : ∀ {m : Nat} {l : List α}, l.length ≤ k * m →
    ((List.range m).map (piece k l)).flatten = l := by
  intro m
  induction m with
  | zero =>
      intro l hl
      rw [Nat.mul_zero, Nat.le_zero] at hl
      exact (List.eq_nil_of_length_eq_zero hl).symm
  | succ m ih =>
      intro l hl
      rw [Nat.mul_succ] at hl
      have hshift : piece k l ∘ Nat.succ = piece k (l.drop k) := by
        funext i
        rw [Function.comp_apply, piece, piece, List.drop_drop, Nat.mul_succ,
          Nat.add_comm]
      rw [List.range_succ_eq_map, List.map_cons, List.map_map, List.flatten_cons,
        hshift, ih (by rw [List.length_drop]; omega), piece, Nat.mul_zero,
        List.drop_zero, List.take_append_drop]

end MuditaOS.Lib
