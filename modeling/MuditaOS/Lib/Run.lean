import Mathlib.Data.List.Basic

/-!
# Runs of a deterministic machine

A component driven by a list of inputs is a left fold. A guarantee that holds
only while the caller respects some rule is a pair of step predicates, the
guarantee and the rule. `everyStep_congr` lifts "under the invariant, this step
is good exactly when it follows the rule" from one step to the whole run.
-/

namespace MuditaOS.Lib

variable {σ ι : Type*}

/-- Every step of the run satisfies `Q`, read at the state before the step. -/
def EveryStep (Q : σ → ι → Prop) (step : σ → ι → σ) : σ → List ι → Prop
  | _, [] => True
  | s, i :: is => Q s i ∧ EveryStep Q step (step s i) is

@[simp] theorem everyStep_nil {Q : σ → ι → Prop} {step : σ → ι → σ} {s : σ} :
    EveryStep Q step s [] := trivial

@[simp] theorem everyStep_cons {Q : σ → ι → Prop} {step : σ → ι → σ} {s : σ}
    {i : ι} {is : List ι} :
    EveryStep Q step s (i :: is) ↔ Q s i ∧ EveryStep Q step (step s i) is :=
  Iff.rfl

instance {Q : σ → ι → Prop} {step : σ → ι → σ} [∀ s i, Decidable (Q s i)] :
    ∀ {s : σ} {is : List ι}, Decidable (EveryStep Q step s is)
  | _, [] => inferInstanceAs (Decidable True)
  | _, _ :: _ => @instDecidableAnd _ _ _ instDecidableEveryStep

theorem everyStep_append {Q : σ → ι → Prop} {step : σ → ι → σ} {s : σ}
    {is js : List ι} :
    EveryStep Q step s (is ++ js) ↔
      EveryStep Q step s is ∧ EveryStep Q step (is.foldl step s) js := by
  induction is generalizing s with
  | nil => simp
  | cons i is ih => simp [ih, and_assoc]

theorem everyStep_and {P Q : σ → ι → Prop} {step : σ → ι → σ} :
    ∀ {s : σ} {is : List ι}, EveryStep (fun s i => P s i ∧ Q s i) step s is ↔
      EveryStep P step s is ∧ EveryStep Q step s is := by
  intro s is
  induction is generalizing s with
  | nil => simp
  | cons i is ih => simp [ih, and_and_and_comm]

/-- A rule that is enough, under the invariant, to make a step good and keep
the invariant, makes every step of a run good and keeps the invariant to the
end. -/
theorem everyStep_of_rule {Inv : σ → Prop} {Q C : σ → ι → Prop}
    {step : σ → ι → σ}
    (hgood : ∀ s i, Inv s → C s i → Q s i)
    (hinv : ∀ s i, Inv s → C s i → Inv (step s i)) :
    ∀ {is : List ι} {s : σ}, Inv s → EveryStep C step s is →
      EveryStep Q step s is ∧ Inv (is.foldl step s) := by
  intro is
  induction is with
  | nil => intro s hs _; exact ⟨trivial, hs⟩
  | cons i is ih =>
      intro s hs hC
      obtain ⟨hi, hrest⟩ := hC
      obtain ⟨hQ, hend⟩ := ih (hinv s i hs hi) hrest
      exact ⟨⟨hgood s i hs hi, hQ⟩, hend⟩

/-- Without a rule, every step is good and the invariant holds to the end. -/
theorem everyStep_of_inv {Inv : σ → Prop} {Q : σ → ι → Prop} {step : σ → ι → σ}
    (hgood : ∀ s i, Inv s → Q s i) (hinv : ∀ s i, Inv s → Inv (step s i)) :
    ∀ {is : List ι} {s : σ}, Inv s → EveryStep Q step s is ∧ Inv (is.foldl step s) := by
  intro is
  induction is with
  | nil => intro s hs; exact ⟨trivial, hs⟩
  | cons i is ih =>
      intro s hs
      obtain ⟨hQ, hend⟩ := ih (hinv s i hs)
      exact ⟨⟨hgood s i hs, hQ⟩, hend⟩

/-- If under the invariant a step is good exactly when it follows the rule, and
a good step keeps the invariant, then a whole run is good exactly when it
follows the rule throughout. -/
theorem everyStep_congr {Inv : σ → Prop} {Q C : σ → ι → Prop}
    {step : σ → ι → σ} (hiff : ∀ s i, Inv s → (Q s i ↔ C s i))
    (hinv : ∀ s i, Inv s → C s i → Inv (step s i)) :
    ∀ {is : List ι} {s : σ}, Inv s →
      (EveryStep Q step s is ↔ EveryStep C step s is) := by
  intro is
  induction is with
  | nil => intro s _; exact Iff.rfl
  | cons i is ih =>
      intro s hs
      rw [everyStep_cons, everyStep_cons]
      constructor
      · intro ⟨hQ, hrest⟩
        have hC := (hiff s i hs).1 hQ
        exact ⟨hC, (ih (hinv s i hs hC)).1 hrest⟩
      · intro ⟨hC, hrest⟩
        exact ⟨(hiff s i hs).2 hC, (ih (hinv s i hs hC)).2 hrest⟩

/-! ## Damage that shows later -/

section Shows

variable {Inv G Bad : σ → Prop} {Q C : σ → ι → Prop} {step : σ → ι → σ}

/-- Damage that stays until a step shows it is shown in a run at whose end there is none. -/
theorem not_everyStep_of_bad (hinv : ∀ s i, Inv s → Inv (step s i))
    (hshows : ∀ s i, Inv s → Bad s → Bad (step s i) ∨ ¬ Q s i) :
    ∀ {is : List ι} {s : σ}, Inv s → Bad s → ¬ Bad (is.foldl step s) →
      ¬ EveryStep Q step s is := by
  intro is
  induction is with
  | nil => intro s _ hbad hend; exact absurd hbad hend
  | cons i is ih =>
      intro s hs hbad hend hQ
      obtain ⟨hi, hrest⟩ := hQ
      rcases hshows s i hs hbad with hnext | hnot
      · exact ih (hinv s i hs) hnext hend hrest
      · exact hnot hi

/-- If a step that follows the rule is good and does no damage, and a step against the rule
does damage, then a run at whose end there is no damage is good exactly when it follows the
rule throughout. -/
theorem everyStep_iff_of_shows (hinv : ∀ s i, Inv s → Inv (step s i))
    (hgood : ∀ s i, Inv s → G s → C s i → G (step s i) ∧ Q s i)
    (hbad : ∀ s i, Inv s → G s → ¬ C s i → Bad (step s i))
    (hshows : ∀ s i, Inv s → Bad s → Bad (step s i) ∨ ¬ Q s i) :
    ∀ {is : List ι} {s : σ}, Inv s → G s → ¬ Bad (is.foldl step s) →
      (EveryStep Q step s is ↔ EveryStep C step s is) := by
  intro is
  induction is with
  | nil => intro s _ _ _; exact Iff.rfl
  | cons i is ih =>
      intro s hs hG hend
      rw [everyStep_cons, everyStep_cons]
      by_cases hC : C s i
      · obtain ⟨hGnext, hQ⟩ := hgood s i hs hG hC
        rw [iff_true_intro hQ, iff_true_intro hC, ih (hinv s i hs) hGnext hend]
      · have hlater := not_everyStep_of_bad hinv hshows (hinv s i hs) (hbad s i hs hG hC) hend
        exact ⟨fun h => absurd h.2 hlater, fun h => absurd h.1 hC⟩

end Shows

/-! ## What a run shows -/

section Observe

variable {ω : Type*}

/-- What is seen at each step. -/
def observe (out : σ → ι → ω) (step : σ → ι → σ) : σ → List ι → List ω
  | _, [] => []
  | s, i :: is => out s i :: observe out step (step s i) is

/-- A cut through what was seen is a cut through the run. -/
theorem observe_eq_append {out : σ → ι → ω} {step : σ → ι → σ} {a b : List ω} :
    ∀ {s : σ} {is : List ι}, observe out step s is = a ++ b →
      ∃ js ks, is = js ++ ks ∧ observe out step s js = a ∧
        observe out step (js.foldl step s) ks = b := by
  induction a with
  | nil => intro s is h; exact ⟨[], is, rfl, rfl, h⟩
  | cons x a ih =>
      intro s is h
      cases is with
      | nil => exact absurd h (by simp [observe])
      | cons i is =>
          obtain ⟨hx, hrest⟩ := List.cons.inj h
          obtain ⟨js, ks, rfl, hjs, hks⟩ := ih hrest
          refine ⟨i :: js, ks, rfl, ?_, hks⟩
          rw [observe, hx, hjs]

theorem observe_eq_cons {out : σ → ι → ω} {step : σ → ι → σ} {x : ω} {b : List ω}
    {s : σ} {is : List ι} (h : observe out step s is = x :: b) :
    ∃ i ks, is = i :: ks ∧ out s i = x ∧ observe out step (step s i) ks = b := by
  cases is with
  | nil => exact absurd h (by simp [observe])
  | cons i is =>
      obtain ⟨hx, hrest⟩ := List.cons.inj h
      exact ⟨i, is, rfl, hx, hrest⟩

end Observe

/-! ## Work that runs out -/

section Settle

variable {Inv Quiet : σ → Prop} {Own : ι → Prop} {idle : σ → ι → Prop} {work : σ → Nat}
  {step : σ → ι → σ}

/-- A turn of a machine's own steps leaves it as it is, all of them idle, or does some work. -/
theorem turn_idle_or_lt
    (hstep : ∀ s i, Inv s → Own i → idle s i ∧ step s i = s ∨ work (step s i) < work s)
    (hinv : ∀ s i, Inv s → Own i → Inv (step s i)) :
    ∀ {turn : List ι} {s : σ}, Inv s → (∀ i ∈ turn, Own i) → Inv (turn.foldl step s) ∧
      ((∀ i ∈ turn, idle s i) ∧ turn.foldl step s = s ∨ work (turn.foldl step s) < work s) := by
  intro turn
  induction turn with
  | nil => intro s hs _; exact ⟨hs, .inl ⟨by simp, rfl⟩⟩
  | cons i turn ih =>
      intro s hs hown
      have hi := hown i List.mem_cons_self
      obtain ⟨hend, hrest⟩ := ih (hinv s i hs hi) fun j hj => hown j (List.mem_cons_of_mem i hj)
      refine ⟨hend, ?_⟩
      rw [List.foldl_cons]
      rcases hstep s i hs hi with ⟨hidle, hsame⟩ | hlt
      · rw [hsame] at hrest ⊢
        refine hrest.imp_left fun h => ⟨fun j hj => ?_, h.2⟩
        rcases List.mem_cons.1 hj with rfl | hj
        · exact hidle
        · exact h.1 j hj
      · rcases hrest with ⟨-, hsame⟩ | hless
        · exact .inr (by rwa [hsame])
        · exact .inr (Nat.lt_trans hless hlt)

/-- A machine that is quiet when all steps of a turn are idle is quiet after more turns than
it had work. -/
theorem quiet_of_turns {Fair : List ι → Prop}
    (hstep : ∀ s i, Inv s → Own i → idle s i ∧ step s i = s ∨ work (step s i) < work s)
    (hinv : ∀ s i, Inv s → Own i → Inv (step s i))
    (hquiet : ∀ s turn, Inv s → Fair turn → (∀ i ∈ turn, idle s i) → Quiet s)
    (hstays : ∀ s i, Quiet s → Own i → step s i = s) :
    ∀ {turns : List (List ι)} {s : σ}, Inv s → (∀ turn ∈ turns, Fair turn ∧ ∀ i ∈ turn, Own i) →
      work s < turns.length → Quiet (turns.flatten.foldl step s) := by
  have hend : ∀ {is : List ι} {s : σ}, Quiet s → (∀ i ∈ is, Own i) → is.foldl step s = s := by
    intro is
    induction is with
    | nil => intro s _ _; rfl
    | cons i is ih =>
        intro s hs hown
        rw [List.foldl_cons, hstays s i hs (hown i List.mem_cons_self),
          ih hs fun j hj => hown j (List.mem_cons_of_mem i hj)]
  intro turns
  induction turns with
  | nil => intro s _ _ hwork; exact absurd hwork (Nat.not_lt_zero _)
  | cons turn turns ih =>
      intro s hs hturns hwork
      obtain ⟨hfair, hown⟩ := hturns turn List.mem_cons_self
      have hlater := fun later hlater => hturns later (List.mem_cons_of_mem turn hlater)
      obtain ⟨hnext, hidle | hlt⟩ := turn_idle_or_lt hstep hinv hs hown
      · have hs' := hquiet s turn hs hfair hidle.1
        have hall : ∀ i ∈ (turn :: turns).flatten, Own i := fun i hi => by
          obtain ⟨other, hmem, hi⟩ := List.mem_flatten.1 hi
          exact (hturns other hmem).2 i hi
        rw [hend hs' hall]
        exact hs'
      · rw [List.flatten_cons, List.foldl_append]
        rw [List.length_cons] at hwork
        exact ih hnext hlater (by omega)

end Settle

/-! ## A machine without inputs -/

section RunFor

variable {next : σ → Option σ} {s s' : σ} {n m : Nat}

/-- The state after `n` steps, or that in which the machine stopped before. -/
def runFor (next : σ → Option σ) : Nat → σ → σ
  | 0, s => s
  | n + 1, s => runFor next n ((next s).getD s)

theorem runFor_succ (h : next (runFor next n s) = some s') :
    runFor next (n + 1) s = s' := by
  induction n generalizing s with
  | zero =>
      rw [runFor] at h
      rw [runFor, runFor, h, Option.getD_some]
  | succ n ih => exact ih h

theorem runFor_stopped (h : next s = none) : runFor next n s = s := by
  induction n with
  | zero => rfl
  | succ n ih => rw [runFor, h, Option.getD_none, ih]

theorem runFor_add : runFor next (m + n) s = runFor next n (runFor next m s) := by
  induction m generalizing s with
  | zero => rw [Nat.zero_add, runFor]
  | succ m ih => rw [Nat.succ_add, runFor, ih, runFor]

/-- A machine that has stopped stays where it is. -/
theorem runFor_of_le (h : next (runFor next m s) = none) (hn : m ≤ n) :
    runFor next n s = runFor next m s := by
  obtain ⟨k, rfl⟩ := Nat.exists_eq_add_of_le hn
  rw [runFor_add, runFor_stopped h]

end RunFor

end MuditaOS.Lib
