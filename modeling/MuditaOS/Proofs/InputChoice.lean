import MuditaOS.Audio.AudioMux
import Mathlib.Data.List.Perm.Basic
import Mathlib.Order.Defs.LinearOrder

/-!
# The choice of an input

A busy input of a higher priority forbids every other, and so should one that plays the same
sound already and can be merged with it. But an idle input that is met before the latter is
returned all the same: what is chosen depends on the order of the inputs as soon as there is
one of each.
-/

namespace MuditaOS.AudioInputs

open AudioMux

/-! ## What is promised -/

def Busy (input : Input) : Prop := input.audio.currentState ≠ .idle

def Outranks (playbackType : PlaybackType) (input : Input) : Prop :=
  Busy input ∧ getPlaybackPriority (some input.audio.currentOperationPlaybackType) <
    getPlaybackPriority (some playbackType)

def Merges (playbackType : PlaybackType) (input : Input) : Prop :=
  Busy input ∧ input.audio.currentOperationPlaybackType = playbackType ∧ isMergable playbackType

instance : DecidablePred Busy := fun _ => inferInstanceAs (Decidable (¬ _))

instance {playbackType : PlaybackType} : DecidablePred (Outranks playbackType) :=
  fun _ => inferInstanceAs (Decidable (_ ∧ _))

instance {playbackType : PlaybackType} : DecidablePred (Merges playbackType) :=
  fun _ => inferInstanceAs (Decidable (_ ∧ _))

/-- Whether the chosen input is idle or busy, if there is one. -/
inductive Kind where
  | idle
  | busy
  | nothing
  deriving DecidableEq, Repr

def kindOf (inputs : List Input) (chosen : Option Nat) : Kind :=
  match chosen.bind fun i => inputs[i]? with
  | none => .nothing
  | some input => if Busy input then .busy else .idle

variable (mux : AudioMux) (playbackType : PlaybackType)

/-- No busy input that outranks the request is chosen, none at all where one does or can be
merged with it, and else an idle one if there is one; and the order does not matter. -/
structure ChoosesWell : Prop where
  notOutranked : ∀ i input, mux.getAvailableInput playbackType = some i →
    mux.audioInputs[i]? = some input → ¬ Outranks playbackType input
  refuses : (∃ input ∈ mux.audioInputs, Outranks playbackType input ∨ Merges playbackType input) →
    mux.getAvailableInput playbackType = none
  prefersIdle : (¬ ∃ input ∈ mux.audioInputs,
      Outranks playbackType input ∨ Merges playbackType input) →
    (∃ input ∈ mux.audioInputs, ¬ Busy input) →
    ∃ i input, mux.getAvailableInput playbackType = some i ∧
      mux.audioInputs[i]? = some input ∧ ¬ Busy input
  anyOrder : ∀ inputs, inputs.Perm mux.audioInputs →
    kindOf inputs ({ mux with audioInputs := inputs }.getAvailableInput playbackType) =
      kindOf mux.audioInputs (mux.getAvailableInput playbackType)

/-! ## What the loop finds -/

variable {mux playbackType} {inputs : List Input} {chosen : Option Nat}

/-- The inputs that end the loop. -/
def Stops (playbackType : PlaybackType) (input : Input) : Prop :=
  Outranks playbackType input ∨ Merges playbackType input

/-- What is chosen of the inputs: an idle input in front of one that can be merged is kept. -/
inductive Outcome (playbackType : PlaybackType) (inputs : List Input) : Option Nat → Prop where
  | refused (h : ∃ input ∈ inputs, Stops playbackType input) : Outcome playbackType inputs none
  | kept {i : Nat} {input : Input} (hmerges : ∃ input ∈ inputs, Merges playbackType input)
      (hi : inputs[i]? = some input) (hidle : ¬ Busy input) :
      Outcome playbackType inputs (some i)
  | idle {i : Nat} {input : Input} (h : ∀ input ∈ inputs, ¬ Stops playbackType input)
      (hi : inputs[i]? = some input) (hidle : ¬ Busy input) :
      Outcome playbackType inputs (some i)
  | busy {i : Nat} {input : Input} (h : ∀ input ∈ inputs, ¬ Stops playbackType input)
      (hall : ∀ input ∈ inputs, Busy input) (hi : inputs[i]? = some input) :
      Outcome playbackType inputs (some i)
  | nothing (h : inputs = []) : Outcome playbackType inputs none

/-- A candidate is the last input of its sort in front of place `i`. -/
structure Candidate (P : Input → Prop) (before : List Input) (candidate : Option Nat) : Prop where
  found : ∀ i, candidate = some i → ∃ input, before[i]? = some input ∧ P input
  missed : candidate = none → ∀ input ∈ before, ¬ P input

theorem candidate_nil {P : Input → Prop} : Candidate P [] none :=
  ⟨fun _ h => (by cases h), fun _ _ h => absurd h List.not_mem_nil⟩

theorem Candidate.new {P : Input → Prop} {before : List Input} {input : Input} (h : P input) :
    Candidate P (before ++ [input]) (some before.length) := by
  refine ⟨fun i hi => ?_, fun hnone => (by cases hnone)⟩
  obtain rfl := Option.some.inj hi
  exact ⟨input, by simp, h⟩

theorem Candidate.old {P : Input → Prop} {before : List Input} {candidate : Option Nat}
    {input : Input} (h : Candidate P before candidate) (hnot : ¬ P input) :
    Candidate P (before ++ [input]) candidate := by
  refine ⟨fun i hi => ?_, fun hnone other hother => ?_⟩
  · obtain ⟨old, hold, hP⟩ := h.found i hi
    have hlt := (List.getElem?_eq_some_iff.1 hold).1
    exact ⟨old, by rw [List.getElem?_append_left hlt, hold], hP⟩
  · rcases List.mem_append.1 hother with hbefore | hlast
    · exact h.missed hnone other hbefore
    · rwa [List.mem_singleton.1 hlast]

theorem loop_outcome : ∀ {rest before : List Input} {idleInput overridableInput : Option Nat},
    inputs = before ++ rest → Candidate (fun input => ¬ Busy input) before idleInput →
      Candidate Busy before overridableInput → (∀ input ∈ before, ¬ Stops playbackType input) →
      Outcome playbackType inputs
        (availableInputLoop playbackType rest before.length idleInput overridableInput) := by
  intro rest
  induction rest with
  | nil =>
      intro before idleInput overridableInput hinputs hidle hbusy hstops
      rw [List.append_nil] at hinputs
      subst hinputs
      rw [availableInputLoop]
      cases idleInput with
      | some i =>
          obtain ⟨input, hi, hnot⟩ := hidle.found i rfl
          exact .idle hstops hi hnot
      | none =>
          have hall : ∀ input ∈ inputs, Busy input := fun input hmem =>
            not_not.1 (hidle.missed rfl input hmem)
          cases overridableInput with
          | some i =>
              obtain ⟨input, hi, -⟩ := hbusy.found i rfl
              exact .busy hstops hall hi
          | none =>
              refine .nothing (List.eq_nil_iff_forall_not_mem.2 fun input hmem => ?_)
              exact hbusy.missed rfl input hmem (hall input hmem)
  | cons input rest ih =>
      intro before idleInput overridableInput hinputs hidle hbusy hstops
      have hmem : input ∈ inputs := by rw [hinputs]; simp
      have hnext : ∀ {idleInput overridableInput : Option Nat},
          Candidate (fun input => ¬ Busy input) (before ++ [input]) idleInput →
          Candidate Busy (before ++ [input]) overridableInput →
          ¬ Stops playbackType input →
          Outcome playbackType inputs (availableInputLoop playbackType rest (before.length + 1)
            idleInput overridableInput) := by
        intro idleInput overridableInput hidle hbusy hnot
        have hlength : (before ++ [input]).length = before.length + 1 := by simp
        rw [← hlength]
        refine ih (by rw [hinputs]; simp) hidle hbusy fun other hother => ?_
        rcases List.mem_append.1 hother with hbefore | hlast
        · exact hstops other hbefore
        · rwa [List.mem_singleton.1 hlast]
      rw [availableInputLoop]
      by_cases hstate : input.audio.currentState ≠ .idle
      · rw [if_pos hstate]
        by_cases hprior : getPlaybackPriority (some input.audio.currentOperationPlaybackType) <
            getPlaybackPriority (some playbackType)
        · rw [if_pos hprior]
          exact .refused ⟨input, hmem, .inl ⟨hstate, hprior⟩⟩
        rw [if_neg hprior]
        by_cases hsame : input.audio.currentOperationPlaybackType = playbackType ∧
            isMergable input.audio.currentOperationPlaybackType
        · rw [if_pos hsame]
          have hmerges : Merges playbackType input := ⟨hstate, hsame.1, hsame.1 ▸ hsame.2⟩
          cases idleInput with
          | none => exact .refused ⟨input, hmem, .inr hmerges⟩
          | some i =>
              obtain ⟨other, hi, hnot⟩ := hidle.found i rfl
              have hlt := (List.getElem?_eq_some_iff.1 hi).1
              refine .kept ⟨input, hmem, hmerges⟩ ?_ hnot
              rw [hinputs, List.getElem?_append_left hlt, hi]
        · rw [if_neg hsame]
          refine hnext (hidle.old (not_not_intro hstate)) (.new hstate) ?_
          rintro (houtranks | hmerges)
          · exact hprior houtranks.2
          · exact hsame ⟨hmerges.2.1, hmerges.2.1 ▸ hmerges.2.2⟩
      · rw [if_neg hstate]
        refine hnext (.new hstate) (hbusy.old hstate) ?_
        rintro (houtranks | hmerges)
        · exact hstate houtranks.1
        · exact hstate hmerges.1

theorem outcome (mux : AudioMux) (playbackType : PlaybackType) :
    Outcome playbackType mux.audioInputs (mux.getAvailableInput playbackType) :=
  @loop_outcome _ _ _ [] _ _ rfl candidate_nil candidate_nil
    fun _ h => absurd h List.not_mem_nil

/-! ## Lists in which the order does not matter -/

/-- No input is idle, or no busy one can be merged with the request. -/
def Settled (playbackType : PlaybackType) (inputs : List Input) : Prop :=
  (∀ input ∈ inputs, Busy input) ∨ ∀ input ∈ inputs, ¬ Merges playbackType input

theorem settled_perm {inputs' : List Input} (h : inputs'.Perm inputs) :
    Settled playbackType inputs' ↔ Settled playbackType inputs := by
  simp only [Settled, h.mem_iff]

theorem kindOf_none : kindOf inputs none = .nothing := rfl

theorem kindOf_some {i : Nat} {input : Input} (hi : inputs[i]? = some input) :
    kindOf inputs (some i) = if Busy input then .busy else .idle := by
  rw [kindOf, Option.bind_some, hi]

/-- Where the order does not matter, the kind is told by facts that do not depend on it. -/
theorem kindOf_eq_idle_iff (h : Outcome playbackType inputs chosen)
    (hsettled : Settled playbackType inputs) :
    kindOf inputs chosen = .idle ↔
      (∀ input ∈ inputs, ¬ Stops playbackType input) ∧ ∃ input ∈ inputs, ¬ Busy input := by
  cases h with
  | refused h =>
      obtain ⟨input, hmem, hstops⟩ := h
      exact iff_of_false (by simp [kindOf_none]) fun hall => hall.1 input hmem hstops
  | kept hmerges hi hidle =>
      obtain ⟨other, hother, hmerges⟩ := hmerges
      rcases hsettled with hall | hnone
      · exact absurd (hall _ (List.mem_of_getElem? hi)) hidle
      · exact absurd hmerges (hnone other hother)
  | idle h hi hidle =>
      rw [kindOf_some hi, if_neg hidle]
      exact iff_of_true rfl ⟨h, _, List.mem_of_getElem? hi, hidle⟩
  | busy h hall hi =>
      rw [kindOf_some hi, if_pos (hall _ (List.mem_of_getElem? hi))]
      exact iff_of_false (by simp) fun ⟨_, input, hmem, hidle⟩ => hidle (hall input hmem)
  | nothing h =>
      rw [h]
      exact iff_of_false (by simp [kindOf_none]) fun ⟨_, _, hmem, _⟩ => List.not_mem_nil hmem

theorem kindOf_eq_busy_iff (h : Outcome playbackType inputs chosen) :
    kindOf inputs chosen = .busy ↔
      (∀ input ∈ inputs, ¬ Stops playbackType input) ∧ inputs ≠ [] ∧
        ∀ input ∈ inputs, Busy input := by
  cases h with
  | refused h =>
      obtain ⟨input, hmem, hstops⟩ := h
      exact iff_of_false (by simp [kindOf_none]) fun hall => hall.1 input hmem hstops
  | kept hmerges hi hidle =>
      rw [kindOf_some hi, if_neg hidle]
      exact iff_of_false (by simp) fun hall => hidle (hall.2.2 _ (List.mem_of_getElem? hi))
  | idle h hi hidle =>
      rw [kindOf_some hi, if_neg hidle]
      exact iff_of_false (by simp) fun hall => hidle (hall.2.2 _ (List.mem_of_getElem? hi))
  | busy h hall hi =>
      have hmem := List.mem_of_getElem? hi
      rw [kindOf_some hi, if_pos (hall _ hmem)]
      exact iff_of_true rfl ⟨h, List.ne_nil_of_mem hmem, hall⟩
  | nothing h =>
      rw [h]
      exact iff_of_false (by simp [kindOf_none]) fun hall => hall.2.1 rfl

theorem kind_eq {a b : Kind} (hidle : a = .idle ↔ b = .idle) (hbusy : a = .busy ↔ b = .busy) :
    a = b := by
  cases a <;> cases b <;> simp_all

theorem choosesWell_of_settled (h : Settled playbackType mux.audioInputs) :
    ChoosesWell mux playbackType := by
  have houtcome := outcome mux playbackType
  refine ⟨?_, ?_, ?_, fun inputs hperm => ?_⟩
  · intro i input hchosen hi houtranks
    rw [hchosen] at houtcome
    cases houtcome with
    | kept _ hi' hidle => exact hidle (Option.some.inj (hi'.symm.trans hi) ▸ houtranks.1)
    | idle hstops _ _ => exact hstops input (List.mem_of_getElem? hi) (.inl houtranks)
    | busy hstops _ _ => exact hstops input (List.mem_of_getElem? hi) (.inl houtranks)
  · intro ⟨input, hmem, hstop⟩
    generalize mux.getAvailableInput playbackType = chosen at houtcome
    cases houtcome with
    | refused _ => rfl
    | kept hmerges hi hidle =>
        obtain ⟨other, hother, hmerges⟩ := hmerges
        rcases h with hall | hnone
        · exact absurd (hall _ (List.mem_of_getElem? hi)) hidle
        · exact absurd hmerges (hnone other hother)
    | idle hstops _ _ => exact absurd hstop (hstops input hmem)
    | busy hstops _ _ => exact absurd hstop (hstops input hmem)
    | nothing _ => rfl
  · intro hnot ⟨idle, hmem, hidle⟩
    generalize mux.getAvailableInput playbackType = chosen at houtcome
    cases houtcome with
    | refused hstops => exact absurd hstops hnot
    | kept _ hi hidle => exact ⟨_, _, rfl, hi, hidle⟩
    | idle _ hi hidle => exact ⟨_, _, rfl, hi, hidle⟩
    | busy _ hall _ => exact absurd (hall idle hmem) hidle
    | nothing hnil => exact absurd (hnil ▸ hmem) List.not_mem_nil
  · have hother := outcome { mux with audioInputs := inputs } playbackType
    have hsettled := (settled_perm hperm).2 h
    have hnil : inputs = [] ↔ mux.audioInputs = [] := by
      rw [← List.length_eq_zero_iff, ← List.length_eq_zero_iff, hperm.length_eq]
    refine kind_eq ?_ ?_
    · rw [kindOf_eq_idle_iff hother hsettled, kindOf_eq_idle_iff houtcome h]
      simp only [hperm.mem_iff]
    · rw [kindOf_eq_busy_iff hother, kindOf_eq_busy_iff houtcome]
      simp only [hperm.mem_iff, ne_eq, hnil]

/-! ## Lists in which it does -/

/-- An idle input in front of one that can be merged is chosen. -/
theorem available_idle_first {idle merges : Input} {rest : List Input} (hidle : ¬ Busy idle)
    (hmerges : Merges playbackType merges) :
    { mux with audioInputs := idle :: merges :: rest }.getAvailableInput playbackType = some 0 := by
  obtain ⟨hbusy, hsame, hmergable⟩ := hmerges
  have hidle' : ¬ idle.audio.currentState ≠ .idle := hidle
  have hbusy' : merges.audio.currentState ≠ .idle := hbusy
  rw [getAvailableInput, availableInputLoop, if_neg hidle', availableInputLoop, if_pos hbusy',
    hsame, if_neg (by simp), if_pos ⟨rfl, hmergable⟩]

theorem settled_of_choosesWell (h : ChoosesWell mux playbackType) :
    Settled playbackType mux.audioInputs := by
  by_contra hnot
  rw [Settled, not_or] at hnot
  push Not at hnot
  obtain ⟨⟨idle, hidle, hnotBusy⟩, merges, hmem, hmerges⟩ := hnot
  have hne : merges ≠ idle := by
    rintro rfl
    exact hnotBusy hmerges.1
  have hperm : (idle :: merges :: (mux.audioInputs.erase idle).erase merges).Perm
      mux.audioInputs :=
    (((List.perm_cons_erase ((List.mem_erase_of_ne hne).2 hmem)).cons idle).symm).trans
      (List.perm_cons_erase hidle).symm
  have hkind := h.anyOrder _ hperm
  rw [available_idle_first hnotBusy hmerges, h.refuses ⟨merges, hmem, .inr hmerges⟩, kindOf_none,
    kindOf_some rfl, if_neg hnotBusy] at hkind
  exact Kind.noConfusion hkind

/-- An input is chosen as it should be, whatever the order of the inputs, exactly where none is
idle or none can be merged with the request. -/
theorem chooses_well_iff : ChoosesWell mux playbackType ↔ Settled playbackType mux.audioInputs :=
  ⟨settled_of_choosesWell, choosesWell_of_settled⟩

/-- A notification sounds on the second input, the first is idle, and another notification is
given the first. -/
theorem idle_before_merged :
    ¬ ChoosesWell
      ⟨⟨1⟩, [⟨⟨.idle, .none⟩, ⟨0⟩, .off⟩, ⟨⟨.playback, .notifications⟩, ⟨1⟩, .off⟩]⟩
      .notifications := by
  intro h
  have hrefused := h.refuses ⟨_, List.mem_cons_of_mem _ (List.mem_singleton_self _), by decide⟩
  exact absurd hrefused (by decide)

end MuditaOS.AudioInputs
