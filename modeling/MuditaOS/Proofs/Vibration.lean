import MuditaOS.Audio.ServiceAudio
import MuditaOS.Proofs.InputChoice
import MuditaOS.Lib.Run
import Mathlib.Data.Set.Insert
import Mathlib.Data.Set.Lattice
import Mathlib.Tactic.Tauto

/-!
# The vibration motor

Each input is marked while it vibrates, and the motor should be on while one is marked. But the
stop of an input turns the motor off and clears the mark of that input alone, and a request that
finds no input to start turns it off and clears none. What is left of the others' marks is told
from the state in front of each request.
-/

namespace MuditaOS.AudioInputs

open ServiceAudio Lib

/-! ## What vibrates -/

/-- Whether the motor is on, and the places of the inputs that are marked. -/
structure Vibration where
  motor : Prop
  inputs : Set Nat

namespace Vibration

variable (v : Vibration) (stopped cleared : Set Nat)

def Agrees : Prop := v.motor ↔ v.inputs.Nonempty

/-- The motor goes off, and some marks do. -/
def quiet : Vibration := ⟨False, v.inputs \ cleared⟩

/-- The motor goes off if there is a mark to clear. -/
def stop : Vibration := ⟨v.motor ∧ stopped = ∅, v.inputs \ stopped⟩

variable {v stopped cleared}

theorem quiet_agrees_iff : (v.quiet cleared).Agrees ↔ v.inputs ⊆ cleared := by
  rw [Agrees, quiet, false_iff, Set.not_nonempty_iff_eq_empty, Set.sdiff_eq_empty]

theorem stop_empty : v.stop ∅ = v := by
  rw [stop, Set.sdiff_empty, eq_self, and_true]

theorem stop_of_nonempty (h : stopped.Nonempty) : v.stop stopped = v.quiet stopped := by
  rw [stop, quiet, eq_false h.ne_empty, and_false]

theorem stop_stop {a b : Set Nat} : (v.stop a).stop b = v.stop (a ∪ b) := by
  rw [stop, stop, stop, Set.sdiff_sdiff, Set.union_empty_iff, and_assoc]

theorem stop_quiet : (v.stop stopped).quiet cleared = v.quiet (stopped ∪ cleared) := by
  rw [stop, quiet, quiet, Set.sdiff_sdiff]

end Vibration

variable {s : ServiceAudio} {given : Surroundings} {place : Nat} {f : Input → Input}

def vibration (s : ServiceAudio) : Vibration :=
  ⟨s.vibrationMotorStatus = .on, {i | ∃ input, s.input? i = some input ∧ input.vibrationOn = .on}⟩

def busyInputs (s : ServiceAudio) : Set Nat := {i | ∃ input, s.input? i = some input ∧ Busy input}

/-! ## Single inputs -/

theorem input?_onInput {i : Nat} :
    (s.onInput place f).input? i =
      (s.input? i).map fun input => if place = i then f input else input :=
  List.getElem?_modify ..

theorem input?_onInput_of_ne {i : Nat} (h : i ≠ place) :
    (s.onInput place f).input? i = s.input? i := by
  simp [input?_onInput, Ne.symm h]

theorem vibration_onInput_same (h : ∀ input, (f input).vibrationOn = input.vibrationOn) :
    vibration (s.onInput place f) = vibration s := by
  have hinputs : (vibration (s.onInput place f)).inputs = (vibration s).inputs := by
    ext i
    simp only [vibration, Set.mem_ofPred_eq, input?_onInput, Option.map_eq_some_iff]
    constructor
    · rintro ⟨input, ⟨old, hold, rfl⟩, hon⟩
      refine ⟨old, hold, ?_⟩
      split at hon
      · rwa [h] at hon
      · exact hon
    · rintro ⟨input, hinput, hon⟩
      refine ⟨_, ⟨input, hinput, rfl⟩, ?_⟩
      split
      · rwa [h]
      · exact hon
  exact congrArg (Vibration.mk _) hinputs

theorem vibration_onInput_audio {audio : Audio} :
    vibration (s.onInput place fun i => { i with audio }) = vibration s :=
  vibration_onInput_same fun _ => rfl

theorem vibration_onInput_off (h : ∀ input, (f input).vibrationOn = .off) :
    vibration (s.onInput place f) = ⟨(vibration s).motor, (vibration s).inputs \ {place}⟩ := by
  have hinputs : (vibration (s.onInput place f)).inputs = (vibration s).inputs \ {place} := by
    ext i
    by_cases hi : i = place
    · subst hi
      simp only [vibration, Set.mem_ofPred_eq, input?_onInput, if_true, Option.map_eq_some_iff,
        Set.mem_sdiff, Set.mem_singleton_iff, not_true_eq_false, and_false, iff_false]
      rintro ⟨_, ⟨old, _, rfl⟩, hon⟩
      rw [h] at hon
      cases hon
    · simp [vibration, input?_onInput_of_ne hi, hi]
  exact congrArg (Vibration.mk _) hinputs

/-! ## The motor -/

/-- The input of an update, as a set. -/
def only (input : Option Nat) : Set Nat := {i | input = some i}

@[simp] theorem only_none : only none = ∅ := Set.eq_empty_iff_forall_notMem.2 fun _ h => nomatch h

@[simp] theorem only_some : only (some place) = {place} := by
  ext i
  exact ⟨fun h => (Option.some.inj h).symm, fun h => congrArg some (Set.mem_singleton_iff.1 h).symm⟩

variable {input : Option Nat} {type : PlaybackType}

theorem vibration_disable :
    vibration (s.disableVibration input) = (vibration s).quiet (only input) := by
  have hoff : (vibration (s.disableVibration none)) = (vibration s).quiet ∅ := by
    rw [Vibration.quiet, Set.sdiff_empty, disableVibration]
    by_cases hon : s.vibrationMotorStatus = .on
    · simp [isVibrationMotorOn, hon, vibration, input?]
    · simp [isVibrationMotorOn, hon, vibration]
  cases input with
  | none => rw [only_none, hoff]
  | some place =>
      have hinput : s.disableVibration (some place) =
          (s.disableVibration none).onInput place Input.disableVibration := rfl
      rw [hinput, vibration_onInput_off fun _ => rfl, hoff, only_some]
      simp [Vibration.quiet]

theorem vibration_oneShot : vibration s.enableOneShotVibration = vibration s := by
  rw [enableOneShotVibration]
  split <;> rfl

theorem any_on_iff :
    (s.audioMux.audioInputs.any fun i => i.vibrationOn = .on) ↔ (vibration s).inputs.Nonempty := by
  rw [List.any_eq_true]
  constructor
  · rintro ⟨input, hmem, hon⟩
    obtain ⟨i, hi⟩ := List.mem_iff_getElem?.1 hmem
    exact ⟨i, input, hi, of_decide_eq_true hon⟩
  · rintro ⟨i, input, hi, hon⟩
    exact ⟨input, List.mem_of_getElem? hi, decide_eq_true hon⟩

/-- A motor that is on for no marked input is the only thing that can go wrong. -/
theorem continuous_agrees
    (h : (vibration s).motor → (vibration s).inputs.Nonempty ∨
      ∃ place, input = some place ∧ (s.input? place).isSome) :
    (vibration (s.enableContinuousVibration input)).Agrees := by
  have hmarked : ∀ {t : ServiceAudio}, ((vibration t).motor → (vibration t).inputs.Nonempty) →
      (vibration (t.enableContinuousVibration none)).Agrees := by
    intro t ht
    rw [enableContinuousVibration]
    by_cases hany : (t.audioMux.audioInputs.any fun i => i.vibrationOn = .on)
    · have hsome := any_on_iff.1 hany
      by_cases hon : t.vibrationMotorStatus = .on
      · simp only [isVibrationMotorOn, hon, hany, decide_true, not_true_eq_false, and_false, if_false]
        exact iff_of_true hon hsome
      · simp only [isVibrationMotorOn, hon, hany, decide_false]
        exact iff_of_true rfl hsome
    · rw [if_neg fun hboth => hany hboth.1]
      have hnone := fun hsome => hany (any_on_iff.2 hsome)
      exact iff_of_false (fun hon => hnone (ht hon)) hnone
  cases input with
  | none =>
      exact hmarked fun hon => (h hon).resolve_right fun ⟨_, hnone, _⟩ => nomatch hnone
  | some place =>
      have hinput : s.enableContinuousVibration (some place) =
          (s.onInput place Input.enableVibration).enableContinuousVibration none := rfl
      rw [hinput]
      refine hmarked fun hon => ?_
      rcases h hon with ⟨i, input, hi, hvibrates⟩ | ⟨_, hplace, hvalid⟩
      · refine ⟨i, if place = i then input.enableVibration else input, ?_, ?_⟩
        · rw [input?_onInput, hi, Option.map_some]
        · split
          · rfl
          · exact hvibrates
      · obtain rfl := Option.some.inj hplace
        obtain ⟨input, hi⟩ := Option.isSome_iff_exists.1 hvalid
        exact ⟨place, input.enableVibration, by rw [input?_onInput, hi]; simp, rfl⟩

/-- The kind of vibration is a matter of the settings and the type. -/
theorem getVibrationType_eq (s t : ServiceAudio) :
    t.getVibrationType given type = s.getVibrationType given type := by
  by_cases htype : type = .none
  · subst htype
    simp [getVibrationType, vibrationMap, PlaybackType.singleVibration]
  · simp only [getVibrationType, isVibrationEnabled, getSetting, if_neg htype]

theorem getVibrationType_none : s.getVibrationType given .none = .none := by
  simp [getVibrationType, vibrationMap, PlaybackType.singleVibration]

theorem vibration_updateDefault :
    vibration (s.vibrationUpdateDefault given) = (vibration s).quiet ∅ := by
  rw [vibrationUpdateDefault, vibrationUpdate, getVibrationType_none]
  exact vibration_disable.trans (by rw [only_none])

/-! ## Stops -/

def reset (s : ServiceAudio) (place : Nat) : ServiceAudio :=
  { s with audioMux := (s.audioMux.resetInput place).2 }

theorem vibration_reset :
    vibration (reset s place) = ⟨(vibration s).motor, (vibration s).inputs \ {place}⟩ :=
  vibration_onInput_off (f := fun i => { i.disableVibration with token := _ }) fun _ => rfl

theorem input?_reset_of_ne {i : Nat} (h : i ≠ place) : (reset s place).input? i = s.input? i :=
  input?_onInput_of_ne (f := fun i => { i.disableVibration with token := _ }) h

theorem isSome_input?_onInput {i : Nat} :
    ((s.onInput place f).input? i).isSome = (s.input? i).isSome := by
  rw [input?_onInput, Option.isSome_map]

theorem isSome_input?_reset {i : Nat} :
    ((reset s place).input? i).isSome = (s.input? i).isSome :=
  isSome_input?_onInput (f := fun i => { i.disableVibration with token := _ })

theorem input?_updateDefault {i : Nat} :
    (s.vibrationUpdateDefault given).input? i = s.input? i := by
  rw [vibrationUpdateDefault, vibrationUpdate, getVibrationType_none]
  simp only [disableVibration]
  split <;> rfl

theorem stopInput_idle (h : place ∉ busyInputs s) : s.stopInput given place = (.success, s) := by
  rw [stopInput]
  cases hinput : s.input? place with
  | none => rfl
  | some input =>
      have hidle : input.audio.currentState = .idle := by
        by_contra hbusy
        exact h ⟨input, hinput, hbusy⟩
      simp only [if_pos hidle]

theorem stopInput_busy (given : Surroundings) (h : place ∈ busyInputs s) :
    ∃ audio, (s.stopInput given place).2 =
      (reset (s.onInput place fun i => { i with audio }) place).vibrationUpdateDefault given := by
  obtain ⟨input, hinput, hbusy⟩ := h
  have hbusy' : ¬ input.audio.currentState = .idle := hbusy
  refine ⟨(input.audio.stop (given.idleCreated place)).2, ?_⟩
  rw [stopInput, hinput]
  simp only [if_neg hbusy']
  rfl

theorem vibration_stopInput :
    vibration (s.stopInput given place).2 = (vibration s).stop ({place} ∩ busyInputs s) := by
  by_cases h : place ∈ busyInputs s
  · obtain ⟨audio, hstop⟩ := stopInput_busy given h
    rw [hstop, vibration_updateDefault, vibration_reset, vibration_onInput_audio,
      Set.inter_eq_left.2 (Set.singleton_subset_iff.2 h),
      Vibration.stop_of_nonempty (Set.singleton_nonempty place)]
    simp [Vibration.quiet]
  · rw [stopInput_idle h, Set.singleton_inter_eq_empty.2 h, Vibration.stop_empty]

theorem input?_stopInput_of_ne {i : Nat} (h : i ≠ place) :
    (s.stopInput given place).2.input? i = s.input? i := by
  by_cases hbusy : place ∈ busyInputs s
  · obtain ⟨audio, hstop⟩ := stopInput_busy given hbusy
    rw [hstop, input?_updateDefault, input?_reset_of_ne h, input?_onInput_of_ne h]
  · rw [stopInput_idle hbusy]

theorem isSome_input?_stopInput {i : Nat} :
    ((s.stopInput given place).2.input? i).isSome = (s.input? i).isSome := by
  by_cases hbusy : place ∈ busyInputs s
  · obtain ⟨audio, hstop⟩ := stopInput_busy given hbusy
    rw [hstop, input?_updateDefault, isSome_input?_reset, isSome_input?_onInput]
  · rw [stopInput_idle hbusy]

variable {stops : Input → Bool} {places : List Nat}

/-- The busy inputs among the places that are to be stopped. -/
def stopped (s : ServiceAudio) (stops : Input → Bool) (places : List Nat) : Set Nat :=
  {i | i ∈ places ∧ ∃ input, s.input? i = some input ∧ Busy input ∧ stops input}

theorem stopped_cons_of_stops {input : Input} (hinput : s.input? place = some input)
    (hstops : stops input) :
    stopped s stops (place :: places) = {place} ∩ busyInputs s ∪ stopped s stops places := by
  ext i
  simp only [stopped, busyInputs, Set.mem_ofPred_eq, List.mem_cons, Set.mem_union, Set.mem_inter_iff,
    Set.mem_singleton_iff]
  constructor
  · rintro ⟨rfl | hi, other, hother, hbusy, hstop⟩
    · exact .inl ⟨rfl, other, hother, hbusy⟩
    · exact .inr ⟨hi, other, hother, hbusy, hstop⟩
  · rintro (⟨rfl, other, hother, hbusy⟩ | ⟨hi, other, hother, hbusy, hstop⟩)
    · obtain rfl := Option.some.inj (hinput.symm.trans hother)
      exact ⟨.inl rfl, input, hinput, hbusy, hstops⟩
    · exact ⟨.inr hi, other, hother, hbusy, hstop⟩

theorem stopped_cons_of_not
    (h : ∀ input, s.input? place = some input → ¬ stops input) :
    stopped s stops (place :: places) = stopped s stops places := by
  ext i
  simp only [stopped, Set.mem_ofPred_eq, List.mem_cons]
  refine and_congr_left fun ⟨input, hinput, _, hstops⟩ => or_iff_right ?_
  rintro rfl
  exact h input hinput hstops

theorem stopped_congr {t : ServiceAudio} (h : ∀ i ∈ places, t.input? i = s.input? i) :
    stopped t stops places = stopped s stops places := by
  ext i
  exact and_congr_right fun hi => by rw [h i hi]

theorem vibration_stopInputs (hnodup : places.Nodup) :
    vibration (stopInputs given stops places s).2 =
      (vibration s).stop (stopped s stops places) := by
  induction places generalizing s with
  | nil => simp [stopInputs, stopped, Vibration.stop_empty]
  | cons place places ih =>
      obtain ⟨hnot, hnodup⟩ := List.nodup_cons.1 hnodup
      rw [stopInputs]
      cases hinput : s.input? place with
      | none =>
          rw [stopped_cons_of_not (by simp [hinput])]
          exact ih hnodup
      | some input =>
          by_cases hstops : stops input
          · have hrest : ∀ i ∈ places, (s.stopInput given place).2.input? i = s.input? i :=
              fun i hi => input?_stopInput_of_ne fun heq => hnot (heq ▸ hi)
            simp only [if_pos hstops]
            rw [ih hnodup, stopped_congr hrest, vibration_stopInput, Vibration.stop_stop,
              stopped_cons_of_stops hinput hstops]
          · have hnone : ∀ other, s.input? place = some other → ¬ stops other := by
              intro other hother
              rwa [← Option.some.inj (hinput.symm.trans hother)]
            simp only [if_neg hstops]
            rw [ih hnodup, stopped_cons_of_not hnone]

theorem isSome_input?_stopInputs {i : Nat} :
    ((stopInputs given stops places s).2.input? i).isSome = (s.input? i).isSome := by
  induction places generalizing s with
  | nil => rw [stopInputs]
  | cons place places ih =>
      rw [stopInputs]
      split
      · exact ih
      · split
        · exact ih.trans isSome_input?_stopInput
        · exact ih

/-- Where none is busy, every stop succeeds. -/
theorem stopInputs_success (hnone : stopped s stops places = ∅) :
    ∀ p ∈ (stopInputs given stops places s).1, p.2 = .success := by
  induction places with
  | nil => simp [stopInputs]
  | cons place places ih =>
      have hrest : stopped s stops places = ∅ :=
        Set.eq_empty_of_subset_empty (hnone ▸ fun i hi => ⟨List.mem_cons_of_mem _ hi.1, hi.2⟩)
      rw [stopInputs]
      cases hinput : s.input? place with
      | none => exact ih hrest
      | some input =>
          by_cases hstops : stops input
          · have hidle : place ∉ busyInputs s := by
              rintro ⟨other, hother, hbusy⟩
              obtain rfl := Option.some.inj (hinput.symm.trans hother)
              exact Set.notMem_empty place
                (hnone ▸ ⟨List.mem_cons_self, input, hinput, hbusy, hstops⟩)
            simp only [if_pos hstops, stopInput_idle hidle, List.forall_mem_cons, true_and]
            exact ih hrest
          · simp only [if_neg hstops]
            exact ih hrest

theorem stopped_allInputs (s : ServiceAudio) (stops : Input → Bool) :
    stopped s stops s.allInputs =
      {i | ∃ input, s.input? i = some input ∧ Busy input ∧ stops input} := by
  ext i
  refine and_iff_right_of_imp fun ⟨input, hinput, _⟩ => ?_
  exact List.mem_range.2 (List.getElem?_eq_some_iff.1 hinput).1

theorem nodup_allInputs : s.allInputs.Nodup := List.nodup_range

theorem stopped_everything : stopped s (fun _ => true) s.allInputs = busyInputs s := by
  rw [stopped_allInputs]
  simp [busyInputs]

/-! ## One request -/

section Requests

variable {token : Token} {opType : Operation.Kind} {stopTypes : List PlaybackType}

theorem input?_of_getInput (h : s.audioMux.getInput token = some place) :
    ∃ input, s.input? place = some input := by
  rw [AudioMux.getInput] at h
  split at h
  · cases h
  · obtain ⟨hlt, -⟩ := List.findIdx?_eq_some_iff_getElem.1 h
    exact ⟨_, List.getElem?_eq_getElem hlt⟩

/-- An update keeps motor and marks together unless it turns off the motor under a mark that it
does not clear. -/
def UpdateClear (s : ServiceAudio) (given : Surroundings) (type : PlaybackType)
    (input : Option Nat) : Prop :=
  s.getVibrationType given type = .none → (vibration s).inputs ⊆ only input

theorem agrees_update_iff (h : (vibration s).Agrees) :
    (vibration (s.vibrationUpdate given type input)).Agrees ↔ UpdateClear s given type input := by
  rw [vibrationUpdate, UpdateClear]
  cases s.getVibrationType given type with
  | none => simp only [vibration_disable, Vibration.quiet_agrees_iff, forall_const]
  | oneShot => simp [vibration_oneShot, h]
  | continuous =>
      exact iff_of_true (continuous_agrees fun hon => .inl (h.1 hon)) fun hnone => nomatch hnone

/-- What the pause of an input clears. -/
def pauseClears (s : ServiceAudio) (place : Nat) : Set Nat :=
  {i | i = place ∧ ∃ input, s.input? i = some input ∧
    (isResumable input.audio.currentOperationPlaybackType ∨ Busy input)}

theorem vibration_handlePause (h : s.audioMux.getInput token = some place) :
    vibration (s.handlePause given token).2 = (vibration s).quiet (pauseClears s place) := by
  obtain ⟨input, hinput⟩ := input?_of_getInput h
  simp only [handlePause, h, hinput, vibration_updateDefault]
  split
  · rename_i hresumable
    have hclears : pauseClears s place = {place} := by
      ext i
      refine and_iff_left_of_imp ?_
      rintro rfl
      exact ⟨input, hinput, .inl hresumable⟩
    rw [vibration_onInput_off fun _ => rfl, hclears]
    simp [Vibration.quiet]
  · rename_i hresumable
    have hclears : pauseClears s place = {place} ∩ busyInputs s := by
      ext i
      refine and_congr_right ?_
      rintro rfl
      constructor
      · rintro ⟨other, hother, hcan | hbusy⟩
        · obtain rfl := Option.some.inj (hinput.symm.trans hother)
          exact absurd hcan hresumable
        · exact ⟨other, hother, hbusy⟩
      · rintro ⟨other, hother, hbusy⟩
        exact ⟨other, hother, .inr hbusy⟩
    rw [vibration_stopInput, Vibration.stop_quiet, Set.union_empty, hclears]

/-- A start with an input stops the busy ones and clears the mark of its own. -/
def AudioStartClear (s : ServiceAudio) (given : Surroundings) (type : PlaybackType) :
    Option Nat → Prop
  | none => UpdateClear s given type none
  | some place =>
      match s.getVibrationType given type with
      | .none => (vibration s).inputs ⊆ busyInputs s ∪ {place}
      | .oneShot =>
          ((vibration s).inputs.Nonempty ∧ busyInputs s = ∅) ↔
            ¬ (vibration s).inputs ⊆ busyInputs s ∪ {place}
      | .continuous => True

/-- The state in which a start calls for the vibration. -/
theorem audioStart_some (s : ServiceAudio) (given : Surroundings) (opType : Operation.Kind)
    (type : PlaybackType) (place : Nat) :
    ∃ t, (s.audioStart given opType type (some place)).2 =
        t.vibrationUpdate given type (some place) ∧
      vibration t = ⟨(vibration s).motor ∧ busyInputs s = ∅,
        (vibration s).inputs \ (busyInputs s ∪ {place})⟩ ∧
      ∀ i, (t.input? i).isSome = (s.input? i).isSome := by
  have hreset : vibration (reset (stopInputs given (fun _ => true) s.allInputs s).2 place) =
      ⟨(vibration s).motor ∧ busyInputs s = ∅,
        (vibration s).inputs \ (busyInputs s ∪ {place})⟩ := by
    rw [vibration_reset, vibration_stopInputs nodup_allInputs, stopped_everything,
      Vibration.stop, Set.sdiff_sdiff]
  have hsome : ∀ i, ((reset (stopInputs given (fun _ => true) s.allInputs s).2 place).input?
      i).isSome = (s.input? i).isSome := fun i => by
    rw [isSome_input?_reset, isSome_input?_stopInputs]
  simp only [audioStart]
  refine ⟨_, rfl, ?_⟩
  split
  · exact ⟨hreset, hsome⟩
  · split
    · refine ⟨vibration_onInput_audio.trans hreset, fun i => ?_⟩
      exact isSome_input?_onInput.trans (hsome i)
    · exact ⟨hreset, hsome⟩

theorem agrees_audioStart_iff (h : (vibration s).Agrees) :
    (vibration (s.audioStart given opType type input).2).Agrees ↔
      AudioStartClear s given type input := by
  cases input with
  | none => exact agrees_update_iff h
  | some place =>
      obtain ⟨t, ht, hvibration, hsome⟩ := audioStart_some s given opType type place
      rw [ht, vibrationUpdate, AudioStartClear, getVibrationType_eq s]
      cases s.getVibrationType given type with
      | none =>
          simp only [vibration_disable, Vibration.quiet_agrees_iff, hvibration, only_some,
            Set.sdiff_subset_iff, Set.union_assoc, Set.union_self]
      | oneShot =>
          have hmotor : (vibration s).motor ↔ (vibration s).inputs.Nonempty := h
          simp only [vibration_oneShot, hvibration, Vibration.Agrees, Set.sdiff_nonempty, hmotor]
      | continuous =>
          refine iff_of_true (continuous_agrees fun hon => ?_) trivial
          rw [hvibration] at hon ⊢
          obtain ⟨i, hi⟩ := h.1 hon.1
          by_cases hplace : i = place
          · obtain ⟨input, hinput, -⟩ := hi
            exact .inr ⟨place, rfl, by rw [hsome, ← hplace, hinput]; rfl⟩
          · exact .inl ⟨i, hi, by simp [hon.2, hplace]⟩

/-- With a voice connection over Bluetooth a ringtone is not started. -/
def StartClear (s : ServiceAudio) (given : Surroundings) (opType : Operation.Kind)
    (type : PlaybackType) : Prop :=
  match opType with
  | .playback =>
      let input := s.audioMux.getPlaybackInput type
      if type = .callRingtone ∧ given.bluetoothVoiceProfileConnected ∧ input.isSome then
        UpdateClear s given type input
      else AudioStartClear s given type input
  | .recorder => AudioStartClear s given type s.audioMux.getIdleInput
  | .router => AudioStartClear s given type (s.audioMux.getRoutingInput true)
  | .idle => True

theorem agrees_handleStart_iff (h : (vibration s).Agrees) :
    (vibration (s.handleStart given opType type).2).Agrees ↔ StartClear s given opType type := by
  cases opType with
  | playback =>
      simp only [handleStart, StartClear]
      split
      · exact agrees_update_iff h
      · exact agrees_audioStart_iff h
  | recorder => exact agrees_audioStart_iff h
  | router => exact agrees_audioStart_iff h
  | idle => exact iff_of_true h trivial

/-- The busy inputs that a stop is about. -/
def stopClears (s : ServiceAudio) (stopTypes : List PlaybackType) (token : Token) : Set Nat :=
  match s.audioMux.getInput token with
  | some place => {place} ∩ busyInputs s
  | none =>
      {i | ∃ input, s.input? i = some input ∧ Busy input ∧
        if stopTypes ≠ [] then input.audio.currentOperationPlaybackType ∈ stopTypes
        else token.isUninitialized}

def NotFound (s : ServiceAudio) (token : Token) : Prop :=
  s.audioMux.getInput token = none ∧ token.isValid

theorem stopRequested_cases (s : ServiceAudio) (given : Surroundings)
    (stopTypes : List PlaybackType) (token : Token) :
    (NotFound s token ∧ s.stopRequested given stopTypes token = none) ∨
      ¬ NotFound s token ∧ ∃ retCodes t,
        s.stopRequested given stopTypes token = some (retCodes, t) ∧
        vibration t = (vibration s).stop (stopClears s stopTypes token) ∧
        (stopClears s stopTypes token = ∅ → ∀ p ∈ retCodes, p.2 = .success) := by
  cases hinput : s.audioMux.getInput token with
  | some place =>
      refine .inr ⟨fun hnot => (nomatch hinput.symm.trans hnot.1),
        [(token, (s.stopInput given place).1)], (s.stopInput given place).2,
        by simp only [stopRequested, hinput], ?_⟩
      simp only [stopClears, hinput]
      refine ⟨vibration_stopInput, fun hnone => ?_⟩
      rw [stopInput_idle (Set.singleton_inter_eq_empty.1 hnone)]
      simp
  | none =>
      by_cases hvalid : token.isValid
      · exact .inl ⟨⟨hinput, hvalid⟩, by simp only [stopRequested, hinput, if_pos hvalid]⟩
      refine .inr ⟨fun hnot => hvalid hnot.2, ?_⟩
      simp only [stopRequested, stopClears, hinput, if_neg hvalid]
      by_cases htypes : stopTypes ≠ []
      · have hstopped := stopped_allInputs s fun i =>
          i.audio.currentOperationPlaybackType ∈ stopTypes
        simp only [decide_eq_true_eq] at hstopped
        simp only [if_pos htypes, ← hstopped]
        exact ⟨_, _, rfl, vibration_stopInputs nodup_allInputs, stopInputs_success⟩
      · by_cases htoken : token.isUninitialized
        · have hstopped : {i | ∃ input, s.input? i = some input ∧ Busy input ∧
              token.isUninitialized} = stopped s (fun _ => true) s.allInputs := by
            rw [stopped_everything]
            simp [busyInputs, htoken]
          simp only [if_neg htypes, if_pos htoken, hstopped]
          exact ⟨_, _, rfl, vibration_stopInputs nodup_allInputs, stopInputs_success⟩
        · refine ⟨[], s, by rw [if_neg htypes, if_neg htoken], ?_, by simp⟩
          simp [if_neg htypes, htoken, Vibration.stop_empty]

theorem handleStop_notFound (h : NotFound s token) :
    (s.handleStop given stopTypes token).2 = s := by
  rcases stopRequested_cases s given stopTypes token with ⟨-, hnone⟩ | ⟨hnot, -⟩
  · simp only [handleStop, hnone]
  · exact absurd h hnot

theorem vibration_handleStop (h : ¬ NotFound s token) :
    vibration (s.handleStop given stopTypes token).2 =
      (vibration s).quiet (stopClears s stopTypes token) := by
  rcases stopRequested_cases s given stopTypes token with ⟨hfound, -⟩ | ⟨-, retCodes, t, hsome, ht, hsuccess⟩
  · exact absurd hfound h
  simp only [handleStop, hsome]
  cases hfind : retCodes.find? fun p => p.2 ≠ .success with
  | none =>
      rw [vibration_updateDefault, ht, Vibration.stop_quiet, Set.union_empty]
  | some p =>
      -- An answer that is no success comes from an input that was busy.
      have hnonempty : (stopClears s stopTypes token).Nonempty := by
        rw [Set.nonempty_iff_ne_empty]
        intro hnone
        have hp := List.find?_some hfind
        simp [hsuccess hnone p (List.mem_of_find?_eq_some hfind)] at hp
      rw [ht, Vibration.stop_of_nonempty hnonempty]

/-- The stop of a busy input leaves no other marked. -/
def InputClear (s : ServiceAudio) (place : Nat) : Prop :=
  place ∈ busyInputs s → (vibration s).inputs ⊆ {place}

theorem agrees_stopInput_iff (h : (vibration s).Agrees) :
    (vibration (s.stopInput given place).2).Agrees ↔ InputClear s place := by
  rw [vibration_stopInput, InputClear]
  by_cases hbusy : place ∈ busyInputs s
  · rw [Set.inter_eq_left.2 (Set.singleton_subset_iff.2 hbusy),
      Vibration.stop_of_nonempty (Set.singleton_nonempty place), Vibration.quiet_agrees_iff]
    exact ⟨fun hsubset _ => hsubset, fun hclear => hclear hbusy⟩
  · rw [Set.singleton_inter_eq_empty.2 hbusy, Vibration.stop_empty]
    exact iff_of_true h fun hin => absurd hin hbusy

end Requests

/-! ## Runs -/

/-- After the call the motor is on exactly while an input is marked, and a stop after which all
are idle leaves nothing on. -/
structure Follows (s : ServiceAudio) (call : Call) : Prop where
  motor : (s.handle call).vibrationMotorStatus = .on ↔
    ∃ input ∈ (s.handle call).audioMux.audioInputs, input.vibrationOn = .on
  silent : ∀ stopTypes token, call.request = .stop stopTypes token →
    (∀ input ∈ (s.handle call).audioMux.audioInputs, ¬ Busy input) →
    (s.handle call).vibrationMotorStatus = .off ∧
      ∀ input ∈ (s.handle call).audioMux.audioInputs, input.vibrationOn = .off

/-- What has to hold in front of a call: no input keeps its mark when the motor is turned off. -/
def Clear (s : ServiceAudio) (call : Call) : Prop :=
  match call.request with
  | .start opType type => StartClear s call.surroundings opType type
  | .pause token => ∀ place, s.audioMux.getInput token = some place →
      (vibration s).inputs ⊆ pauseClears s place
  | .resume token => ∀ place, s.audioMux.getInput token = some place →
      ∀ input, s.input? place = some input →
      UpdateClear s call.surroundings input.audio.currentOperationPlaybackType (some place)
  | .stop stopTypes token =>
      (NotFound s token → (vibration s).inputs = ∅ ∨ (busyInputs s).Nonempty) ∧
        (¬ NotFound s token → (vibration s).inputs ⊆ stopClears s stopTypes token)
  | .eof token => ∀ place, s.audioMux.getInput token = some place →
      ∀ input, s.input? place = some input →
      ¬ shouldLoop call.surroundings.autoRepeat input.audio.currentOperationPlaybackType →
      InputClear s place
  | .fileDeleted token => ∀ place, s.audioMux.getInput token = some place → InputClear s place

theorem marked_nonempty_iff :
    (vibration s).inputs.Nonempty ↔ ∃ input ∈ s.audioMux.audioInputs, input.vibrationOn = .on := by
  rw [← any_on_iff, List.any_eq_true]
  simp

theorem agrees_iff : (vibration s).Agrees ↔
    (s.vibrationMotorStatus = .on ↔
      ∃ input ∈ s.audioMux.audioInputs, input.vibrationOn = .on) := by
  rw [Vibration.Agrees, marked_nonempty_iff]
  rfl

theorem busy_empty_iff : busyInputs s = ∅ ↔ ∀ input ∈ s.audioMux.audioInputs, ¬ Busy input := by
  rw [Set.eq_empty_iff_forall_notMem]
  constructor
  · intro h input hmem hbusy
    obtain ⟨i, hi⟩ := List.mem_iff_getElem?.1 hmem
    exact h i ⟨input, hi, hbusy⟩
  · rintro h i ⟨input, hi, hbusy⟩
    exact h input (List.mem_of_getElem? hi) hbusy

theorem off_iff {status : VibrationStatus} : status = .off ↔ status ≠ .on := by
  cases status <;> simp

theorem nothing_on_iff : (vibration s).inputs = ∅ ↔
    ∀ input ∈ s.audioMux.audioInputs, input.vibrationOn = .off := by
  rw [← Set.not_nonempty_iff_eq_empty, marked_nonempty_iff]
  simp [off_iff]

variable {call : Call}

/-- The agreement after one call. -/
theorem agrees_handle_iff (h : (vibration s).Agrees)
    (hstop : ∀ stopTypes token, call.request ≠ .stop stopTypes token) :
    (vibration (s.handle call)).Agrees ↔ Clear s call := by
  obtain ⟨request, given⟩ := call
  cases request with
  | start opType type => exact agrees_handleStart_iff h
  | pause token =>
      simp only [handle, Clear]
      cases hinput : s.audioMux.getInput token with
      | none => simp [handlePause, hinput, h]
      | some place => simp [vibration_handlePause hinput, Vibration.quiet_agrees_iff]
  | resume token =>
      simp only [handle, Clear]
      cases hinput : s.audioMux.getInput token with
      | none => simp [handleResume, hinput, h]
      | some place =>
          obtain ⟨input, hplace⟩ := input?_of_getInput hinput
          simp [handleResume, hinput, hplace, agrees_update_iff h]
  | stop stopTypes token => exact absurd rfl (hstop stopTypes token)
  | eof token =>
      simp only [handle, Clear]
      cases hinput : s.audioMux.getInput token with
      | none => simp [handleEOF, hinput, h]
      | some place =>
          obtain ⟨input, hplace⟩ := input?_of_getInput hinput
          by_cases hloop : shouldLoop given.autoRepeat input.audio.currentOperationPlaybackType
          · simp [handleEOF, hinput, hplace, hloop, vibration_onInput_audio, h]
          · simp [handleEOF, hinput, hplace, hloop, agrees_stopInput_iff h]
  | fileDeleted token =>
      simp only [handle, Clear]
      cases hinput : s.audioMux.getInput token with
      | none => simp [handleFileDeleted, hinput, h]
      | some place => simp [handleFileDeleted, hinput, agrees_stopInput_iff h]

theorem follows_stop_iff {stopTypes : List PlaybackType} {token : Token}
    (h : (vibration s).Agrees) :
    Follows s ⟨.stop stopTypes token, given⟩ ↔ Clear s ⟨.stop stopTypes token, given⟩ := by
  simp only [Clear]
  by_cases hfound : NotFound s token
  · have hsame : s.handle ⟨.stop stopTypes token, given⟩ = s := handleStop_notFound hfound
    rw [and_iff_left fun hnot => absurd hfound hnot, forall_prop_of_true hfound]
    constructor
    · intro hfollows
      by_contra hnot
      rw [not_or, Set.not_nonempty_iff_eq_empty, busy_empty_iff] at hnot
      have hsilent := (hfollows.silent stopTypes token rfl (by rw [hsame]; exact hnot.2)).2
      rw [hsame] at hsilent
      exact hnot.1 (nothing_on_iff.2 hsilent)
    · intro hclear
      refine ⟨by rw [hsame]; exact agrees_iff.1 h, fun _ _ _ hidle => ?_⟩
      rw [hsame] at hidle ⊢
      have hnone := hclear.resolve_right fun hbusy => hbusy.ne_empty (busy_empty_iff.2 hidle)
      refine ⟨off_iff.2 fun hon => ?_, nothing_on_iff.1 hnone⟩
      exact (h.1 hon).ne_empty hnone
  · have hquiet : vibration (s.handle ⟨.stop stopTypes token, given⟩) = _ :=
      vibration_handleStop hfound
    rw [and_iff_right fun hnot => absurd hnot hfound, forall_prop_of_true hfound,
      ← Vibration.quiet_agrees_iff, ← hquiet]
    refine ⟨fun hfollows => agrees_iff.2 hfollows.motor, fun hagrees => ⟨agrees_iff.1 hagrees, ?_⟩⟩
    intro _ _ _ _
    have hoff : ¬ (vibration (s.handle ⟨.stop stopTypes token, given⟩)).motor := by
      rw [hquiet]
      exact not_false
    refine ⟨off_iff.2 hoff, nothing_on_iff.1 ?_⟩
    rw [← Set.not_nonempty_iff_eq_empty]
    exact fun hon => hoff (hagrees.2 hon)

theorem follows_iff_clear (h : (vibration s).Agrees) : Follows s call ↔ Clear s call := by
  by_cases hstop : ∃ stopTypes token, call.request = .stop stopTypes token
  · obtain ⟨stopTypes, token, hrequest⟩ := hstop
    obtain ⟨request, given⟩ := call
    subst hrequest
    exact follows_stop_iff h
  · have hnot : ∀ stopTypes token, call.request ≠ .stop stopTypes token :=
      fun stopTypes token hrequest => hstop ⟨stopTypes, token, hrequest⟩
    rw [← agrees_handle_iff h hnot, agrees_iff]
    exact ⟨fun hfollows => hfollows.motor,
      fun hmotor => ⟨hmotor, fun _ _ hrequest => absurd hrequest (hnot _ _)⟩⟩

theorem addInputs_off : ∀ {n : Nat} {mux : AudioMux},
    (∀ input ∈ mux.audioInputs, input.vibrationOn = .off) →
      ∀ input ∈ (mux.addInputs n).audioInputs, input.vibrationOn = .off := by
  intro n
  induction n with
  | zero => intro mux h; exact h
  | succ n ih =>
      intro mux h
      refine ih fun input hmem => ?_
      rcases List.mem_append.1 hmem with hold | hnew
      · exact h input hold
      · rw [List.mem_singleton.1 hnew]

theorem agrees_make {n : Nat} : (vibration (make n)).Agrees := by
  have hnone : (vibration (make n)).inputs = ∅ :=
    nothing_on_iff.2 (addInputs_off fun _ h => absurd h List.not_mem_nil)
  refine iff_of_false (fun hon => ?_) fun hsome => hsome.ne_empty hnone
  cases hon

/-- In a run from the start, the motor follows the inputs after every call exactly if no call
turns it off under a mark that stays, and no token is stopped in vain while idle inputs
vibrate. -/
theorem motor_follows_iff (n : Nat) (calls : List Call) :
    EveryStep Follows handle (make n) calls ↔ EveryStep Clear handle (make n) calls :=
  everyStep_congr (fun _ _ (h : (vibration _).Agrees) => follows_iff_clear h)
    (fun _ _ h hclear => agrees_iff.2 ((follows_iff_clear h).2 hclear).motor) agrees_make

/-- A ringtone vibrates; music is not started because of it and turns the motor off. -/
theorem music_silences_ringtone :
    let given : Surroundings := ⟨fun type => type = .callRingtone, fun _ => true, false, false,
      .ran .success, fun _ => true, .success⟩
    ¬ EveryStep Follows handle (make 1)
      [⟨.start .playback .callRingtone, given⟩, ⟨.start .playback .multimedia, given⟩] := by
  intro given h
  exact absurd h.2.1.motor (by decide)

end MuditaOS.AudioInputs
