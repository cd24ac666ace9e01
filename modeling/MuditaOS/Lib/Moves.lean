import Mathlib.Data.List.Basic

/-!
# Moves made one after another

A store gives each key a value or none. Each of a list of keys is cleared, or its value is
moved to another key, one after the other, so a move may write over a value that is still
to be moved, or over one that has been. Where none does, the moves are as good as made at
once.
-/

namespace MuditaOS.Lib

variable {K α : Type*} [DecidableEq K]

def clear (store : K → Option α) (key : K) : K → Option α := fun k =>
  if k = key then none else store k

def move (store : K → Option α) (key dest : K) : K → Option α := fun k =>
  if k = dest then store key else if k = key then none else store k

/-- The store after all moves, and the values that were written over. `none` is the target
of a key that is cleared. -/
def moveAll (target : K → Option K) : List K → (K → Option α) → (K → Option α) × List α
  | [], store => (store, [])
  | key :: keys, store =>
      match target key with
      | none => moveAll target keys (clear store key)
      | some dest =>
          let (store', lost) := moveAll target keys (move store key dest)
          (store', (if dest = key then [] else (store dest).toList) ++ lost)

/-- The earlier key is moved neither onto the later one nor to where that is moved. -/
def Apart (target : K → Option K) (earlier later : K) : Prop :=
  ∀ dest, target earlier = some dest → dest ≠ later ∧ target later ≠ some dest

/-- The keys are moved onto each other or onto free ones. -/
def MovesFit (target : K → Option K) (keys : List K) (store : K → Option α) : Prop :=
  ∀ key ∈ keys, ∀ dest, target key = some dest → dest ∈ keys ∨ store dest = none

variable {target : K → Option K} {keys : List K} {store : K → Option α} {key dest k first : K}

theorem clear_self : clear store key key = none := if_pos rfl

theorem clear_ne (h : k ≠ key) : clear store key k = store k := if_neg h

theorem move_dest : move store key dest dest = store key := if_pos rfl

theorem move_key (h : key ≠ dest) : move store key dest key = none := by
  rw [move, if_neg h, if_pos rfl]

theorem move_ne (hdest : k ≠ dest) (hkey : k ≠ key) : move store key dest k = store k := by
  rw [move, if_neg hdest, if_neg hkey]

theorem moveAll_cons_none (h : target key = none) :
    moveAll target (key :: keys) store = moveAll target keys (clear store key) := by
  rw [moveAll, h]

theorem moveAll_cons_some (h : target key = some dest) :
    moveAll target (key :: keys) store =
      ((moveAll target keys (move store key dest)).1,
        (if dest = key then [] else (store dest).toList) ++
          (moveAll target keys (move store key dest)).2) := by
  rw [moveAll, h]

/-- What is left at a key was moved there, or stood there and was not moved. -/
theorem moveAll_left (h : ((moveAll target keys store).1 k).isSome) :
    (∃ key ∈ keys, target key = some k) ∨ k ∉ keys ∧ (store k).isSome := by
  induction keys generalizing store with
  | nil => exact .inr ⟨List.not_mem_nil, h⟩
  | cons key keys ih =>
      cases htarget : target key with
      | none =>
          rw [moveAll_cons_none htarget] at h
          rcases ih h with ⟨moved, hmem, hmoved⟩ | ⟨hnot, hsome⟩
          · exact .inl ⟨moved, List.mem_cons_of_mem key hmem, hmoved⟩
          · by_cases hk : k = key
            · rw [hk, clear_self] at hsome
              cases hsome
            · rw [clear_ne hk] at hsome
              exact .inr ⟨List.not_mem_cons_of_ne_of_not_mem hk hnot, hsome⟩
      | some dest =>
          rw [moveAll_cons_some htarget] at h
          rcases ih h with ⟨moved, hmem, hmoved⟩ | ⟨hnot, hsome⟩
          · exact .inl ⟨moved, List.mem_cons_of_mem key hmem, hmoved⟩
          · by_cases hdest : k = dest
            · exact .inl ⟨key, List.mem_cons_self, hdest ▸ htarget⟩
            · by_cases hk : k = key
              · subst hk
                rw [move_key hdest] at hsome
                cases hsome
              · rw [move_ne hdest hk] at hsome
                exact .inr ⟨List.not_mem_cons_of_ne_of_not_mem hk hnot, hsome⟩

/-- A key that is neither moved nor moved onto keeps its value. -/
theorem moveAll_frame (hkeys : k ∉ keys) (htargets : ∀ key ∈ keys, target key ≠ some k) :
    (moveAll target keys store).1 k = store k := by
  induction keys generalizing store with
  | nil => rfl
  | cons key keys ih =>
      have hne : k ≠ key := List.ne_of_not_mem_cons hkeys
      have hrest : ∀ store' : K → Option α, (moveAll target keys store').1 k = store' k :=
        fun store' => ih (List.not_mem_of_not_mem_cons hkeys) fun key' hkey' =>
          htargets key' (List.mem_cons_of_mem key hkey')
      cases htarget : target key with
      | none => rw [moveAll_cons_none htarget, hrest, clear_ne hne]
      | some dest =>
          have hdest : k ≠ dest := fun heq =>
            htargets key List.mem_cons_self (heq ▸ htarget)
          rw [moveAll_cons_some htarget]
          exact (hrest _).trans (move_ne hdest hne)

/-- Where the keys are apart, each value arrives. -/
theorem moveAll_moved (hnodup : keys.Nodup) (hapart : keys.Pairwise (Apart target))
    (hkey : key ∈ keys) (htarget : target key = some dest) :
    (moveAll target keys store).1 dest = store key := by
  induction keys generalizing store with
  | nil => exact absurd hkey List.not_mem_nil
  | cons first keys ih =>
      obtain ⟨hfirst, hnodup⟩ := List.nodup_cons.1 hnodup
      obtain ⟨hlater, hapart⟩ := List.pairwise_cons.1 hapart
      rcases List.mem_cons.1 hkey with rfl | hkey
      · rw [moveAll_cons_some htarget]
        have hkept := @moveAll_frame _ _ _ target keys (move store key dest) dest
          (fun hmem => (hlater dest hmem dest htarget).1 rfl)
          fun key' hkey' => (hlater key' hkey' dest htarget).2
        exact hkept.trans move_dest
      · have hne : key ≠ first := fun heq => hfirst (heq ▸ hkey)
        cases hfirst' : target first with
        | none =>
            rw [moveAll_cons_none hfirst', ih hnodup hapart hkey, clear_ne hne]
        | some dest' =>
            rw [moveAll_cons_some hfirst']
            exact (ih hnodup hapart hkey).trans
              (move_ne (hlater key hkey dest' hfirst').1.symm hne)

theorem movesFit_cons_none (htarget : target first = none) :
    MovesFit target (first :: keys) store ↔ MovesFit target keys (clear store first) := by
  constructor
  · intro hfit key hkey dest hdest
    rcases hfit key (List.mem_cons_of_mem first hkey) dest hdest with hmem | hnone
    · rcases List.mem_cons.1 hmem with rfl | hmem
      · exact .inr clear_self
      · exact .inl hmem
    · by_cases heq : dest = first
      · exact .inr (heq ▸ clear_self)
      · exact .inr ((clear_ne heq).trans hnone)
  · intro hfit key hkey dest hdest
    rcases List.mem_cons.1 hkey with rfl | hkey
    · rw [htarget] at hdest
      cases hdest
    · by_cases heq : dest = first
      · exact .inl (heq ▸ List.mem_cons_self)
      · exact (hfit key hkey dest hdest).imp (List.mem_cons_of_mem first) fun hnone =>
          (clear_ne heq).symm.trans hnone

/-- After a move onto a free key, where no other key is moved to, the others fit as before. -/
theorem movesFit_cons_some (htarget : target first = some dest)
    (hhere : dest = first ∨ store dest = none) (hother : ∀ key ∈ keys, target key ≠ some dest) :
    MovesFit target (first :: keys) store ↔ MovesFit target keys (move store first dest) := by
  constructor
  · intro hfit key hkey onto honto
    have hne : onto ≠ dest := fun heq => hother key hkey (heq ▸ honto)
    rcases hfit key (List.mem_cons_of_mem first hkey) onto honto with hmem | hnone
    · rcases List.mem_cons.1 hmem with rfl | hmem
      · exact .inr (move_key hne)
      · exact .inl hmem
    · by_cases heq : onto = first
      · subst heq
        exact .inr (move_key hne)
      · exact .inr ((move_ne hne heq).trans hnone)
  · intro hfit key hkey onto honto
    rcases List.mem_cons.1 hkey with rfl | hkey
    · obtain rfl := Option.some.inj (htarget.symm.trans honto)
      rcases hhere with rfl | hnone
      · exact .inl List.mem_cons_self
      · exact .inr hnone
    · by_cases heq : onto = first
      · exact .inl (heq ▸ List.mem_cons_self)
      · have hne : onto ≠ dest := fun heq' => hother key hkey (heq' ▸ honto)
        exact (hfit key hkey onto honto).imp (List.mem_cons_of_mem first) fun hnone =>
          (move_ne hne heq).symm.trans hnone

theorem overwritten_eq_nil_iff :
    (if dest = key then [] else (store dest).toList) = [] ↔ dest = key ∨ store dest = none := by
  by_cases heq : dest = key
  · exact iff_of_true (if_pos heq) (.inl heq)
  · rw [if_neg heq, Option.toList_eq_nil_iff, or_iff_right heq]

/-- Nothing is written over if and only if the keys are apart, and are moved onto each
other or onto free ones. -/
theorem moveAll_lost_eq_nil_iff (hnodup : keys.Nodup) (hsome : ∀ key ∈ keys, (store key).isSome) :
    (moveAll target keys store).2 = [] ↔
      keys.Pairwise (Apart target) ∧ MovesFit target keys store := by
  induction keys generalizing store with
  | nil =>
      exact iff_of_true rfl ⟨List.Pairwise.nil, fun key hkey => absurd hkey List.not_mem_nil⟩
  | cons first keys ih =>
      obtain ⟨hfirst, hnodup⟩ := List.nodup_cons.1 hnodup
      have hrest : ∀ key ∈ keys, (store key).isSome := fun key hkey =>
        hsome key (List.mem_cons_of_mem first hkey)
      have hne : ∀ key ∈ keys, key ≠ first := fun key hkey heq => hfirst (heq ▸ hkey)
      cases htarget : target first with
      | none =>
          have hcleared : ∀ key ∈ keys, (clear store first key).isSome := fun key hkey => by
            rw [clear_ne (hne key hkey)]
            exact hrest key hkey
          have hvacuous : ∀ key ∈ keys, Apart target first key := fun key _ dest hdest => by
            rw [htarget] at hdest
            cases hdest
          rw [moveAll_cons_none htarget, ih hnodup hcleared, List.pairwise_cons,
            movesFit_cons_none htarget, and_iff_right hvacuous]
      | some onto =>
          have hmoved : ∀ key ∈ keys, (move store first onto key).isSome := fun key hkey => by
            by_cases heq : key = onto
            · rw [heq, move_dest]
              exact hsome first List.mem_cons_self
            · rw [move_ne heq (hne key hkey)]
              exact hrest key hkey
          rw [moveAll_cons_some htarget, List.append_eq_nil_iff, ih hnodup hmoved,
            List.pairwise_cons, overwritten_eq_nil_iff]
          constructor
          · intro ⟨hhere, hapart, hfit⟩
            have honto : onto ∉ keys := by
              intro hmem
              rcases hhere with rfl | hnone
              · exact hfirst hmem
              · exact Option.isSome_iff_ne_none.1 (hrest onto hmem) hnone
            have hother : ∀ key ∈ keys, target key ≠ some onto := by
              intro key hkey hdest
              rcases hfit key hkey onto hdest with hmem | hnone
              · exact honto hmem
              · rw [move_dest] at hnone
                exact Option.isSome_iff_ne_none.1 (hsome first List.mem_cons_self) hnone
            refine ⟨⟨fun later hlater dest hdest => ?_, hapart⟩,
              (movesFit_cons_some htarget hhere hother).2 hfit⟩
            obtain rfl := Option.some.inj (htarget.symm.trans hdest)
            exact ⟨fun heq => honto (heq ▸ hlater), hother later hlater⟩
          · intro ⟨⟨hlater, hapart⟩, hfit⟩
            have hhere : onto = first ∨ store onto = none := by
              rcases hfit first List.mem_cons_self onto htarget with hmem | hnone
              · rcases List.mem_cons.1 hmem with heq | hmem
                · exact .inl heq
                · exact absurd rfl (hlater onto hmem onto htarget).1
              · exact .inr hnone
            have hother : ∀ key ∈ keys, target key ≠ some onto := fun key hkey =>
              (hlater key hkey onto htarget).2
            exact ⟨hhere, hapart, (movesFit_cons_some htarget hhere hother).1 hfit⟩

end MuditaOS.Lib
