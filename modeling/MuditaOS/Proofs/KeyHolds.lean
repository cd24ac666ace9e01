import MuditaOS.Evtmgr.KeySequences
import MuditaOS.Lib.Run

/-!
# Held keys and the actions for them

Beside the manager stands what the user did: which keys are down, whether those of a
sequence have been down since its timer was started, how often they were until it
expired, and how often the action ran. The list of sequences in progress and the count of
the actions are right in every run. The rest goes wrong at two places only: a release does
not stop the timer, and the end of a hold looks at the last sequence that is ready when
there may be none.
-/

namespace MuditaOS.Evtmgr

open MuditaOS.Lib

/-! ## What the user did -/

structure Session where
  mgr : KeySequenceMgr
  down : KeyStates
  /-- The keys have been down since the timer was last started. -/
  held : Nat → Bool
  /-- How often the timer expired then. -/
  completed : Nat → Nat
  acted : Nat → Nat

inductive Input where
  | key (key : RawKey)
  | expire (seq : Nat)

namespace GenericLongPressSequence

variable (seq : GenericLongPressSequence) (key : RawKey)

/-- The keys stay down, or the timer is started with them down. -/
def holdsOn (down : KeyStates) (held : Bool) : Bool :=
  ((seq.process key).1 = some .triggered || held) && seq.keys.toFinset ⊆ down

/-- The key starts a hold. -/
def Starts : Prop := seq.state = .idle ∧ (seq.setKey key).Matches

/-- The key ends a hold by too few keys. -/
def Leaves : Prop :=
  (seq.state = .inProgress ∨ seq.state = .ready) ∧
    (seq.setKey key).keyStates.card < seq.keysToScanCount

instance : Decidable (seq.Starts key) := inferInstanceAs (Decidable (_ ∧ _))

instance : Decidable (seq.Leaves key) := inferInstanceAs (Decidable (_ ∧ _))

end GenericLongPressSequence

/-- How many holds the key ends with none in progress behind and none started in front. -/
def unguarded (key : RawKey) : List GenericLongPressSequence → Nat
  | [] => 0
  | seq :: seqs =>
      if seq.Starts key then 0
      else if seq.Leaves key ∧ ∀ other ∈ seqs, other.state ≠ .inProgress then
        unguarded key seqs + 1
      else unguarded key seqs

namespace Session

def initial (seqs : List GenericLongPressSequence) : Session :=
  ⟨.ofSequences seqs, ∅, fun _ => false, fun _ => 0, fun _ => 0⟩

/-- What an input makes the manager do. -/
def effects (s : Session) : Input → List Effect
  | .key key => (s.mgr.process key).1
  | .expire i => (s.mgr.expire i).1

def seqAt (s : Session) (i : Nat) : Option GenericLongPressSequence :=
  s.mgr.sequenceCollection[i]?

/-- The timer of a sequence runs. -/
def runs (s : Session) (i : Nat) : Bool :=
  match s.seqAt i with
  | some seq => seq.timer
  | none => false

def holdsOn (s : Session) (key : RawKey) (down : KeyStates) (i : Nat) : Bool :=
  match s.seqAt i with
  | some seq => seq.holdsOn key down (s.held i)
  | none => false

def step (s : Session) (input : Input) : Session :=
  let acted i := s.acted i + (s.effects input).count (.action i)
  match input with
  | .key key =>
      let down := s.down.put (mapKey key) (key.state = .pressed)
      ⟨(s.mgr.process key).2, down, s.holdsOn key down, s.completed, acted⟩
  | .expire i =>
      { s with
        mgr := (s.mgr.expire i).2
        completed := fun j => if j = i ∧ s.runs i ∧ s.held i then s.completed j + 1
          else s.completed j
        acted }

/-- The state after an input, and what happened at it, are as they should be. A sequence that
names a key twice has no hold of its own. -/
structure Recognised (s : Session) (effects : List Effect) : Prop where
  nodup : s.mgr.lists.inProgressSequences.Nodup
  inProgress : ∀ i, i ∈ s.mgr.lists.inProgressSequences ↔
    ∃ seq, s.seqAt i = some seq ∧ seq.state = .inProgress
  ready : ∀ i seq, s.seqAt i = some seq → seq.state = .ready → s.held i = true
  back : .backOfEmpty ∉ effects
  acted : ∀ i, s.acted i ≤ s.completed i
  again : ∀ i seq, s.seqAt i = some seq → seq.keys.Nodup → s.down = seq.keys.toFinset →
    seq.state ≠ .abort →
    s.held i = true ∧ (seq.state = .inProgress ∧ seq.timer = true ∨ seq.state = .ready)

/-- A timer does not expire for a sequence that is idle, its keys released. -/
def Timely (s : Session) : Input → Prop
  | .key _ => True
  | .expire i => ∀ seq, s.seqAt i = some seq → seq.timer = true → seq.state ≠ .idle

/-- A timer does not expire for a sequence that is idle, its keys released. Where a key event
ends holds, it ends one that no other sequence in progress is behind, and none starts in front
of, only where a sequence waits to be acted on, and then but one. -/
def Clean (s : Session) : Input → Prop
  | .key key => unguarded key s.mgr.sequenceCollection ≤
      if s.mgr.lists.readySequences = [] then 0 else 1
  | .expire i => ∀ seq, s.seqAt i = some seq → seq.timer = true → seq.state ≠ .idle

end Session

/-! ## One sequence -/

namespace GenericLongPressSequence

variable {seq : GenericLongPressSequence} {key : RawKey} {down : KeyStates} {held : Bool}

theorem matches_iff : seq.Matches ↔ seq.keys.Nodup ∧ seq.keyStates = seq.keys.toFinset := by
  rw [Matches, KeyStates.ifOnlySet, keysToScanCount]
  constructor
  · intro ⟨hcard, hsub⟩
    have hle : seq.keys.toFinset.card ≤ seq.keyStates.card :=
      hcard ▸ List.toFinset_card_le seq.keys
    have heq := Finset.eq_of_subset_of_card_le hsub hle
    have hall : (seq.keys : Multiset KeyMap).toFinset.card =
        Multiset.card (seq.keys : Multiset KeyMap) := (congrArg Finset.card heq).symm.trans hcard
    exact ⟨Multiset.coe_nodup.1 (Multiset.toFinset_card_eq_card_iff_nodup.1 hall), heq⟩
  · intro ⟨hnodup, heq⟩
    rw [heq, List.toFinset_card_of_nodup hnodup]
    exact ⟨rfl, Finset.Subset.refl _⟩

/-- How a sequence stands to the keys that are down, and to its timer. -/
def Fits (down : KeyStates) (held : Bool) (seq : GenericLongPressSequence) : Prop :=
  seq.keyStates = down ∧
    match seq.state with
    | .idle => ¬ seq.Matches ∧ held = false
    | .inProgress => seq.Matches ∧ held = true ∧ seq.timer = true
    | .ready => seq.Matches ∧ held = true ∧ seq.timer = false
    | .abort => seq.timer = false ∧ down ≠ ∅

/-- Keys that leave the number of those that are down leave all of them. -/
theorem put_eq_of_card {states : KeyStates} {k : KeyMap} {value : Bool}
    (h : (states.put k value).card = states.card) : states.put k value = states := by
  rw [KeyStates.put] at h ⊢
  split
  · next hvalue =>
      rw [if_pos hvalue] at h
      refine Finset.insert_eq_self.2 (by_contra fun hk => ?_)
      rw [Finset.card_insert_of_notMem hk] at h
      omega
  · next hvalue =>
      rw [if_neg hvalue] at h
      refine Finset.erase_eq_self.2 fun hk => ?_
      have hlt := Finset.card_erase_lt_of_mem hk
      omega

/-- A sequence that changes its number of keys in a hold does not hold them any more. -/
theorem not_subset_of_card_lt {states : KeyStates} (hmatches : seq.Matches)
    (h : states.card < seq.keysToScanCount) : ¬ seq.keys.toFinset ⊆ states := by
  intro hsub
  have hle := Finset.card_le_card hsub
  rw [List.toFinset_card_of_nodup (matches_iff.1 hmatches).1] at hle
  rw [keysToScanCount] at h
  omega

theorem setKey_keyStates (h : Fits down held seq) :
    (seq.setKey key).keyStates = down.put (mapKey key) (key.state = .pressed) :=
  congrArg (fun states => KeyStates.put states (mapKey key) (key.state = .pressed)) h.1

/-- Where the number of keys does not change, nothing does. -/
theorem setKey_eq_self (h : (seq.setKey key).keyStates.card = seq.keyStates.card) :
    seq.setKey key = seq := by
  rw [setKey, put_eq_of_card h]

section Process

variable (h : Fits down held seq)

theorem process_of_starts (hstarts : seq.Starts key) :
    seq.process key = (seq.setKey key).switchToInProgress := by
  rw [process, advance, show (seq.setKey key).state = .idle from hstarts.1]
  exact if_pos hstarts.2

theorem process_of_leaves (hleaves : seq.Leaves key) :
    seq.process key = (seq.setKey key).switchToIdle := by
  obtain ⟨hstate, hless⟩ := hleaves
  change (seq.setKey key).keyStates.card < (seq.setKey key).keysToScanCount at hless
  have hmore := Nat.not_lt_of_lt hless
  rw [process, advance, show (seq.setKey key).state = seq.state from rfl]
  rcases hstate with hstate | hstate
  · rw [hstate]
    dsimp only
    rw [if_neg hmore, if_pos hless]
  · rw [hstate]
    dsimp only
    rw [if_neg hmore, if_pos hless]

/-- A hold ends by too few keys, by too many, or goes on unchanged. -/
theorem process_of_hold (hstate : seq.state = .inProgress ∨ seq.state = .ready)
    (hmatches : seq.Matches) :
    seq.Leaves key ∨
    seq.keysToScanCount < (seq.setKey key).keyStates.card ∧
      seq.process key = (seq.setKey key).switchToAbort ∨
    seq.setKey key = seq ∧ seq.process key = (none, seq) := by
  rcases Nat.lt_trichotomy (seq.setKey key).keyStates.card seq.keysToScanCount with
    hless | hsame | hmore
  · exact .inl ⟨hstate, hless⟩
  · have heq : seq.setKey key = seq := setKey_eq_self (hsame.trans hmatches.1.symm)
    refine .inr (.inr ⟨heq, ?_⟩)
    rw [process, heq, advance, hmatches.1]
    rcases hstate with hstate | hstate <;> rw [hstate] <;> simp
  · refine .inr (.inl ⟨hmore, ?_⟩)
    rw [process, advance, show (seq.setKey key).state = seq.state from rfl]
    rcases hstate with hstate | hstate <;> rw [hstate] <;> exact if_pos hmore

end Process

theorem holdsOn_eq_true (hkeys : seq.keys.toFinset ⊆ down)
    (hheld : (seq.process key).1 = some .triggered ∨ held = true) :
    seq.holdsOn key down held = true := by
  rw [holdsOn, Bool.and_eq_true, Bool.or_eq_true, decide_eq_true_iff, decide_eq_true_iff]
  exact ⟨hheld, hkeys⟩

theorem holdsOn_of_not_subset (hkeys : ¬ seq.keys.toFinset ⊆ down) :
    seq.holdsOn key down held = false := by
  rw [holdsOn, decide_eq_false hkeys, Bool.and_false]

theorem holdsOn_of_not_held {cb : Option Callback} (hcb : (seq.process key).1 = cb)
    (hne : cb ≠ some .triggered) : seq.holdsOn key down false = false := by
  rw [holdsOn, hcb, decide_eq_false hne, Bool.or_self, Bool.false_and]

/-- What a hold comes to fits too. -/
theorem fits_process_of_hold (hstate : seq.state = .inProgress ∨ seq.state = .ready)
    (hkeys : seq.keyStates = down) (hmatches : seq.Matches) (hheld : held = true)
    (h : Fits down held seq) :
    Fits (down.put (mapKey key) (key.state = .pressed))
      (seq.holdsOn key (down.put (mapKey key) (key.state = .pressed)) held)
      (seq.process key).2 := by
  have hset := @setKey_keyStates seq key down held h
  rcases @process_of_hold seq key hstate hmatches with hleaves | ⟨hmore, habort⟩ | ⟨hsame, hnone⟩
  · rw [process_of_leaves hleaves]
    refine ⟨hset, fun hagain => ?_, holdsOn_of_not_subset ?_⟩
    · exact absurd hagain.1 (Nat.ne_of_lt hleaves.2)
    · exact hset ▸ not_subset_of_card_lt hmatches hleaves.2
  · rw [habort]
    refine ⟨hset, rfl, fun hnone => ?_⟩
    rw [hset, hnone, Finset.card_empty] at hmore
    omega
  · have hdown : down.put (mapKey key) (key.state = .pressed) = down := by
      rw [← hset, hsame, hkeys]
    have hon : seq.holdsOn key down held = held := by
      rw [hheld]
      refine holdsOn_eq_true ?_ (.inr rfl)
      rw [← hkeys, (matches_iff.1 hmatches).2]
    rw [hdown, hon, hnone]
    exact h

theorem Fits.process (h : Fits down held seq) :
    Fits (down.put (mapKey key) (key.state = .pressed))
      (seq.holdsOn key (down.put (mapKey key) (key.state = .pressed)) held)
      (seq.process key).2 := by
  have hset := @setKey_keyStates seq key down held h
  obtain ⟨hkeys, hmatch⟩ := id h
  cases hstate : seq.state with
  | idle =>
      rw [hstate] at hmatch
      obtain ⟨-, rfl⟩ := hmatch
      by_cases hmatches : (seq.setKey key).Matches
      · have hstarts := @process_of_starts seq key ⟨hstate, hmatches⟩
        have hsub : seq.keys.toFinset ⊆ down.put (mapKey key) (key.state = .pressed) := by
          rw [← hset, (matches_iff.1 hmatches).2]
          exact Finset.Subset.refl _
        rw [holdsOn_eq_true hsub (.inl (by rw [hstarts]; rfl)), hstarts]
        exact ⟨hset, hmatches, rfl, rfl⟩
      · have hprocess : seq.process key = (none, seq.setKey key) := by
          rw [GenericLongPressSequence.process, advance,
            show (seq.setKey key).state = .idle from hstate]
          exact if_neg hmatches
        rw [holdsOn_of_not_held (congrArg Prod.fst hprocess) (by simp), hprocess]
        refine ⟨hset, ?_⟩
        rw [show (seq.setKey key).state = .idle from hstate]
        exact ⟨hmatches, rfl⟩
  | inProgress =>
      rw [hstate] at hmatch
      exact fits_process_of_hold (.inl hstate) hkeys hmatch.1 hmatch.2.1 h
  | ready =>
      rw [hstate] at hmatch
      exact fits_process_of_hold (.inr hstate) hkeys hmatch.1 hmatch.2.1 h
  | abort =>
      rw [hstate] at hmatch
      have hprocess : seq.process key = (none, if (seq.setKey key).keyStates.card = 0 then
          { seq.setKey key with state := .idle } else seq.setKey key) := by
        rw [GenericLongPressSequence.process, advance,
          show (seq.setKey key).state = .abort from hstate]
      rw [hprocess]
      dsimp only
      split
      · next hzero =>
          have hempty := hset ▸ Finset.card_eq_zero.1 hzero
          refine ⟨hset, fun hagain => ?_, holdsOn_of_not_subset fun hsub => ?_⟩
          · have hlen := hagain.1.symm.trans hzero
            exact seq.keys_ne (List.eq_nil_of_length_eq_zero hlen)
          · rw [hempty, Finset.subset_empty, List.toFinset_eq_empty_iff] at hsub
            exact seq.keys_ne hsub
      · next hsome =>
          refine ⟨hset, ?_⟩
          rw [show (seq.setKey key).state = .abort from hstate]
          refine ⟨hmatch.1, fun hempty => hsome ?_⟩
          rw [hset, hempty, Finset.card_empty]

/-- Everything that a key can do to a sequence, as the manager is told of it. -/
theorem process_cases (seq : GenericLongPressSequence) (key : RawKey) :
    seq.Starts key ∧ seq.process key = (seq.setKey key).switchToInProgress ∨
    seq.Leaves key ∧ seq.process key = (seq.setKey key).switchToIdle ∨
    (¬ seq.Starts key ∧ ¬ seq.Leaves key) ∧ (seq.state = .inProgress ∨ seq.state = .ready) ∧
      seq.process key = (seq.setKey key).switchToAbort ∨
    (¬ seq.Starts key ∧ ¬ seq.Leaves key) ∧ ∃ seq', seq.process key = (none, seq') ∧
      (seq'.state = .inProgress ↔ seq.state = .inProgress) := by
  have hstate : (seq.setKey key).state = seq.state := rfl
  by_cases hstarts : seq.Starts key
  · exact .inl ⟨hstarts, process_of_starts hstarts⟩
  · by_cases hleaves : seq.Leaves key
    · exact .inr (.inl ⟨hleaves, process_of_leaves hleaves⟩)
    · refine .inr (.inr (Or.imp (fun h => ⟨⟨hstarts, hleaves⟩, h⟩)
        (fun h => ⟨⟨hstarts, hleaves⟩, h⟩) ?_))
      rw [process, advance, hstate]
      cases hseq : seq.state with
      | idle =>
          dsimp only
          rw [if_neg fun hmatches => hstarts ⟨hseq, hmatches⟩]
          exact .inr ⟨_, rfl, by rw [hstate, hseq]⟩
      | inProgress =>
          have hfull : ¬ (seq.setKey key).keyStates.card < (seq.setKey key).keysToScanCount :=
            fun hless => hleaves ⟨.inl hseq, hless⟩
          dsimp only
          rw [if_neg hfull]
          split
          · exact .inl ⟨.inl rfl, rfl⟩
          · exact .inr ⟨_, rfl, by rw [hstate, hseq]⟩
      | ready =>
          have hfull : ¬ (seq.setKey key).keyStates.card < (seq.setKey key).keysToScanCount :=
            fun hless => hleaves ⟨.inr hseq, hless⟩
          dsimp only
          rw [if_neg hfull]
          split
          · exact .inl ⟨.inr rfl, rfl⟩
          · exact .inr ⟨_, rfl, by rw [hstate, hseq]⟩
      | abort =>
          refine .inr ⟨_, rfl, iff_of_false ?_ (by simp)⟩
          split
          · simp
          · rw [hstate, hseq]
            simp

end GenericLongPressSequence

/-! ## The lists of the manager -/

namespace Lists

variable {l : Lists} {i p : Nat}

theorem actionIfPossible_inProgress :
    l.actionIfPossible.2.inProgressSequences = l.inProgressSequences := by
  rw [actionIfPossible]
  split
  · split <;> rfl
  · rfl

theorem filter_ne_of_not_mem {xs : List Nat} (h : i ∉ xs) : xs.filter (· ≠ i) = xs := by
  refine List.filter_eq_self.2 fun p hp => ?_
  rw [decide_eq_true_iff]
  exact fun heq => h (heq ▸ hp)

theorem removeFromInProgressList_eq : l.removeFromInProgressList i =
    { l with inProgressSequences := l.inProgressSequences.filter (· ≠ i) } := by
  rw [removeFromInProgressList]
  split
  · rfl
  · next hi => rw [filter_ne_of_not_mem hi]

theorem moveToReadyList_inProgress : (l.moveToReadyList i).inProgressSequences =
    l.inProgressSequences.filter (· ≠ i) := by
  rw [moveToReadyList]
  split
  · rfl
  · next hi => exact (filter_ne_of_not_mem hi).symm

theorem removeFromReadyList_inProgress :
    (l.removeFromReadyList i).inProgressSequences = l.inProgressSequences := by
  rw [removeFromReadyList]
  split <;> rfl

/-- Whatever a sequence tells, unless it has started or tells nothing, it is in progress no
more. -/
theorem invoke_inProgress_of_ends {callback : Callback} (h : callback ≠ .triggered) :
    (l.invoke i (some callback)).2.inProgressSequences = l.inProgressSequences.filter (· ≠ i) := by
  cases callback with
  | triggered => exact absurd rfl h
  | ready => exact actionIfPossible_inProgress.trans moveToReadyList_inProgress
  | idle =>
      refine actionIfPossible_inProgress.trans ?_
      rw [removeFromInProgressList_eq]
  | abort =>
      refine removeFromReadyList_inProgress.trans ?_
      rw [removeFromInProgressList_eq]

/-- An action is taken from those that are ready. -/
theorem count_actionIfPossible :
    l.actionIfPossible.2.readySequences.count p + l.actionIfPossible.1.count (.action p) ≤
      l.readySequences.count p := by
  rw [actionIfPossible]
  split
  · cases hlast : l.readySequences.getLast? with
    | none => simp
    | some s =>
        have hmem := List.mem_of_getLast? hlast
        by_cases hs : s = p
        · subst hs
          have hpos := List.count_pos_iff.2 hmem
          simp
          omega
        · simp [hs]
  · simp

theorem count_invoke {callback : Option Callback} (h : callback ≠ some .ready) :
    (l.invoke i callback).2.readySequences.count p +
      (l.invoke i callback).1.count (.action p) ≤ l.readySequences.count p := by
  cases callback with
  | none => simp [invoke]
  | some callback =>
      cases callback with
      | triggered => simp [invoke, addToInProgressList]
      | ready => exact absurd rfl h
      | idle =>
          rw [invoke, removeFromInProgressList_eq]
          exact count_actionIfPossible
      | abort =>
          rw [invoke, removeFromInProgressList_eq, removeFromReadyList]
          split
          · exact List.Sublist.count_le _ List.filter_sublist
          · exact Nat.le_refl _

/-! ## The loop over the sequences -/

open GenericLongPressSequence

variable {key : RawKey} {seq : GenericLongPressSequence} {seqs : List GenericLongPressSequence}
  {P : Nat → Prop}

/-- A sequence in progress, of those from the place `i` on. -/
def InProgressAt (i : Nat) (seqs : List GenericLongPressSequence) (p : Nat) : Prop :=
  ∃ j seq, p = i + j ∧ seqs[j]? = some seq ∧ seq.state = .inProgress

theorem inProgressAt_cons : InProgressAt i (seq :: seqs) p ↔
    p = i ∧ seq.state = .inProgress ∨ InProgressAt (i + 1) seqs p := by
  constructor
  · intro ⟨j, other, hp, hother, hstate⟩
    cases j with
    | zero =>
        obtain rfl := Option.some.inj hother
        exact .inl ⟨hp, hstate⟩
    | succ j => exact .inr ⟨j, other, by omega, hother, hstate⟩
  · intro h
    rcases h with ⟨hp, hstate⟩ | ⟨j, other, hp, hother, hstate⟩
    · exact ⟨0, seq, hp, rfl, hstate⟩
    · exact ⟨j + 1, other, by omega, hother, hstate⟩

theorem le_of_inProgressAt (h : InProgressAt i seqs p) : i ≤ p := by
  obtain ⟨j, _, hp, -⟩ := h
  omega

theorem exists_inProgressAt :
    (∃ p, InProgressAt i seqs p) ↔ ∃ seq ∈ seqs, seq.state = .inProgress := by
  constructor
  · intro ⟨p, j, seq, _, hseq, hstate⟩
    exact ⟨seq, List.mem_of_getElem? hseq, hstate⟩
  · intro ⟨seq, hmem, hstate⟩
    obtain ⟨j, hj⟩ := List.getElem?_of_mem hmem
    exact ⟨i + j, j, seq, rfl, hj, hstate⟩

/-- In the list are those in progress from the place `i` on, and those in front that `P`
says. -/
structure Listed (P : Nat → Prop) (i : Nat) (seqs : List GenericLongPressSequence)
    (l : Lists) : Prop where
  front : ∀ p, P p → p < i
  nodup : l.inProgressSequences.Nodup
  mem_iff : ∀ p, p ∈ l.inProgressSequences ↔ P p ∨ InProgressAt i seqs p

/-- What a sequence tells brings the list up to date. -/
theorem Listed.invoke (h : Listed P i (seq :: seqs) l) :
    Listed (fun p => P p ∨ p = i ∧ (seq.process key).2.state = .inProgress) (i + 1) seqs
      (l.invoke i (seq.process key).1).2 := by
  have hi : i ∈ l.inProgressSequences ↔ seq.state = .inProgress := by
    rw [h.mem_iff, inProgressAt_cons]
    refine ⟨fun hin => ?_, fun hstate => .inr (.inl ⟨rfl, hstate⟩)⟩
    rcases hin with hin | ⟨-, hstate⟩ | hin
    · exact absurd (h.front i hin) (Nat.lt_irrefl i)
    · exact hstate
    · exact absurd (le_of_inProgressAt hin) (by omega)
  have hrest : ∀ p, p ≠ i →
      (p ∈ l.inProgressSequences ↔ P p ∨ InProgressAt (i + 1) seqs p) := fun p hp => by
    rw [h.mem_iff, inProgressAt_cons]
    simp only [hp, false_and, false_or]
  have hback : ¬ InProgressAt (i + 1) seqs i := fun hin =>
    absurd (le_of_inProgressAt hin) (by omega)
  have hfront : ¬ P i := fun hin => absurd (h.front i hin) (Nat.lt_irrefl i)
  have hupdate : (l.invoke i (seq.process key).1).2.inProgressSequences.Nodup ∧ ∀ p,
      p ∈ (l.invoke i (seq.process key).1).2.inProgressSequences ↔
        p = i ∧ (seq.process key).2.state = .inProgress ∨ p ≠ i ∧ p ∈ l.inProgressSequences := by
    rcases process_cases seq key with ⟨hstarts, hprocess⟩ | ⟨-, hprocess⟩ | ⟨-, -, hprocess⟩ |
      ⟨-, seq', hprocess, hstate⟩
    · rw [hprocess]
      have hnot : i ∉ l.inProgressSequences := fun hin => by
        rw [hi, hstarts.1] at hin
        exact absurd hin (by simp)
      refine ⟨?_, fun p => ?_⟩
      · show (l.inProgressSequences ++ [i]).Nodup
        rw [← List.concat_eq_append]
        exact h.nodup.concat hnot
      · show p ∈ l.inProgressSequences ++ [i] ↔ _
        rw [List.mem_append, List.mem_singleton]
        by_cases hp : p = i
        · exact iff_of_true (.inr hp) (.inl ⟨hp, rfl⟩)
        · simp [hp]
    · rw [hprocess, switchToIdle, invoke_inProgress_of_ends (by simp)]
      refine ⟨h.nodup.filter _, fun p => ?_⟩
      rw [List.mem_filter, decide_eq_true_iff, or_iff_right (by simp), and_comm]
    · rw [hprocess, switchToAbort, invoke_inProgress_of_ends (by simp)]
      refine ⟨h.nodup.filter _, fun p => ?_⟩
      rw [List.mem_filter, decide_eq_true_iff, or_iff_right (by simp), and_comm]
    · rw [hprocess]
      refine ⟨h.nodup, fun p => ?_⟩
      show p ∈ l.inProgressSequences ↔ p = i ∧ seq'.state = .inProgress ∨ _
      rw [hstate, ← hi]
      by_cases hp : p = i
      · simp [hp]
      · simp [hp]
  refine ⟨fun p hp => ?_, hupdate.1, fun p => ?_⟩
  · rcases hp with hp | ⟨hp, -⟩
    · exact Nat.lt_succ_of_lt (h.front p hp)
    · omega
  · rw [hupdate.2]
    by_cases hp : p = i
    · subst hp
      simp [hfront, hback]
    · rw [and_iff_right hp, hrest p hp]
      simp [hp]

theorem processFrom_cons : processFrom key i (seq :: seqs) l =
    ((l.invoke i (seq.process key).1).1 ++
        (processFrom key (i + 1) seqs (l.invoke i (seq.process key).1).2).1,
      (seq.process key).2 ::
        (processFrom key (i + 1) seqs (l.invoke i (seq.process key).1).2).2.1,
      (processFrom key (i + 1) seqs (l.invoke i (seq.process key).1).2).2.2) :=
  rfl

theorem processFrom_seqs :
    (processFrom key i seqs l).2.1 = seqs.map fun seq => (seq.process key).2 := by
  induction seqs generalizing i l with
  | nil => rfl
  | cons seq seqs ih => rw [processFrom_cons, ih, List.map_cons]

theorem Listed.processFrom (h : Listed P i seqs l) :
    (processFrom key i seqs l).2.2.inProgressSequences.Nodup ∧
      ∀ p, p ∈ (processFrom key i seqs l).2.2.inProgressSequences ↔
        P p ∨ InProgressAt i (processFrom key i seqs l).2.1 p := by
  induction seqs generalizing i l P with
  | nil => exact ⟨h.nodup, h.mem_iff⟩
  | cons seq seqs ih =>
      obtain ⟨hnodup, hmem⟩ := ih h.invoke
      rw [processFrom_cons]
      refine ⟨hnodup, fun p => (hmem p).trans ?_⟩
      rw [inProgressAt_cons, or_assoc]

theorem process_ne_ready : (seq.process key).1 ≠ some .ready := by
  rcases process_cases seq key with ⟨-, hprocess⟩ | ⟨-, hprocess⟩ | ⟨-, -, hprocess⟩ |
    ⟨-, seq', hprocess, -⟩ <;> rw [hprocess] <;> simp [switchToInProgress, switchToIdle,
      switchToAbort]

theorem count_processFrom :
    (processFrom key i seqs l).2.2.readySequences.count p +
      (processFrom key i seqs l).1.count (.action p) ≤ l.readySequences.count p := by
  induction seqs generalizing i l with
  | nil => exact Nat.le_refl _
  | cons seq seqs ih =>
      have hone := @count_invoke l i p _ (@process_ne_ready key seq)
      have hrest := @ih (l.invoke i (seq.process key).1).2 (i + 1)
      rw [processFrom_cons]
      dsimp only
      rw [List.count_append]
      omega

/-! ## Looking at the last one that is ready -/

/-- Only the end of a hold looks at the list. -/
theorem back_invoke_of_not_leaves (h : ¬ seq.Leaves key) :
    (l.invoke i (seq.process key).1).1 = [] := by
  rcases process_cases seq key with ⟨-, hprocess⟩ | ⟨hleaves, -⟩ | ⟨-, -, hprocess⟩ |
    ⟨-, seq', hprocess, -⟩
  · rw [hprocess]; rfl
  · exact absurd hleaves h
  · rw [hprocess]; rfl
  · rw [hprocess]; rfl

theorem back_processFrom_of_none (h : ∀ seq ∈ seqs, ¬ seq.Leaves key) :
    (processFrom key i seqs l).1 = [] ∧ unguarded key seqs = 0 := by
  induction seqs generalizing i l with
  | nil => exact ⟨rfl, rfl⟩
  | cons seq seqs ih =>
      obtain ⟨hrest, hnone⟩ := @ih (l.invoke i (seq.process key).1).2 (i + 1)
        fun other hmem => h other (List.mem_cons_of_mem _ hmem)
      have hseq := h seq List.mem_cons_self
      rw [processFrom_cons, unguarded]
      dsimp only
      rw [hrest, hnone, back_invoke_of_not_leaves hseq,
        if_neg fun hboth : seq.Leaves key ∧ _ => hseq hboth.1, ite_self]
      exact ⟨rfl, rfl⟩

/-- What the end of a hold does when nothing is in progress any more, and when something is. -/
theorem invoke_of_leaves (hleaves : seq.Leaves key) :
    l.invoke i (seq.process key).1 = (l.removeFromInProgressList i).actionIfPossible := by
  rw [process_of_leaves hleaves]
  rfl

theorem actionIfPossible_of_some (h : l.inProgressSequences ≠ []) :
    l.actionIfPossible = ([], l) := if_neg h

/-- With nothing in progress the list is looked at, and is empty then. -/
theorem back_of_none {n : Nat} (h : l.inProgressSequences = []) :
    (.backOfEmpty ∉ l.actionIfPossible.1 ∧
      n ≤ if l.actionIfPossible.2.readySequences = [] then 0 else 1) ↔
    n + 1 ≤ if l.readySequences = [] then 0 else 1 := by
  rw [actionIfPossible, if_pos h]
  by_cases hready : l.readySequences = []
  · rw [hready]
    exact iff_of_false (fun hboth => hboth.1 List.mem_cons_self) (by simp)
  · obtain ⟨s, hs⟩ := Option.ne_none_iff_exists'.1 (mt List.getLast?_eq_none_iff.1 hready)
    rw [hs, if_neg hready]
    simp

/-- Nothing is in progress any more once one more is idle: none that started, none behind. -/
theorem Listed.filter_eq_nil (h : Listed P i (seq :: seqs) l) :
    l.inProgressSequences.filter (· ≠ i) = [] ↔
      (¬ ∃ p, P p) ∧ ∀ other ∈ seqs, other.state ≠ .inProgress := by
  have hbehind : (∀ other ∈ seqs, other.state ≠ .inProgress) ↔
      ¬ ∃ p, InProgressAt (i + 1) seqs p := by
    rw [exists_inProgressAt]
    exact ⟨fun hall ⟨other, hmem, hstate⟩ => hall other hmem hstate,
      fun hnone other hmem hstate => hnone ⟨other, hmem, hstate⟩⟩
  rw [hbehind, List.filter_eq_nil_iff, ← not_or, ← exists_or]
  constructor
  · intro hall ⟨p, hp⟩
    have hne : p ≠ i := by
      rcases hp with hp | hp
      · exact Nat.ne_of_lt (h.front p hp)
      · exact Nat.ne_of_gt (le_of_inProgressAt hp)
    refine hall p ((h.mem_iff p).2 (hp.imp_right fun hin => ?_)) (decide_eq_true hne)
    exact inProgressAt_cons.2 (.inr hin)
  · intro hnone p hp hne
    rw [h.mem_iff, inProgressAt_cons] at hp
    refine hnone ⟨p, hp.imp_right fun hin => hin.resolve_left fun heq => ?_⟩
    exact of_decide_eq_true hne heq.1

/-- Where the key ends every hold, the list is looked at once for each that is unguarded,
unless one has started in front. -/
theorem back_processFrom_of_leaves (h : Listed P i seqs l)
    (hends : ∀ seq ∈ seqs, seq.state = .inProgress ∨ seq.state = .ready → seq.Leaves key) :
    .backOfEmpty ∉ (processFrom key i seqs l).1 ↔
      (∃ p, P p) ∨ unguarded key seqs ≤ if l.readySequences = [] then 0 else 1 := by
  induction seqs generalizing i l P with
  | nil => exact iff_of_true List.not_mem_nil (.inr (Nat.zero_le _))
  | cons seq seqs ih =>
      have hnext := ih (@Listed.invoke l i key seq seqs P h) fun other hmem =>
        hends other (List.mem_cons_of_mem _ hmem)
      rw [processFrom_cons]
      dsimp only
      rw [List.mem_append, not_or, hnext, unguarded]
      rcases process_cases seq key with ⟨hstarts, hprocess⟩ | ⟨hleaves, hprocess⟩ |
        ⟨⟨-, hleaves⟩, hstate, -⟩ | ⟨⟨hstarts, hleaves⟩, seq', hprocess, hstate⟩
      · rw [if_pos hstarts, hprocess]
        exact iff_of_true ⟨List.not_mem_nil, .inl ⟨i, .inr ⟨rfl, rfl⟩⟩⟩ (.inr (Nat.zero_le _))
      · have hnot : ¬ seq.Starts key := fun hstarts => by
          rcases hleaves.1 with hstate | hstate <;>
            exact absurd (hstate.symm.trans hstarts.1) (by simp)
        have hidle : ∀ p, ¬ (p = i ∧ (seq.process key).2.state = .inProgress) := fun p hp => by
          rw [hprocess] at hp
          exact absurd hp.2 (by simp [switchToIdle])
        simp only [hidle, or_false]
        rw [if_neg hnot, invoke_of_leaves hleaves, removeFromInProgressList_eq]
        by_cases hnone : l.inProgressSequences.filter (· ≠ i) = []
        · obtain ⟨hfront, hbehind⟩ := h.filter_eq_nil.1 hnone
          rw [or_iff_right hfront, or_iff_right hfront]
          refine (back_of_none hnone).trans ?_
          rw [if_pos (⟨hleaves, hbehind⟩ : seq.Leaves key ∧ _)]
        · rw [actionIfPossible_of_some hnone, and_iff_right List.not_mem_nil]
          by_cases hfront : ∃ p, P p
          · exact iff_of_true (.inl hfront) (.inl hfront)
          · rw [if_neg fun hboth : _ ∧ _ => hnone (h.filter_eq_nil.2 ⟨hfront, hboth.2⟩)]
      · exact absurd (hends seq List.mem_cons_self hstate) hleaves
      · have hout : seq.state ≠ .inProgress := fun hin =>
          hleaves (hends seq List.mem_cons_self (.inl hin))
        rw [if_neg hstarts, if_neg fun hboth : seq.Leaves key ∧ _ => hleaves hboth.1, hprocess]
        simp only [hstate, hout, and_false, or_false]
        exact and_iff_right List.not_mem_nil

end Lists

/-! ## Runs -/

namespace Session

open GenericLongPressSequence Evtmgr.Lists

variable {s : Session} {key : RawKey} {i : Nat}

structure Inv (s : Session) : Prop where
  fits : ∀ i seq, s.seqAt i = some seq → Fits s.down (s.held i) seq
  listed : Listed (fun _ => False) 0 s.mgr.sequenceCollection s.mgr.lists
  counted : ∀ i, s.mgr.lists.readySequences.count i + s.acted i ≤ s.completed i

theorem inProgressAt_zero {seqs : List GenericLongPressSequence} {p : Nat} :
    InProgressAt 0 seqs p ↔ ∃ seq, seqs[p]? = some seq ∧ seq.state = .inProgress := by
  constructor
  · intro ⟨j, seq, hp, hseq⟩
    rw [Nat.zero_add] at hp
    exact ⟨seq, hp ▸ hseq⟩
  · intro ⟨seq, hseq⟩
    exact ⟨p, seq, (Nat.zero_add p).symm, hseq⟩

theorem inv_initial {seqs : List GenericLongPressSequence}
    (h : ∀ seq ∈ seqs, ∃ keys keys_ne, seq = ofKeys keys keys_ne) : Inv (initial seqs) := by
  refine ⟨fun i seq hseq => ?_, ⟨fun _ hp => hp.elim, List.nodup_nil, fun p => ?_⟩, fun i => ?_⟩
  · obtain ⟨keys, keys_ne, rfl⟩ := h seq (List.mem_of_getElem? hseq)
    refine ⟨rfl, fun hmatches => ?_, rfl⟩
    exact keys_ne (List.eq_nil_of_length_eq_zero hmatches.1.symm)
  · refine iff_of_false List.not_mem_nil fun hin => ?_
    rcases hin with hin | hin
    · exact hin
    · obtain ⟨seq, hseq, hstate⟩ := inProgressAt_zero.1 hin
      obtain ⟨keys, keys_ne, rfl⟩ := h seq (List.mem_of_getElem? hseq)
      exact absurd hstate (by simp [ofKeys])
  · exact Nat.le_refl _

/-- The invariant is all of what is asked for, but for the look at an empty list. -/
theorem recognised_of_inv {effects : List Effect} (h : Inv s) (hback : .backOfEmpty ∉ effects) :
    Recognised s effects := by
  refine ⟨h.listed.nodup, fun i => ?_, fun i seq hseq hready => ?_, hback, fun i => ?_,
    fun i seq hseq hnodup hdown habort => ?_⟩
  · rw [h.listed.mem_iff, false_or]
    exact inProgressAt_zero
  · have hfits := (h.fits i seq hseq).2
    rw [hready] at hfits
    exact hfits.2.1
  · have hcount := h.counted i
    omega
  · obtain ⟨hkeys, hfits⟩ := h.fits i seq hseq
    cases hstate : seq.state with
    | idle =>
        rw [hstate] at hfits
        exact absurd (matches_iff.2 ⟨hnodup, hkeys.trans hdown⟩) hfits.1
    | inProgress =>
        rw [hstate] at hfits
        exact ⟨hfits.2.1, .inl ⟨rfl, hfits.2.2⟩⟩
    | ready =>
        rw [hstate] at hfits
        exact ⟨hfits.2.1, .inr rfl⟩
    | abort => exact absurd hstate habort

/-! ### A key -/

theorem seqAt_key {seq' : GenericLongPressSequence}
    (h : (step s (.key key)).seqAt i = some seq') :
    ∃ seq, s.seqAt i = some seq ∧ (seq.process key).2 = seq' := by
  change (processFrom key 0 s.mgr.sequenceCollection s.mgr.lists).2.1[i]? = some seq' at h
  rw [processFrom_seqs, List.getElem?_map, Option.map_eq_some_iff] at h
  exact h

theorem inv_key (h : Inv s) : Inv (step s (.key key)) := by
  refine ⟨fun i seq' hseq' => ?_, ?_, fun i => ?_⟩
  · obtain ⟨seq, hseq, rfl⟩ := seqAt_key hseq'
    have hheld : (step s (.key key)).held i =
        seq.holdsOn key (s.down.put (mapKey key) (key.state = .pressed)) (s.held i) := by
      show s.holdsOn key _ i = _
      rw [holdsOn, hseq]
    rw [hheld]
    exact (h.fits i seq hseq).process
  · obtain ⟨hnodup, hmem⟩ := @Listed.processFrom _ _ key _ _ h.listed
    exact ⟨fun _ hp => hp.elim, hnodup, hmem⟩
  · have hcount := @count_processFrom s.mgr.lists 0 i key s.mgr.sequenceCollection
    have hbefore := h.counted i
    show (processFrom key 0 s.mgr.sequenceCollection s.mgr.lists).2.2.readySequences.count i +
      (s.acted i + (processFrom key 0 s.mgr.sequenceCollection s.mgr.lists).1.count (.action i)) ≤
        s.completed i
    omega

/-- A key that lowers the number of those down ends every hold, and any other ends none so. -/
theorem back_key_iff (h : Inv s) :
    .backOfEmpty ∉ s.effects (.key key) ↔ s.Clean (.key key) := by
  have hfits : ∀ seq ∈ s.mgr.sequenceCollection, ∃ held, Fits s.down held seq := fun seq hmem => by
    obtain ⟨i, hi⟩ := List.getElem?_of_mem hmem
    exact ⟨_, h.fits i seq hi⟩
  have hcard : ∀ seq ∈ s.mgr.sequenceCollection,
      seq.state = .inProgress ∨ seq.state = .ready →
      seq.keysToScanCount = s.down.card ∧ (seq.setKey key).keyStates =
        s.down.put (mapKey key) (key.state = .pressed) := fun seq hmem hstate => by
    obtain ⟨held, hfit⟩ := hfits seq hmem
    refine ⟨?_, setKey_keyStates hfit⟩
    obtain ⟨hkeys, hmatch⟩ := hfit
    rcases hstate with hstate | hstate
    · rw [hstate] at hmatch
      rw [← hkeys, hmatch.1.1]
    · rw [hstate] at hmatch
      rw [← hkeys, hmatch.1.1]
  by_cases hless : (s.down.put (mapKey key) (key.state = .pressed)).card < s.down.card
  · have hiff := back_processFrom_of_leaves h.listed fun seq hmem hstate => by
      obtain ⟨hcount, hset⟩ := hcard seq hmem hstate
      exact ⟨hstate, by rw [hset, hcount]; exact hless⟩
    refine hiff.trans ?_
    rw [or_iff_right (by simp)]
    exact Iff.rfl
  · obtain ⟨hnone, hzero⟩ := @back_processFrom_of_none s.mgr.lists 0 key s.mgr.sequenceCollection
      fun seq hmem hleaves => by
        obtain ⟨hcount, hset⟩ := hcard seq hmem hleaves.1
        have hfew := hleaves.2
        rw [hset, hcount] at hfew
        exact hless hfew
    refine iff_of_true ?_ ?_
    · show .backOfEmpty ∉ (processFrom key 0 s.mgr.sequenceCollection s.mgr.lists).1
      rw [hnone]
      exact List.not_mem_nil
    · rw [Clean, hzero]
      exact Nat.zero_le _

/-! ### A timer -/

theorem expire_of_not_runs (h : s.runs i = false) : s.mgr.expire i = ([], s.mgr) := by
  rw [KeySequenceMgr.expire]
  rw [runs, seqAt] at h
  cases hseq : s.mgr.sequenceCollection[i]? with
  | none => rfl
  | some seq =>
      rw [hseq] at h
      dsimp only at h ⊢
      rw [h]
      rfl

theorem expire_of_runs {seq : GenericLongPressSequence} (hseq : s.seqAt i = some seq)
    (htimer : seq.timer = true) : s.mgr.expire i =
      (((s.mgr.lists.moveToReadyList i).actionIfPossible).1,
        ⟨s.mgr.sequenceCollection.set i seq.handleTimer.2,
          ((s.mgr.lists.moveToReadyList i).actionIfPossible).2⟩) := by
  rw [seqAt] at hseq
  rw [KeySequenceMgr.expire, hseq]
  dsimp only
  rw [if_pos htimer]
  rfl

/-- A timer that does not run changes nothing. -/
theorem step_expire_of_not_runs (h : s.runs i = false) :
    step s (.expire i) = s ∧ s.effects (.expire i) = [] := by
  have heffects : s.effects (.expire i) = [] := by rw [effects, expire_of_not_runs h]
  refine ⟨?_, heffects⟩
  rw [step, heffects, expire_of_not_runs h, h]
  simp

theorem seqAt_expire {seq : GenericLongPressSequence} {j : Nat} (hseq : s.seqAt i = some seq)
    (htimer : seq.timer = true) : (step s (.expire i)).seqAt j =
      if j = i then some seq.handleTimer.2 else s.seqAt j := by
  show (s.mgr.expire i).2.sequenceCollection[j]? = _
  rw [expire_of_runs hseq htimer]
  show (s.mgr.sequenceCollection.set i seq.handleTimer.2)[j]? = _
  rw [List.getElem?_set]
  by_cases hj : i = j
  · have hlt := (List.getElem?_eq_some_iff.1 hseq).1
    rw [if_pos hj, if_pos hlt, if_pos hj.symm]
  · rw [if_neg hj, if_neg (Ne.symm hj)]
    rfl

/-- A sequence in progress is the last one that is ready when its timer expires. -/
theorem back_expire {l : Lists} (h : i ∈ l.inProgressSequences) :
    .backOfEmpty ∉ (l.moveToReadyList i).actionIfPossible.1 := by
  rw [moveToReadyList, if_pos h, actionIfPossible]
  dsimp only
  rw [List.getLast?_concat]
  split <;> simp

theorem count_expire {l : Lists} {p : Nat} (h : i ∈ l.inProgressSequences) :
    (l.moveToReadyList i).actionIfPossible.2.readySequences.count p +
      (l.moveToReadyList i).actionIfPossible.1.count (.action p) ≤
    l.readySequences.count p + if p = i then 1 else 0 := by
  refine count_actionIfPossible.trans ?_
  rw [moveToReadyList, if_pos h]
  dsimp only
  rw [List.count_append, List.count_singleton]
  by_cases hp : p = i
  · rw [hp]
    simp
  · simp [hp, Ne.symm hp]

theorem inv_expire {seq : GenericLongPressSequence} (h : Inv s) (hseq : s.seqAt i = some seq)
    (htimer : seq.timer = true) (hstate : seq.state = .inProgress) :
    Inv (step s (.expire i)) := by
  have hfits := (h.fits i seq hseq).2
  rw [hstate] at hfits
  have hin : i ∈ s.mgr.lists.inProgressSequences := by
    rw [h.listed.mem_iff, false_or]
    exact inProgressAt_zero.2 ⟨seq, hseq, hstate⟩
  have hlist : (step s (.expire i)).mgr.lists.inProgressSequences =
      s.mgr.lists.inProgressSequences.filter (· ≠ i) := by
    show (s.mgr.expire i).2.lists.inProgressSequences = _
    rw [expire_of_runs hseq htimer]
    exact actionIfPossible_inProgress.trans moveToReadyList_inProgress
  refine ⟨fun j seq' hseq' => ?_, ⟨fun _ hp => hp.elim, ?_, fun j => ?_⟩, fun j => ?_⟩
  · rw [seqAt_expire hseq htimer] at hseq'
    split at hseq'
    · next hj =>
        obtain rfl := Option.some.inj hseq'
        subst hj
        exact ⟨(h.fits j seq hseq).1, hfits.1, hfits.2.1, rfl⟩
    · exact h.fits j seq' hseq'
  · rw [hlist]
    exact h.listed.nodup.filter _
  · rw [hlist, List.mem_filter, decide_eq_true_iff, h.listed.mem_iff, false_or, false_or,
      inProgressAt_zero, inProgressAt_zero]
    show (∃ other, s.seqAt j = some other ∧ _) ∧ j ≠ i ↔
      ∃ other, (step s (.expire i)).seqAt j = some other ∧ _
    rw [seqAt_expire hseq htimer]
    by_cases hj : j = i
    · rw [if_pos hj]
      refine iff_of_false (fun hboth => hboth.2 hj) fun ⟨other, hother, hprogress⟩ => ?_
      obtain rfl := Option.some.inj hother
      exact absurd hprogress (by simp [handleTimer])
    · rw [if_neg hj, and_iff_left hj]
  · have hcount := @count_expire i s.mgr.lists j hin
    have hbefore := h.counted j
    have hruns : s.runs i = true := by rw [runs, hseq]; exact htimer
    show (s.mgr.expire i).2.lists.readySequences.count j +
      (s.acted j + (s.mgr.expire i).1.count (.action j)) ≤
        if j = i ∧ s.runs i ∧ s.held i then s.completed j + 1 else s.completed j
    rw [expire_of_runs hseq htimer, hruns, hfits.2.1]
    dsimp only
    by_cases hj : j = i
    · rw [if_pos ⟨hj, rfl, rfl⟩]
      rw [if_pos hj] at hcount
      omega
    · rw [if_neg fun hboth => hj hboth.1]
      rw [if_neg hj] at hcount
      omega

/-- A timer that runs is that of a sequence in progress, or of one that was released. -/
theorem expire_cases (h : Inv s) (i : Nat) : s.runs i = false ∨
    ∃ seq, s.seqAt i = some seq ∧ seq.timer = true ∧
      (seq.state = .inProgress ∨ seq.state = .idle ∧ s.held i = false) := by
  cases hruns : s.runs i with
  | false => exact .inl rfl
  | true =>
      rw [runs] at hruns
      cases hseq : s.seqAt i with
      | none => rw [hseq] at hruns; exact absurd hruns (by simp)
      | some seq =>
          rw [hseq] at hruns
          refine .inr ⟨seq, rfl, hruns, ?_⟩
          have hfits := (h.fits i seq hseq).2
          cases hstate : seq.state with
          | inProgress => exact .inl rfl
          | idle =>
              rw [hstate] at hfits
              exact .inr ⟨rfl, hfits.2⟩
          | ready =>
              rw [hstate] at hfits
              exact absurd (hruns.symm.trans hfits.2.2) (by simp)
          | abort =>
              rw [hstate] at hfits
              exact absurd (hruns.symm.trans hfits.1) (by simp)

/-! ### Every input -/

theorem recognised_iff_clean {input : Input} (h : Inv s) :
    Recognised (step s input) (s.effects input) ↔ s.Clean input := by
  cases input with
  | key key =>
      rw [← back_key_iff h]
      exact ⟨fun hrec => hrec.back, recognised_of_inv (inv_key h)⟩
  | expire i =>
      rcases expire_cases h i with hruns | ⟨seq, hseq, htimer, hstate | ⟨hstate, hheld⟩⟩
      · obtain ⟨hstep, heffects⟩ := step_expire_of_not_runs hruns
        rw [hstep, heffects]
        refine iff_of_true (recognised_of_inv h List.not_mem_nil) fun seq hseq htimer => ?_
        rw [runs, hseq] at hruns
        exact absurd (htimer.symm.trans hruns) (by simp)
      · refine iff_of_true (recognised_of_inv (inv_expire h hseq htimer hstate) ?_)
          fun other hother _ => ?_
        · rw [effects, expire_of_runs hseq htimer]
          refine back_expire ?_
          rw [h.listed.mem_iff, false_or]
          exact inProgressAt_zero.2 ⟨seq, hseq, hstate⟩
        · obtain rfl := Option.some.inj (hseq.symm.trans hother)
          rw [hstate]
          simp
      · have hafter := @seqAt_expire s i seq i hseq htimer
        rw [if_pos rfl] at hafter
        refine iff_of_false (fun hrec => ?_) fun hclean => hclean seq hseq htimer hstate
        have htrue : s.held i = true := hrec.ready i _ hafter rfl
        exact absurd (htrue.symm.trans hheld) (by simp)

theorem inv_step {input : Input} (h : Inv s) (htimely : s.Timely input) :
    Inv (step s input) := by
  cases input with
  | key key => exact inv_key h
  | expire i =>
      rcases expire_cases h i with hruns | ⟨seq, hseq, htimer, hstate | ⟨hstate, -⟩⟩
      · rw [(step_expire_of_not_runs hruns).1]
        exact h
      · exact inv_expire h hseq htimer hstate
      · exact absurd hstate (htimely seq hseq htimer)

theorem Clean.timely {input : Input} (h : s.Clean input) : s.Timely input := by
  cases input with
  | key key => trivial
  | expire i => exact h

theorem inv_ofKeys {packs : List {keys : List KeyMap // keys ≠ []}} :
    Inv (initial (packs.map fun keys => ofKeys keys.1 keys.2)) := by
  refine inv_initial fun seq hseq => ?_
  obtain ⟨keys, -, rfl⟩ := List.mem_map.1 hseq
  exact ⟨keys.1, keys.2, rfl⟩

/-- As long as the timers are stopped in time, only the looks at an empty list are wrong. -/
theorem recognised_of_timely {packs : List {keys : List KeyMap // keys ≠ []}}
    {inputs : List Input}
    (h : EveryStep Timely step (initial (packs.map fun keys => ofKeys keys.1 keys.2)) inputs) :
    EveryStep (fun s input => Recognised (step s input) []) step
      (initial (packs.map fun keys => ofKeys keys.1 keys.2)) inputs :=
  (@everyStep_of_rule _ _ Inv _ Timely step
    (fun _ _ h htimely => recognised_of_inv (inv_step h htimely) List.not_mem_nil)
    (fun _ _ => inv_step) _ _ inv_ofKeys h).1

/-- Whatever the sequences, a run is as it should be exactly when no timer expires for a
released sequence and no hold ends unguarded with nothing to act on. -/
theorem recognised_iff {packs : List {keys : List KeyMap // keys ≠ []}} {inputs : List Input} :
    EveryStep (fun s input => Recognised (step s input) (s.effects input)) step
        (initial (packs.map fun keys => ofKeys keys.1 keys.2)) inputs ↔
      EveryStep Clean step (initial (packs.map fun keys => ofKeys keys.1 keys.2)) inputs := by
  exact @everyStep_congr _ _ Inv _ Clean step (fun _ _ => recognised_iff_clean)
    (fun _ _ h hclean => inv_step h hclean.timely) inputs _ inv_ofKeys

/-- The back key alone, pressed and released, its timer expiring later, and pressed again. -/
def shortPress : List Input :=
  [.key ⟨.pressed, 23⟩, .key ⟨.released, 23⟩, .expire 0, .key ⟨.pressed, 23⟩]

def backOnly : Session :=
  initial ([⟨[.back], by simp⟩].map fun keys : {keys : List KeyMap // keys ≠ []} =>
    ofKeys keys.1 keys.2)

/-- The release looks at the last ready sequence when there is none; and as the timer was left
running, the second press does not start a hold. -/
theorem short_press_ready :
    ¬ EveryStep (fun s input => Recognised (step s input) (s.effects input)) step backOnly
      shortPress ∧
    ∀ effects, ¬ Recognised (shortPress.foldl step backOnly) effects := by
  refine ⟨fun h => absurd h.2.1.back (by decide), fun effects h => ?_⟩
  exact absurd (h.ready 0 _ rfl rfl) (by decide)

end Session

end MuditaOS.Evtmgr
