import MuditaOS.Lib.Run
import MuditaOS.Locks.PhoneLockHandler

/-!
# The lockout after wrong passcodes

What an onlooker sees of the lock: passcodes that are compared, right or wrong,
the lock time that a wrong one sets, and the ticks of the timer. Two things get
around the lockout, a passcode typed in on the phone while it is blocked and a
request to lock the phone once more, which gives all attempts back. Where neither
happens the remaining time, the attempts left and the next lock time stay in step
(`Inv`), and the three promises are read off from what one message can do
(`Move`).
-/

namespace MuditaOS.Locks.PhoneLockHandler

open MuditaOS.Lib

variable {h h' : PhoneLockHandler} {m : Message} {ms : List Message} {hash : UInt32}

/-! ## What is seen -/

inductive Seen where
  | tick
  | right
  /-- A wrong passcode, with the lock time where it blocked the phone. -/
  | wrong (blockedFor : Option Int)
  | other
  deriving DecidableEq, Repr

namespace Seen

/-- A passcode was compared with the stored hash. -/
def Compares : Seen → Prop
  | right => True
  | wrong _ => True
  | _ => False

end Seen

/-- What is seen of a comparison that leaves the handler at `h`. -/
def Seen.ofCompared (h : PhoneLockHandler) (right : Bool) : Seen :=
  if right then .right
  else .wrong (if h.lock.lockState = .Blocked then some h.lockedFor else none)

/-- What is seen of a message that compares nothing. -/
def Message.seen : Message → Seen
  | .timerTick => .tick
  | _ => .other

def seen (h : PhoneLockHandler) (m : Message) : Seen :=
  match (h.handle m).2 with
  | some right => Seen.ofCompared (h.handle m).1 right
  | none => m.seen

def next (h : PhoneLockHandler) (m : Message) : PhoneLockHandler := (h.handle m).1

/-- All that is seen from a phone that starts locked. -/
def trace (hash : UInt32) (ms : List Message) : List Seen :=
  observe seen next (initial hash) ms

/-- After a block no passcode is compared before its time has passed in ticks;
counted from the start or from a right passcode, fewer than three wrong ones do not
block; and after a block the next wrong one doubles the time. -/
structure Lockout (o : List Seen) : Prop where
  waits : ∀ pre t mid x post, o = pre ++ .wrong (some t) :: (mid ++ x :: post) →
    (mid.count .tick : Int) < t → ¬ x.Compares
  three : ∀ pre seg post, o = pre ++ (seg ++ post) →
    (pre = [] ∨ pre.getLast? = some .right) →
    (∀ x ∈ seg, x ≠ .right ∧ ∀ t, x ≠ .wrong (some t)) →
    seg.count (.wrong none) < 3
  doubles : ∀ pre t mid b post,
    o = pre ++ .wrong (some t) :: (mid ++ .wrong b :: post) →
    (∀ x ∈ mid, ¬ x.Compares) → b = some (2 * t)

/-! ## One message -/

/-- A wrong passcode leaves a lock time that can be doubled in `time_t`. -/
def Fits (h : PhoneLockHandler) (inputData : LockInput) : Prop :=
  getHash inputData ≠ h.phoneLockHash → h.nextUnlockAttemptLockTime < 2 ^ 62

/-- No request to lock while a wrong passcode counts, no passcode typed in while
the phone is blocked for some time yet. -/
def Rule (h : PhoneLockHandler) : Message → Prop
  | .LockPhone => h.lock.attemptsLeft = initialNoLockTimeAttemptsLeft
  | .UnlockPhoneInput inputData =>
      (h.lock.lockState = .Blocked → h.lockedFor = 0) ∧ h.Fits inputData
  | .ExternalUnlockPhone inputData => h.Fits inputData
  | _ => True

instance (inputData : LockInput) : Decidable (h.Fits inputData) :=
  inferInstanceAs (Decidable (_ → _))

instance : Decidable (Rule h m) :=
  match m with
  | .LockPhone => inferInstanceAs (Decidable (_ = _))
  | .UnlockPhoneInput _ => inferInstanceAs (Decidable (_ ∧ _))
  | .ExternalUnlockPhone inputData => inferInstanceAs (Decidable (h.Fits inputData))
  | .UnlockPhone | .UnlockPhoneForMTP | .CancelUnlockPhone | .timerTick =>
      inferInstanceAs (Decidable True)

structure Inv (h : PhoneLockHandler) : Prop where
  enabled : h.phoneLockEnabled = true
  unlock : h.phoneLockInputTypeAction = .Unlock
  nonneg : 0 ≤ h.lockedFor
  le_next : h.lockedFor ≤ h.nextUnlockAttemptLockTime
  lt_max : h.nextUnlockAttemptLockTime < 2 ^ 63
  waiting : h.lockedFor ≠ 0 → h.lock.lockState = .Blocked ∧ h.phoneLockTimer = true
  attempts_le : h.lock.attemptsLeft ≤ 3
  attempts_iff : h.lock.attemptsLeft = 0 ↔ h.nextUnlockAttemptLockTime ≠ 0

/-- What one message does to the counters, and what is seen of it. -/
inductive Move (h h' : PhoneLockHandler) : Seen → Prop
  | other (hfor : h'.lockedFor = h.lockedFor)
      (hnext : h'.nextUnlockAttemptLockTime = h.nextUnlockAttemptLockTime)
      (hleft : h'.lock.attemptsLeft = h.lock.attemptsLeft)
      (hwait : h'.lockedFor ≠ 0 → h'.lock.lockState = .Blocked ∧ h'.phoneLockTimer = true) :
      Move h h' .other
  | tick (hfor : h'.lockedFor = max (h.lockedFor - 1) 0)
      (hnext : h'.nextUnlockAttemptLockTime = h.nextUnlockAttemptLockTime)
      (hleft : h'.lock.attemptsLeft = h.lock.attemptsLeft)
      (hwait : h'.lockedFor ≠ 0 → h'.lock.lockState = .Blocked ∧ h'.phoneLockTimer = true) :
      Move h h' .tick
  | right (hopen : h.lockedFor = 0) (hfor : h'.lockedFor = 0)
      (hnext : h'.nextUnlockAttemptLockTime = 0) (hleft : h'.lock.attemptsLeft = 3) :
      Move h h' .right
  | strike (hopen : h.lockedFor = 0) (hfor : h'.lockedFor = 0)
      (hnext : h'.nextUnlockAttemptLockTime = h.nextUnlockAttemptLockTime)
      (hleft : h'.lock.attemptsLeft + 1 = h.lock.attemptsLeft)
      (hpos : 0 < h'.lock.attemptsLeft) : Move h h' (.wrong none)
  | block (t : Int) (hopen : h.lockedFor = 0)
      (ht : t = if h.nextUnlockAttemptLockTime = 0 then 15
        else 2 * h.nextUnlockAttemptLockTime) (hmax : t < 2 ^ 63)
      (hfor : h'.lockedFor = t) (hnext : h'.nextUnlockAttemptLockTime = t)
      (hwait : h'.lock.lockState = .Blocked ∧ h'.phoneLockTimer = true)
      (hleft : h'.lock.attemptsLeft = 0) : Move h h' (.wrong (some t))

theorem timeT_of_nonneg {x : Int} (h0 : 0 ≤ x) (hlt : x < 2 ^ 63) : timeT x = x :=
  Int.bmod_eq_of_le (by omega) (by omega)

theorem Move.inv {x : Seen} (hmove : Move h h' x) (hinv : Inv h)
    (henabled : h'.phoneLockEnabled = true)
    (hunlock : h'.phoneLockInputTypeAction = .Unlock) : Inv h' := by
  obtain ⟨-, -, hnonneg, hle, hmax, -, hattempts, hiff⟩ := hinv
  cases hmove with
  | other hfor hnext hleft hwait =>
      exact ⟨henabled, hunlock, by omega, by omega, by omega, hwait, by omega, by omega⟩
  | tick hfor hnext hleft hwait =>
      exact ⟨henabled, hunlock, by omega, by omega, by omega, hwait, by omega, by omega⟩
  | right hopen hfor hnext hleft =>
      exact ⟨henabled, hunlock, by omega, by omega, by omega, fun h => absurd hfor h,
        by omega, by omega⟩
  | strike hopen hfor hnext hleft hpos =>
      exact ⟨henabled, hunlock, by omega, by omega, by omega, fun h => absurd hfor h,
        by omega, by omega⟩
  | block t hopen ht htmax hfor hnext hwait hleft =>
      have hpos : 0 < t := by
        split at ht <;> omega
      exact ⟨henabled, hunlock, by omega, by omega, by omega, fun _ => hwait, by omega,
        by omega⟩

/-- With no attempt left there is none to take off. -/
theorem takeAttempt_eq :
    (if 0 < h.lock.attemptsLeft then h.setAttemptsLeft (h.lock.attemptsLeft - 1) else h) =
      h.setAttemptsLeft (h.lock.attemptsLeft - 1) := by
  split
  · rfl
  · next hzero =>
      rw [Nat.eq_zero_of_not_pos hzero]
      exact congrArg (fun n => { h with lock := ⟨h.lock.lockState, n⟩ })
        (Nat.eq_zero_of_not_pos hzero)

theorem process_eq {inputData : LockInput} :
    h.processPhoneLockHashCode inputData =
      let spent := h.setAttemptsLeft (h.lock.attemptsLeft - 1)
      if h.phoneLockHash = getHash inputData then
        (((spent.setLockState .Unlocked).setAttemptsLeft
          initialNoLockTimeAttemptsLeft).resetLockTime, true)
      else if 0 < h.lock.attemptsLeft - 1 then (spent.setLockState .InputInvalid, false)
      else (spent.increaseLockTime.setLockState .Blocked, false) := by
  rw [processPhoneLockHashCode, takeAttempt_eq]
  rfl

/-- What comparing a passcode does, at a time when one may be compared. -/
theorem process_move {inputData : LockInput} (hinv : Inv h) (hopen : h.lockedFor = 0)
    (hfits : h.Fits inputData) {r : PhoneLockHandler × Bool}
    (hr : h.processPhoneLockHashCode inputData = r) :
    r.1.phoneLockEnabled = true ∧ r.1.phoneLockInputTypeAction = .Unlock ∧
      Move h r.1 (Seen.ofCompared r.1 r.2) := by
  obtain ⟨henabled, hunlock, hnonneg, hle, hmax, -, hattempts, hiff⟩ := hinv
  rw [process_eq] at hr
  dsimp only at hr
  by_cases hright : h.phoneLockHash = getHash inputData
  · rw [if_pos hright] at hr
    subst hr
    exact ⟨henabled, hunlock, .right hopen rfl rfl rfl⟩
  have hlt : h.nextUnlockAttemptLockTime < 2 ^ 62 := hfits fun heq => hright heq.symm
  rw [if_neg hright] at hr
  by_cases hlast : 0 < h.lock.attemptsLeft - 1
  · rw [if_pos hlast] at hr
    subst hr
    refine ⟨henabled, hunlock, .strike hopen hopen rfl ?_ hlast⟩
    change h.lock.attemptsLeft - 1 + 1 = h.lock.attemptsLeft
    omega
  · rw [if_neg hlast] at hr
    subst hr
    have hnext : (h.setAttemptsLeft (h.lock.attemptsLeft - 1)).increaseLockTime.lockedFor =
        if h.nextUnlockAttemptLockTime = 0 then 15 else 2 * h.nextUnlockAttemptLockTime := by
      change (if h.nextUnlockAttemptLockTime = 0 then (15 : Int)
        else timeT (h.nextUnlockAttemptLockTime * 2)) = _
      rw [timeT_of_nonneg (by omega) (by omega), Int.mul_comm]
    refine ⟨henabled, hunlock, .block _ hopen hnext ?_ rfl rfl ⟨rfl, rfl⟩ ?_⟩
    · change (h.setAttemptsLeft (h.lock.attemptsLeft - 1)).increaseLockTime.lockedFor < 2 ^ 63
      rw [hnext]
      split <;> omega
    · exact Nat.eq_zero_of_not_pos hlast

theorem Move.unlocked {x : Seen} (hmove : Move h h' x) : Move h h'.phoneUnlockAction x := by
  cases hmove with
  | other hfor hnext hleft hwait => exact .other hfor hnext hleft hwait
  | tick hfor hnext hleft hwait => exact .tick hfor hnext hleft hwait
  | right hopen hfor hnext hleft => exact .right hopen hfor hnext hleft
  | strike hopen hfor hnext hleft hpos => exact .strike hopen hfor hnext hleft hpos
  | block t hopen ht hmax hfor hnext hwait hleft =>
      exact .block t hopen ht hmax hfor hnext hwait hleft

/-- A message that compares a passcode and unlocks the phone or not. -/
theorem compared_move {inputData : LockInput} (hinv : Inv h) (hopen : h.lockedFor = 0)
    (hfits : h.Fits inputData) {r : PhoneLockHandler × Bool}
    (hr : h.processPhoneLockHashCode inputData = r)
    (hm : h.handle m = (r.1.phoneUnlockAction, some r.2) ∨ h.handle m = (r.1, some r.2)) :
    (h.next m).phoneLockEnabled = true ∧ (h.next m).phoneLockInputTypeAction = .Unlock ∧
      Move h (h.next m) (h.seen m) := by
  obtain ⟨henabled, hunlock, hmove⟩ := process_move hinv hopen hfits hr
  rcases hm with hm | hm
  · rw [next, seen, hm]
    exact ⟨henabled, hunlock, hmove.unlocked⟩
  · rw [next, seen, hm]
    exact ⟨henabled, hunlock, hmove⟩

theorem handleUnlockRequest_eq {reqReason : RequestReason} (hinv : Inv h) :
    h.handleUnlockRequest reqReason = h ∨
      h.lockedFor = 0 ∧ h.handleUnlockRequest reqReason = h.setLockState .InputRequired := by
  have htype : h.setPhoneLockInputTypeAction .Unlock = h := if_pos hinv.unlock
  rw [handleUnlockRequest, htype, hinv.enabled, if_neg (by decide)]
  split
  · split
    · exact .inl rfl
    · split
      · next hzero => exact .inr ⟨hzero, rfl⟩
      · exact .inl rfl
  · next hblocked =>
      have hzero : h.lockedFor = 0 := Classical.byContradiction fun hne =>
        hblocked (hinv.waiting hne).1
      split
      · exact .inr ⟨hzero, rfl⟩
      · exact .inl rfl

theorem unlockRequest_move {reqReason : RequestReason} (hinv : Inv h)
    (hm : h.handle m = (h.handleUnlockRequest reqReason, none)) (hseen : m.seen = .other) :
    (h.next m).phoneLockEnabled = true ∧ (h.next m).phoneLockInputTypeAction = .Unlock ∧
      Move h (h.next m) (h.seen m) := by
  rw [next, seen, hm]
  change _ ∧ _ ∧ Move h _ m.seen
  rw [hseen]
  rcases handleUnlockRequest_eq hinv with heq | ⟨hzero, heq⟩
  · rw [heq]
    exact ⟨hinv.enabled, hinv.unlock, .other rfl rfl rfl hinv.waiting⟩
  · rw [heq]
    exact ⟨hinv.enabled, hinv.unlock, .other rfl rfl rfl fun hne => absurd hzero hne⟩

theorem timerTick_move (hinv : Inv h) :
    (h.next .timerTick).phoneLockEnabled = true ∧
      (h.next .timerTick).phoneLockInputTypeAction = .Unlock ∧
      Move h (h.next .timerTick) (h.seen .timerTick) := by
  have hnonneg := hinv.nonneg
  have hle := hinv.le_next
  have hmax := hinv.lt_max
  change (if h.phoneLockTimer then h.onTimer else h).phoneLockEnabled = true ∧
    (if h.phoneLockTimer then h.onTimer else h).phoneLockInputTypeAction = .Unlock ∧
    Move h (if h.phoneLockTimer then h.onTimer else h) .tick
  by_cases hzero : h.lockedFor = 0
  · have hmax0 : (0 : Int) = max (h.lockedFor - 1) 0 := by omega
    split
    · rw [onTimer, if_pos hzero]
      exact ⟨hinv.enabled, hinv.unlock,
        .tick (hzero.trans hmax0) rfl rfl fun hne => absurd hzero hne⟩
    · exact ⟨hinv.enabled, hinv.unlock,
        .tick (hzero.trans hmax0) rfl rfl fun hne => absurd hzero hne⟩
  · obtain ⟨hblocked, htimer⟩ := hinv.waiting hzero
    have htime : timeT (h.lockedFor - 1) = max (h.lockedFor - 1) 0 := by
      rw [timeT_of_nonneg (by omega) (by omega)]
      omega
    rw [if_pos htimer, onTimer, if_neg hzero]
    exact ⟨hinv.enabled, hinv.unlock, .tick htime rfl rfl fun _ => ⟨hblocked, htimer⟩⟩

/-- Under the rule a message does what `Move` says. -/
theorem next_move (hinv : Inv h) (hrule : Rule h m) :
    (h.next m).phoneLockEnabled = true ∧ (h.next m).phoneLockInputTypeAction = .Unlock ∧
      Move h (h.next m) (h.seen m) := by
  have henabled := hinv.enabled
  have hunlock := hinv.unlock
  cases m with
  | LockPhone =>
      have hnext : ¬ h.nextUnlockAttemptLockTime ≠ 0 := fun hne => by
        have := hinv.attempts_iff.2 hne
        rw [Rule, this] at hrule
        exact absurd hrule (by decide)
      have hfor : h.lockedFor = 0 := by
        have := hinv.nonneg
        have := hinv.le_next
        omega
      exact ⟨henabled, hunlock, .other rfl rfl hrule.symm fun hne => absurd hfor hne⟩
  | UnlockPhone => exact unlockRequest_move hinv rfl rfl
  | UnlockPhoneForMTP => exact unlockRequest_move hinv rfl rfl
  | CancelUnlockPhone => exact ⟨henabled, hunlock, .other rfl rfl rfl hinv.waiting⟩
  | UnlockPhoneInput inputData =>
      have hopen : h.lockedFor = 0 := Classical.byContradiction fun hne =>
        hne (hrule.1 (hinv.waiting hne).1)
      obtain ⟨r, hr⟩ : ∃ r, h.processPhoneLockHashCode inputData = r := ⟨_, rfl⟩
      have hunlock' := (process_move hinv hopen hrule.2 hr).2.1
      refine compared_move hinv hopen hrule.2 hr ?_
      rw [handle, handlePhoneLockInput, hunlock, if_neg (by decide), verifyPhoneUnlockInput, hr]
      dsimp only
      split
      · rw [resolvePhoneLockAction, hunlock']
        exact .inl rfl
      · exact .inr rfl
  | ExternalUnlockPhone inputData =>
      by_cases hopen : h.lockedFor = 0
      · refine compared_move hinv hopen hrule rfl ?_
        rw [handle, handleExternalUnlockRequest, henabled, if_neg (by decide),
          if_neg fun hblocked => hblocked.2 hopen]
        dsimp only
        split
        · exact .inl rfl
        · exact .inr rfl
      · have hm : h.handle (.ExternalUnlockPhone inputData) = (h, none) := by
          rw [handle, handleExternalUnlockRequest, henabled, if_neg (by decide),
            if_pos ⟨(hinv.waiting hopen).1, hopen⟩]
        rw [next, seen, hm]
        exact ⟨henabled, hunlock, .other rfl rfl rfl hinv.waiting⟩
  | timerTick => exact timerTick_move hinv

theorem inv_next (hinv : Inv h) (hrule : Rule h m) : Inv (h.next m) := by
  obtain ⟨henabled, hunlock, hmove⟩ := next_move hinv hrule
  exact hmove.inv hinv henabled hunlock

/-! ## A whole run -/

theorem inv_initial : Inv (initial hash) :=
  ⟨rfl, rfl, Int.le_refl _, Int.le_refl _, (by decide : (0 : Int) < 2 ^ 63),
    fun hne => absurd rfl hne, Nat.le_refl _,
    fun h => absurd h (by change ¬ 3 = 0; decide), fun h => absurd rfl h⟩

theorem inv_run : ∀ {ms : List Message} {h : PhoneLockHandler}, Inv h →
    EveryStep Rule next h ms → Inv (ms.foldl next h) :=
  fun hinv hrun => (@everyStep_of_rule _ _ Inv (fun _ _ => True) Rule next
    (fun _ _ _ _ => trivial) (fun _ _ => inv_next) _ _ hinv hrun).2

/-- While time is left it goes down with the ticks and with nothing else. -/
theorem waiting_run : ∀ {ms : List Message} {h : PhoneLockHandler}, Inv h →
    EveryStep Rule next h ms → ((observe seen next h ms).count .tick : Int) < h.lockedFor →
    (ms.foldl next h).lockedFor = h.lockedFor - (observe seen next h ms).count .tick := by
  intro ms
  induction ms with
  | nil => intro h _ _ _; exact (Int.sub_zero _).symm
  | cons m ms ih =>
      intro h hinv hrun hlt
      obtain ⟨-, -, hmove⟩ := next_move hinv hrun.1
      have hstep := @ih (h.next m) (inv_next hinv hrun.1) hrun.2
      rw [observe, List.foldl_cons] at *
      generalize h.seen m = x at *
      cases hmove with
      | other hfor hnext hleft hwait =>
          rw [List.count_cons_of_ne Seen.noConfusion] at hlt ⊢
          rw [hfor] at hstep
          exact hstep hlt
      | tick hfor hnext hleft hwait =>
          rw [List.count_cons_self] at hlt ⊢
          rw [hstep (by omega)]
          omega
      | right hopen hfor hnext hleft => omega
      | strike hopen hfor hnext hleft hpos => omega
      | block t hopen ht hmax hfor hnext hwait hleft => omega

/-- Without a comparison the next lock time stays. -/
theorem quiet_run : ∀ {ms : List Message} {h : PhoneLockHandler}, Inv h →
    EveryStep Rule next h ms → (∀ x ∈ observe seen next h ms, ¬ x.Compares) →
    (ms.foldl next h).nextUnlockAttemptLockTime = h.nextUnlockAttemptLockTime := by
  intro ms
  induction ms with
  | nil => intro h _ _ _; rfl
  | cons m ms ih =>
      intro h hinv hrun hquiet
      obtain ⟨-, -, hmove⟩ := next_move hinv hrun.1
      rw [observe, List.forall_mem_cons] at hquiet
      rw [List.foldl_cons, ih (inv_next hinv hrun.1) hrun.2 hquiet.2]
      have hhead := hquiet.1
      generalize h.seen m = x at *
      cases hmove with
      | other hfor hnext hleft hwait => exact hnext
      | tick hfor hnext hleft hwait => exact hnext
      | right hopen hfor hnext hleft => exact absurd trivial hhead
      | strike hopen hfor hnext hleft hpos => exact absurd trivial hhead
      | block t hopen ht hmax hfor hnext hwait hleft => exact absurd trivial hhead

/-- Until it blocks or is opened the lock counts its attempts down and keeps one. -/
theorem strikes_run : ∀ {ms : List Message} {h : PhoneLockHandler}, Inv h →
    EveryStep Rule next h ms → 0 < h.lock.attemptsLeft →
    (∀ x ∈ observe seen next h ms, x ≠ .right ∧ ∀ t, x ≠ .wrong (some t)) →
    (observe seen next h ms).count (.wrong none) < h.lock.attemptsLeft := by
  intro ms
  induction ms with
  | nil => intro h _ _ hpos _; exact hpos
  | cons m ms ih =>
      intro h hinv hrun hpos hopen
      obtain ⟨-, -, hmove⟩ := next_move hinv hrun.1
      rw [observe, List.forall_mem_cons] at hopen
      have hrest := fun hpos' => @ih (h.next m) (inv_next hinv hrun.1) hrun.2 hpos' hopen.2
      obtain ⟨hright, hblock⟩ := hopen.1
      rw [observe]
      generalize h.seen m = x at *
      cases hmove with
      | other hfor hnext hleft hwait =>
          rw [List.count_cons_of_ne Seen.noConfusion, ← hleft]
          exact hrest (hleft ▸ hpos)
      | tick hfor hnext hleft hwait =>
          rw [List.count_cons_of_ne Seen.noConfusion, ← hleft]
          exact hrest (hleft ▸ hpos)
      | right hopen hfor hnext hleft => exact absurd rfl hright
      | strike hopen hfor hnext hleft hpos' =>
          have := hrest hpos'
          rw [List.count_cons_self]
          omega
      | block t hopen ht hmax hfor hnext hwait hleft => exact absurd rfl (hblock t)

/-- The rest of a run behind a wrong passcode that blocked. -/
theorem blocked_at {pre post : List Seen} {t : Int}
    (hrun : EveryStep Rule next (initial hash) ms)
    (htrace : trace hash ms = pre ++ .wrong (some t) :: post) :
    ∃ h ks, Inv h ∧ EveryStep Rule next h ks ∧ observe seen next h ks = post ∧
      h.lockedFor = t ∧ h.nextUnlockAttemptLockTime = t ∧ t ≠ 0 := by
  obtain ⟨js, rest, rfl, -, hrest⟩ := observe_eq_append htrace
  obtain ⟨m, ks, rfl, hm, hks⟩ := observe_eq_cons hrest
  obtain ⟨hjs, hrule, hkrun⟩ := everyStep_append.1 hrun
  have hinv := inv_run inv_initial hjs
  obtain ⟨-, -, hmove⟩ := next_move hinv hrule
  have hinv' := inv_next hinv hrule
  rw [hm] at hmove
  refine ⟨_, ks, hinv', hkrun, hks, ?_⟩
  cases hmove with
  | block t hopen ht hmax hfor hnext hwait hleft =>
      exact ⟨hfor, hnext, fun hzero => hinv'.attempts_iff.1 hleft (hnext.trans hzero)⟩

/-- At the start and after a right passcode all attempts are left. -/
theorem attempts_at {pre : List Seen} (hrun : EveryStep Rule next (initial hash) ms)
    (hms : observe seen next (initial hash) ms = pre)
    (hpre : pre = [] ∨ pre.getLast? = some .right) :
    (ms.foldl next (initial hash)).lock.attemptsLeft = 3 := by
  rcases hpre with rfl | hlast
  · cases ms with
    | nil => rfl
    | cons m ms => exact absurd hms (by simp [observe])
  · obtain ⟨front, rfl⟩ := List.getLast?_eq_some_iff.1 hlast
    obtain ⟨js, rest, rfl, -, hrest⟩ := observe_eq_append hms
    obtain ⟨m, ks, rfl, hm, hks⟩ := observe_eq_cons hrest
    obtain ⟨hjs, hrule, -⟩ := everyStep_append.1 hrun
    cases ks with
    | cons k ks => exact absurd hks (by simp [observe])
    | nil =>
        obtain ⟨-, -, hmove⟩ := next_move (inv_run inv_initial hjs) hrule
        rw [hm] at hmove
        rw [List.foldl_append]
        cases hmove with
        | right hopen hfor hnext hleft => exact hleft

/-- As long as both rules are followed the lockout holds. -/
theorem lockout_of_rule (hrun : EveryStep Rule next (initial hash) ms) :
    Lockout (trace hash ms) := by
  refine ⟨?_, ?_, ?_⟩
  · intro pre t mid x post htrace hticks
    obtain ⟨h, ks, hinv, hks, hobs, hfor, -⟩ := blocked_at hrun htrace
    obtain ⟨js, rest, rfl, rfl, hrest⟩ := observe_eq_append hobs
    obtain ⟨m, ls, rfl, rfl, -⟩ := observe_eq_cons hrest
    obtain ⟨hjs, hrule, -⟩ := everyStep_append.1 hks
    rw [← hfor] at hticks
    have hleft := waiting_run hinv hjs hticks
    obtain ⟨-, -, hmove⟩ := next_move (inv_run hinv hjs) hrule
    generalize (js.foldl next h).seen m = x at *
    cases hmove with
    | other => exact id
    | tick => exact id
    | right hopen => omega
    | strike hopen => omega
    | block _ hopen => omega
  · intro pre seg post htrace hpre hseg
    obtain ⟨js, rest, rfl, hjs, hrest⟩ := observe_eq_append htrace
    obtain ⟨ks, ls, rfl, rfl, -⟩ := observe_eq_append hrest
    obtain ⟨hjrun, hkl⟩ := everyStep_append.1 hrun
    have hinv := inv_run inv_initial hjrun
    have hleft : (js.foldl next (initial hash)).lock.attemptsLeft = 3 :=
      attempts_at hjrun hjs hpre
    rw [← hleft]
    exact strikes_run hinv (everyStep_append.1 hkl).1 (by omega) hseg
  · intro pre t mid b post htrace hquiet
    obtain ⟨h, ks, hinv, hks, hobs, -, hnext, hne⟩ := blocked_at hrun htrace
    obtain ⟨js, rest, rfl, rfl, hrest⟩ := observe_eq_append hobs
    obtain ⟨m, ls, rfl, hm, -⟩ := observe_eq_cons hrest
    obtain ⟨hjs, hrule, -⟩ := everyStep_append.1 hks
    have hstays := quiet_run hinv hjs hquiet
    have hinv' := inv_run hinv hjs
    obtain ⟨-, -, hmove⟩ := next_move hinv' hrule
    rw [hm] at hmove
    rw [hnext] at hstays
    cases hmove with
    | strike hopen hfor hnext' hleft hpos =>
        have := hinv'.attempts_iff.2 (by omega)
        omega
    | block t' hopen ht hmax hfor hnext' hwait hleft =>
        rw [if_neg (by omega), hstays] at ht
        rw [ht]

/-- The block is waited out, and the phone locked again once it was unlocked. -/
theorem lockout_of_rule_waited : Lockout (trace 1234
    ([.UnlockPhoneInput [0], .UnlockPhoneInput [0], .UnlockPhoneInput [0], .UnlockPhone] ++
      List.replicate 15 .timerTick ++ [.UnlockPhoneInput [1, 2, 3, 4], .LockPhone])) :=
  lockout_of_rule (by decide)

/-- Blocked for 15 seconds after three wrong passcodes, the phone takes a fourth that
is typed in at once, and it is the right one. -/
theorem blocked_input_compared : ¬ Lockout (trace 1234
    [.UnlockPhoneInput [0], .UnlockPhoneInput [0], .UnlockPhoneInput [0],
      .UnlockPhoneInput [1, 2, 3, 4]]) := by
  intro hlock
  exact hlock.waits [.wrong none, .wrong none] 15 [] .right [] (by decide) (by decide) trivial

end MuditaOS.Locks.PhoneLockHandler
