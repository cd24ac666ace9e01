import MuditaOS.Time.DateCommon

/-!
# The following day

Four cases, and the whole numbers of days between two time points are decided differently by
each: no day apart and one day before are right, every other number ends at the relative time
itself.
-/

namespace MuditaOS.Alarms

variable {tp relativeTime ticks result : Int}

@[simp] theorem onClock_eq_some_iff :
    onClock ticks = some result ↔ OnClock ticks ∧ ticks = result := by
  rw [onClock, Option.ite_none_right_eq_some, Option.some.injEq]

theorem onClock_bind_eq_some_iff {step : Int → Option Int} :
    (onClock ticks >>= step) = some result ↔ OnClock ticks ∧ step ticks = some result := by
  rw [onClock]
  by_cases hticks : OnClock ticks <;> simp [hticks]

/-- Whole days from `tp`, and in the 24 hours after `relativeTime`. -/
def Follows (tp relativeTime result : Int) : Prop :=
  (∃ k, result = tp + days k) ∧ relativeTime < result ∧ result ≤ relativeTime + hours 24

/-- The last time point at the time of day of `tp`. -/
def lastAt (tp : Int) : Int :=
  9223372036854775807 - (9223372036854775807 - tp) % days 1

/-- The two are not too far apart, and there is a time point at the time of day of `tp`
after `relativeTime`. -/
def InReach (tp relativeTime : Int) : Prop :=
  -9223372036854775807 ≤ relativeTime - tp ∧ relativeTime - tp ≤ days 106751 ∧
    relativeTime < lastAt tp

/-! ## The cases -/

theorem GetFollowingDayTime_of_lt (hlt : tp < relativeTime) :
    GetFollowingDayTime tp relativeTime = tp + days (-(-(relativeTime - tp) / days 1)) :=
  if_pos (Int.sub_pos_of_lt hlt)

theorem GetFollowingDayTime_self : GetFollowingDayTime tp tp = tp + days 1 := by
  simp [GetFollowingDayTime, hours]

theorem GetFollowingDayTime_of_gt (hgt : relativeTime < tp) :
    GetFollowingDayTime tp relativeTime =
      if tp - relativeTime > hours 24 then tp - days ((tp - relativeTime) / days 1) else tp := by
  have habs : ((relativeTime - tp).natAbs : Int) = tp - relativeTime := by omega
  have hneg : relativeTime - tp < hours 0 := Int.sub_neg_of_lt hgt
  simp only [GetFollowingDayTime, if_neg (Int.lt_asymm hneg), if_neg (Int.ne_of_lt hneg), habs,
    hneg, true_and]

theorem GetFollowingDayTimeOnClock_of_lt (hlt : tp < relativeTime) :
    GetFollowingDayTimeOnClock tp relativeTime = some result ↔
      OnClock (relativeTime - tp) ∧ OnClock (days (-(-(relativeTime - tp) / days 1))) ∧
        OnClock result ∧ GetFollowingDayTime tp relativeTime = result := by
  have hpos : relativeTime - tp > hours 0 := Int.sub_pos_of_lt hlt
  rw [GetFollowingDayTimeOnClock, onClock_bind_eq_some_iff, if_pos hpos, onClock_bind_eq_some_iff,
    onClock_eq_some_iff, GetFollowingDayTime_of_lt hlt]
  exact and_congr_right fun _ => and_congr_right fun _ =>
    ⟨fun h => ⟨h.2 ▸ h.1, h.2⟩, fun h => ⟨h.2 ▸ h.1, h.2⟩⟩

theorem GetFollowingDayTimeOnClock_self :
    GetFollowingDayTimeOnClock tp tp = some result ↔
      OnClock result ∧ GetFollowingDayTime tp tp = result := by
  have hsub : tp - tp = hours 0 := Int.sub_self tp
  rw [GetFollowingDayTimeOnClock, onClock_bind_eq_some_iff, hsub, if_neg (Int.lt_irrefl _),
    if_pos rfl, onClock_eq_some_iff, GetFollowingDayTime_self]
  exact ⟨fun h => ⟨h.2.2 ▸ h.2.1, h.2.2⟩, fun h => ⟨by decide, h.2 ▸ h.1, h.2⟩⟩

theorem onClock_of_gt (htp : OnClock tp) (hrel : OnClock relativeTime)
    (hgt : relativeTime < tp) : OnClock (GetFollowingDayTime tp relativeTime) := by
  rw [GetFollowingDayTime_of_gt hgt]
  split
  · unfold OnClock days at *
    omega
  · exact htp

theorem GetFollowingDayTimeOnClock_of_gt (htp : OnClock tp) (hrel : OnClock relativeTime)
    (hgt : relativeTime < tp) :
    GetFollowingDayTimeOnClock tp relativeTime = some result ↔
      OnClock (tp - relativeTime) ∧ GetFollowingDayTime tp relativeTime = result := by
  have hneg : relativeTime - tp < hours 0 := Int.sub_neg_of_lt hgt
  have hclock : OnClock (relativeTime - tp) ∧ OnClock (tp - relativeTime) ↔
      OnClock (tp - relativeTime) := by
    unfold OnClock
    omega
  have hresult := onClock_of_gt htp hrel hgt
  rw [GetFollowingDayTime_of_gt hgt] at hresult ⊢
  rw [GetFollowingDayTimeOnClock, onClock_bind_eq_some_iff, if_neg (Int.lt_asymm hneg),
    if_neg (Int.ne_of_lt hneg), Int.neg_sub, onClock_bind_eq_some_iff, ← and_assoc, hclock]
  refine and_congr_right fun _ => ?_
  split at hresult
  · rename_i hfar
    rw [if_pos hfar, if_pos hfar, onClock_eq_some_iff, and_iff_right hresult]
  · rename_i hnear
    rw [if_neg hnear, if_neg hnear, Option.some.injEq]

/-! ## Days in between -/

theorem follows_of_lt (hlt : tp < relativeTime) :
    Follows tp relativeTime (GetFollowingDayTime tp relativeTime) ↔
      ∀ k, relativeTime ≠ tp + days k := by
  rw [GetFollowingDayTime_of_lt hlt]
  generalize hceil : -(-(relativeTime - tp) / days 1) = ceil
  have hbounds : relativeTime - tp ≤ days ceil ∧ days ceil < relativeTime - tp + days 1 := by
    unfold days at *
    omega
  constructor
  · rintro ⟨_, hafter, _⟩ k rfl
    unfold days at *
    have hk : k = ceil := by omega
    omega
  · intro hnever
    have hne := hnever ceil
    refine ⟨⟨ceil, rfl⟩, ?_, ?_⟩
    · unfold days at *
      omega
    · unfold days hours at *
      omega

theorem follows_self : Follows tp tp (GetFollowingDayTime tp tp) := by
  rw [GetFollowingDayTime_self]
  refine ⟨⟨1, rfl⟩, ?_, Int.le_refl _⟩
  unfold days
  omega

theorem follows_of_gt (hgt : relativeTime < tp) :
    Follows tp relativeTime (GetFollowingDayTime tp relativeTime) ↔
      ∀ k, relativeTime = tp + days k → k = -1 := by
  rw [GetFollowingDayTime_of_gt hgt]
  generalize hfloor : (tp - relativeTime) / days 1 = floor
  have hbounds : days floor ≤ tp - relativeTime ∧ tp - relativeTime < days floor + days 1 := by
    unfold days at *
    omega
  split
  · rename_i hfar
    constructor
    · rintro ⟨_, hafter, _⟩ k rfl
      unfold days at *
      have hk : k = -floor := by omega
      omega
    · intro hone
      have hne := hone (-floor)
      refine ⟨⟨-floor, ?_⟩, ?_, ?_⟩
      · unfold days
        omega
      · unfold days hours at *
        omega
      · unfold days hours at *
        omega
  · rename_i hnear
    constructor
    · rintro - k rfl
      unfold days hours at *
      omega
    · intro _
      refine ⟨⟨0, ?_⟩, hgt, ?_⟩
      · unfold days
        omega
      · unfold hours at *
        omega

theorem follows_iff : Follows tp relativeTime (GetFollowingDayTime tp relativeTime) ↔
    ∀ k, relativeTime = tp + days k → k = 0 ∨ k = -1 := by
  rcases Int.lt_trichotomy tp relativeTime with hlt | rfl | hgt
  · rw [follows_of_lt hlt]
    refine forall_congr' fun k => ⟨fun hne heq => absurd heq hne, fun hor heq => ?_⟩
    have hk := hor heq
    unfold days at heq
    omega
  · refine iff_of_true follows_self fun k hk => ?_
    unfold days at hk
    omega
  · rw [follows_of_gt hgt]
    refine forall_congr' fun k => ⟨fun hone heq => .inr (hone heq), fun hor heq => ?_⟩
    have hk := hor heq
    unfold days at heq
    omega

/-! ## On the clock -/

variable (tp) in
theorem lastAt_eq : ∃ d, lastAt tp = tp + days d ∧ days d ≤ 9223372036854775807 - tp ∧
    9223372036854775807 - tp < days d + days 1 := by
  refine ⟨(9223372036854775807 - tp) / days 1, ?_, ?_, ?_⟩
  · simp only [lastAt, days]
    omega
  · unfold days
    omega
  · unfold days
    omega

/-- A time point in the 24 hours is one of the clock if it is not behind the last one. -/
theorem onClock_iff_of_follows (hrel : OnClock relativeTime)
    (hfollows : Follows tp relativeTime result) :
    OnClock result ↔ relativeTime < lastAt tp := by
  obtain ⟨⟨k, hk⟩, hafter, hwithin⟩ := hfollows
  obtain ⟨d, hlast, hle, hlt⟩ := lastAt_eq tp
  unfold OnClock hours days at *
  rw [hlast]
  constructor
  · intro hresult
    have hkd : k ≤ d := by omega
    omega
  · intro hbefore
    have hkd : k ≤ d := by omega
    omega

theorem GetFollowingDayTimeOnClock_iff (htp : OnClock tp) (hrel : OnClock relativeTime) :
    GetFollowingDayTimeOnClock tp relativeTime = some result ↔
      (-9223372036854775807 ≤ relativeTime - tp ∧ relativeTime - tp ≤ days 106751) ∧
        OnClock result ∧ GetFollowingDayTime tp relativeTime = result := by
  rcases Int.lt_trichotomy tp relativeTime with hlt | rfl | hgt
  · rw [GetFollowingDayTimeOnClock_of_lt hlt, ← and_assoc]
    refine and_congr_left' ?_
    unfold OnClock days at *
    omega
  · have hnear : -9223372036854775807 ≤ tp - tp ∧ tp - tp ≤ days 106751 := by
      unfold days
      omega
    rw [GetFollowingDayTimeOnClock_self, and_iff_right hnear]
  · have hresult := onClock_of_gt htp hrel hgt
    rw [GetFollowingDayTimeOnClock_of_gt htp hrel hgt]
    have hclock : OnClock (tp - relativeTime) ↔
        -9223372036854775807 ≤ relativeTime - tp ∧ relativeTime - tp ≤ days 106751 := by
      unfold OnClock days
      omega
    rw [hclock]
    exact and_congr_right fun _ => ⟨fun heq => ⟨heq ▸ hresult, heq⟩, And.right⟩

/-- The result is right exactly if it can be reached and the two are no whole number of days
apart but none or one before. -/
theorem following_day_iff (htp : OnClock tp) (hrel : OnClock relativeTime) :
    (∃ result, GetFollowingDayTimeOnClock tp relativeTime = some result ∧
        Follows tp relativeTime result) ↔
      InReach tp relativeTime ∧ ∀ k, relativeTime = tp + days k → k = 0 ∨ k = -1 := by
  constructor
  · rintro ⟨result, hsome, hfollows⟩
    obtain ⟨hfar, hresult, rfl⟩ := (GetFollowingDayTimeOnClock_iff htp hrel).mp hsome
    exact ⟨⟨hfar.1, hfar.2, (onClock_iff_of_follows hrel hfollows).mp hresult⟩,
      follows_iff.mp hfollows⟩
  · rintro ⟨⟨hlow, hhigh, hlast⟩, hdays⟩
    have hfollows := follows_iff.mpr hdays
    exact ⟨_, (GetFollowingDayTimeOnClock_iff htp hrel).mpr
      ⟨⟨hlow, hhigh⟩, (onClock_iff_of_follows hrel hfollows).mpr hlast, rfl⟩, hfollows⟩

/-- An alarm at nine in the morning, asked for at seven of the same day. -/
theorem nine_after_seven :
    ∃ result, GetFollowingDayTimeOnClock (hours 9) (hours 7) = some result ∧
      Follows (hours 9) (hours 7) result :=
  (following_day_iff (by decide) (by decide)).mpr
    ⟨by unfold InReach lastAt days hours; decide, fun k hk => by unfold hours days at hk; omega⟩

/-- A day later to the tick: the result is the relative time, and not after it. -/
theorem same_time_next_day :
    OnClock (hours 7) ∧ OnClock (hours 31) ∧
      GetFollowingDayTimeOnClock (hours 7) (hours 31) = some (hours 31) ∧
      ¬ ∃ result, GetFollowingDayTimeOnClock (hours 7) (hours 31) = some result ∧
        Follows (hours 7) (hours 31) result := by
  have hsome : GetFollowingDayTimeOnClock (hours 7) (hours 31) = some (hours 31) := by decide
  refine ⟨by decide, by decide, hsome, ?_⟩
  rintro ⟨result, hresult, hfollows⟩
  obtain rfl : hours 31 = result := Option.some.inj (hsome.symm.trans hresult)
  exact absurd hfollows.2.1 (Int.lt_irrefl _)

end MuditaOS.Alarms
