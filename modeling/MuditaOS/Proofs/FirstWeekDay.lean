import MuditaOS.Lib.Gregorian
import MuditaOS.Proofs.FollowingDay

/-!
# The first day of the week

The day of the month goes down to the Monday and is not borrowed from the month before. Day 0 is
still understood, as the last day of that month. Below it the eight bits wrap to 255, which is
another day of the week and lies months ahead.
-/

namespace MuditaOS.Alarms

open MuditaOS.Lib

variable {tp ticks result : Int} {fuel : Nat} {dates : CivilDates}

/-- The days since the last Monday, itself included. -/
def sinceMonday (n : Int) : Int := (n + 3) % 7

/-- On the Monday of the week of `tp`, at its hour and minute. -/
structure FirstOfWeek (tp result : Int) : Prop where
  monday : weekday (dayOf result) = mon
  before : dayOf result ≤ dayOf tp
  within : dayOf tp < dayOf result + 7
  time : result % days 1 = minutes (tp % days 1 / minutes 1)

theorem weekday_eq_mon_iff {n : Int} : weekday n = mon ↔ sinceMonday n = 0 := by
  unfold weekday mon sinceMonday
  omega

/-! ## The loop -/

theorem toMonday_day :
    ∀ {fuel : Nat} {yearMonthDay monday : YearMonthDay},
      dates.toMonday fuel yearMonthDay = some monday →
      monday = { yearMonthDay with day := monday.day } ∧ weekday (dates.toDays monday) = mon
  | fuel + 1, yearMonthDay, monday, hsome => by
      rw [CivilDates.toMonday] at hsome
      split at hsome
      · obtain ⟨hsame, hmonday⟩ := toMonday_day hsome
        exact ⟨hsame, hmonday⟩
      · rename_i hmonday
        obtain rfl := Option.some.inj hsome
        exact ⟨rfl, not_not.mp hmonday⟩

/-- So many days back, if the month has them. -/
theorem toMonday_of_le (htp : OnClock tp) : ∀ {back : Nat} {day : UInt8}, back ≤ day.toNat →
    sinceMonday (dates.toDays { dates.ofDays (dayOf tp) with day }) = back →
    ∃ monday : UInt8, monday.toNat = day.toNat - back ∧
      dates.toMonday (back + 1) { dates.ofDays (dayOf tp) with day } =
        some { dates.ofDays (dayOf tp) with day := monday }
  | 0, day, _, hback => by
      refine ⟨day, rfl, ?_⟩
      rw [CivilDates.toMonday, if_neg (not_not.mpr (weekday_eq_mon_iff.mpr hback))]
  | back + 1, day, hle, hback => by
      have hday : (day - 1).toNat = day.toNat - 1 := by
        have hlt := day.toNat_lt
        rw [UInt8.toNat_sub, UInt8.toNat_one]
        omega
      have hnext : sinceMonday (dates.toDays { dates.ofDays (dayOf tp) with day := day - 1 }) =
          back := by
        rw [dates.toDays_day tp _ htp] at hback ⊢
        unfold sinceMonday at *
        omega
      have hother : weekday (dates.toDays { dates.ofDays (dayOf tp) with day }) ≠ mon := by
        rw [Ne, weekday_eq_mon_iff, hback]
        omega
      obtain ⟨monday, hmonday, hsome⟩ := toMonday_of_le htp (show back ≤ (day - 1).toNat by omega)
        hnext
      refine ⟨monday, by omega, ?_⟩
      rw [CivilDates.toMonday, if_pos hother]
      exact hsome

/-- Past the first day of the month the search goes on from day 255. -/
theorem toMonday_of_gt (htp : OnClock tp) : ∀ {back : Nat} {day : UInt8}, day.toNat < back →
    back < 7 → sinceMonday (dates.toDays { dates.ofDays (dayOf tp) with day }) = back →
    ∃ fuel monday, dates.toMonday fuel { dates.ofDays (dayOf tp) with day } = some monday
  | 0, _, hlt, _, _ => absurd hlt (Nat.not_lt_zero _)
  | back + 1, day, hlt, hweek, hback => by
      have hother : weekday (dates.toDays { dates.ofDays (dayOf tp) with day }) ≠ mon := by
        rw [Ne, weekday_eq_mon_iff, hback]
        omega
      suffices hrest : ∃ fuel monday,
          dates.toMonday fuel { dates.ofDays (dayOf tp) with day := day - 1 } = some monday by
        obtain ⟨fuel, monday, hsome⟩ := hrest
        refine ⟨fuel + 1, monday, ?_⟩
        rw [CivilDates.toMonday, if_pos hother]
        exact hsome
      rw [dates.toDays_day tp _ htp] at hback
      by_cases hzero : day.toNat = 0
      · have hwrapped : (day - 1).toNat = 255 := by
          rw [UInt8.toNat_sub, UInt8.toNat_one, hzero]
        have hcongr : sinceMonday (dates.toDays { dates.ofDays (dayOf tp) with day := day - 1 }) =
            ((back + 4) % 7 : Nat) := by
          rw [dates.toDays_day tp _ htp]
          unfold sinceMonday at *
          omega
        obtain ⟨monday, _, hsome⟩ := toMonday_of_le htp
          (show (back + 4) % 7 ≤ (day - 1).toNat by omega) hcongr
        exact ⟨_, _, hsome⟩
      · have hday : (day - 1).toNat = day.toNat - 1 := by
          have hlt := day.toNat_lt
          rw [UInt8.toNat_sub, UInt8.toNat_one]
          omega
        have hnext : sinceMonday (dates.toDays { dates.ofDays (dayOf tp) with day := day - 1 }) =
            back := by
          rw [dates.toDays_day tp _ htp]
          unfold sinceMonday at *
          omega
        exact toMonday_of_gt htp (by omega) (by omega) hnext

/-! ## The result -/

theorem toDays_dayOf (htp : OnClock tp) : dates.toDays (dates.ofDays (dayOf tp)) = dayOf tp := by
  have hsame := dates.toDays_day tp (dates.ofDays (dayOf tp)).day htp
  rwa [Int.sub_self, Int.add_zero] at hsame

/-- The loop comes to a Monday in any case. -/
theorem toMonday_ends (htp : OnClock tp) :
    ∃ fuel monday, dates.toMonday fuel (dates.ofDays (dayOf tp)) = some monday := by
  have hbounds : 0 ≤ sinceMonday (dayOf tp) ∧ sinceMonday (dayOf tp) < 7 := by
    unfold sinceMonday
    omega
  have hback : sinceMonday (dates.toDays (dates.ofDays (dayOf tp))) =
      (sinceMonday (dayOf tp)).toNat := by
    rw [toDays_dayOf htp, Int.toNat_of_nonneg hbounds.1]
  by_cases hle : (sinceMonday (dayOf tp)).toNat ≤ (dates.ofDays (dayOf tp)).day.toNat
  · obtain ⟨monday, _, hsome⟩ := toMonday_of_le htp hle hback
    exact ⟨_, _, hsome⟩
  · exact toMonday_of_gt htp (Nat.lt_of_not_le hle) (by omega) hback

theorem getFirstWeekDay_eq_some_iff : dates.getFirstWeekDay fuel tp = some result ↔
    OnClock (days (dayOf tp)) ∧ ∃ monday, dates.toMonday fuel (dates.ofDays (dayOf tp)) =
      some monday ∧ OnClock result ∧
        days (dates.toDays monday) + minutes (tp % days 1 / minutes 1) = result := by
  have htime : tp - days (dayOf tp) = tp % days 1 := by
    unfold days dayOf days
    omega
  have hclock : OnClock (tp % days 1) := by
    unfold OnClock days
    omega
  have hparts : ∀ n, days n + hours (tp % days 1 / hours 1) +
      minutes (tp % days 1 % hours 1 / minutes 1) =
      days n + minutes (tp % days 1 / minutes 1) := by
    intro n
    unfold days hours minutes
    omega
  rw [CivilDates.getFirstWeekDay, onClock_bind_eq_some_iff, htime, onClock_bind_eq_some_iff,
    and_iff_right hclock, Option.bind_eq_bind, Option.bind_eq_some_iff]
  refine and_congr_right fun _ => exists_congr fun monday => and_congr_right fun _ => ?_
  rw [onClock_eq_some_iff, hparts]
  exact ⟨fun h => ⟨h.2 ▸ h.1, h.2⟩, fun h => ⟨h.2 ▸ h.1, h.2⟩⟩

/-- The week of `tp` begins on the clock. -/
def BeginsOnClock (tp : Int) : Prop :=
  -9223372036854775808 ≤ days (dayOf tp - sinceMonday (dayOf tp))

theorem firstOfWeek_iff {monday : Int} (hmonday : weekday monday = mon) :
    FirstOfWeek tp (days monday + minutes (tp % days 1 / minutes 1)) ↔
      monday = dayOf tp - sinceMonday (dayOf tp) := by
  have hday : dayOf (days monday + minutes (tp % days 1 / minutes 1)) = monday := by
    unfold dayOf days minutes
    omega
  have htime : (days monday + minutes (tp % days 1 / minutes 1)) % days 1 =
      minutes (tp % days 1 / minutes 1) := by
    unfold days minutes
    omega
  rw [weekday_eq_mon_iff] at hmonday
  unfold sinceMonday at *
  constructor
  · rintro ⟨_, hbefore, hwithin, _⟩
    rw [hday] at hbefore hwithin
    omega
  · intro heq
    refine ⟨?_, ?_, ?_, htime⟩ <;> rw [hday]
    · exact weekday_eq_mon_iff.mpr hmonday
    · omega
    · omega

theorem day_of_firstOfWeek (htp : OnClock tp) (hsome : dates.getFirstWeekDay fuel tp = some result)
    (hfirst : FirstOfWeek tp result) :
    sinceMonday (dayOf tp) ≤ (dates.ofDays (dayOf tp)).day.toNat ∧ BeginsOnClock tp := by
  obtain ⟨hclock, monday, hloop, hresult, rfl⟩ := getFirstWeekDay_eq_some_iff.mp hsome
  obtain ⟨hsame, hmonday⟩ := toMonday_day hloop
  have hdays := (firstOfWeek_iff hmonday).mp hfirst
  have hday := dates.toDays_day tp monday.day htp
  rw [← hsame] at hday
  refine ⟨by omega, ?_⟩
  rw [weekday_eq_mon_iff] at hmonday
  unfold BeginsOnClock
  rw [← hdays]
  unfold OnClock at hresult
  unfold sinceMonday days minutes at *
  omega

/-- The Monday is found exactly if the month has had as many days as lie between. -/
theorem first_week_day_iff (htp : OnClock tp) :
    (∃ fuel result, dates.getFirstWeekDay fuel tp = some result ∧ FirstOfWeek tp result) ↔
      sinceMonday (dayOf tp) ≤ (dates.ofDays (dayOf tp)).day.toNat ∧ BeginsOnClock tp := by
  constructor
  · rintro ⟨fuel, result, hsome, hfirst⟩
    exact day_of_firstOfWeek htp hsome hfirst
  · rintro ⟨hle, hbegins⟩
    have hnonneg : 0 ≤ sinceMonday (dayOf tp) := by
      unfold sinceMonday
      omega
    have hback : sinceMonday (dates.toDays (dates.ofDays (dayOf tp))) =
        (sinceMonday (dayOf tp)).toNat := by
      rw [toDays_dayOf htp, Int.toNat_of_nonneg hnonneg]
    obtain ⟨monday, hday, hloop⟩ := toMonday_of_le htp (Int.toNat_le.mpr hle) hback
    obtain ⟨_, hmonday⟩ := toMonday_day hloop
    have hdays : dates.toDays { dates.ofDays (dayOf tp) with day := monday } =
        dayOf tp - sinceMonday (dayOf tp) := by
      rw [dates.toDays_day tp monday htp]
      omega
    have hclock : OnClock (days (dayOf tp)) ∧ OnClock
        (days (dayOf tp - sinceMonday (dayOf tp)) + minutes (tp % days 1 / minutes 1)) := by
      unfold BeginsOnClock at hbegins
      unfold OnClock dayOf days minutes at *
      omega
    rw [← hdays] at hclock
    exact ⟨_, _, getFirstWeekDay_eq_some_iff.mpr ⟨hclock.1, _, hloop, hclock.2, rfl⟩,
      (firstOfWeek_iff hmonday).mpr hdays⟩

/-! ## Two days of a month -/

theorem year_onClock (htp : OnClock tp) : (Int16.ofInt (CivilDate.ofDays (dayOf tp)).year).toInt =
    (CivilDate.ofDays (dayOf tp)).year := by
  have hbounds : 146097 * 4 ≤ dayOf tp + CivilDate.epoch ∧
      dayOf tp + CivilDate.epoch < 146097 * 6 := by
    unfold OnClock at htp
    unfold dayOf days CivilDate.epoch
    omega
  have hyear := CivilDate.year_ofDays hbounds.1 hbounds.2
  exact Int16.toInt_ofInt_of_le (by omega) (by omega)

/-- The calendar, in the types of the library. -/
def gregorian : CivilDates where
  ofDays n :=
    { year := Int16.ofInt (CivilDate.ofDays n).year
      month := UInt8.ofNat (CivilDate.ofDays n).month.toNat
      day := UInt8.ofNat (CivilDate.ofDays n).day.toNat }
  toDays date := CivilDate.toDays ⟨date.year.toInt, date.month.toNat, date.day.toNat⟩
  toDays_day tp day htp := by
    have hmonth := CivilDate.month_ofDays (n := dayOf tp)
    have hday := CivilDate.day_ofDays (n := dayOf tp)
    have hother := CivilDate.toDays_day (CivilDate.ofDays (dayOf tp)) day.toNat
    have hmonthNat : ((UInt8.ofNat (CivilDate.ofDays (dayOf tp)).month.toNat).toNat : Int) =
        (CivilDate.ofDays (dayOf tp)).month := by
      rw [UInt8.toNat_ofNat']
      omega
    have hdayNat : ((UInt8.ofNat (CivilDate.ofDays (dayOf tp)).day.toNat).toNat : Int) =
        (CivilDate.ofDays (dayOf tp)).day := by
      rw [UInt8.toNat_ofNat']
      omega
    rw [CivilDate.toDays_ofDays] at hother
    rw [year_onClock htp, hmonthNat, hdayNat]
    exact hother

/-- The first of October 2024, a Tuesday: its Monday is in September. -/
theorem monday_of_october :
    ∃ fuel result, gregorian.getFirstWeekDay fuel (days 19997) = some result ∧
      FirstOfWeek (days 19997) result :=
  (first_week_day_iff (by decide)).mpr ⟨by decide, by unfold BeginsOnClock; decide⟩

/-- The first of March 2024, a Friday: its Monday is not found. -/
theorem monday_of_march :
    OnClock (days 19783) ∧ gregorian.getFirstWeekDay 9 (days 19783) = some (days 20031) ∧
      ¬ ∃ fuel result, gregorian.getFirstWeekDay fuel (days 19783) = some result ∧
        FirstOfWeek (days 19783) result := by
  refine ⟨by decide, by decide, ?_⟩
  rintro ⟨fuel, result, hsome, hfirst⟩
  exact absurd (day_of_firstOfWeek (by decide) hsome hfirst).1 (by decide)

end MuditaOS.Alarms
