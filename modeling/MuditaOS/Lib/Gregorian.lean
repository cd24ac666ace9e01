import Mathlib.Data.Int.Basic

/-!
# The Gregorian calendar

Days are counted from the first of January 1970. A year begins in March here, so that its leap
day is the last one: the days before a year and before a month of it are then one formula each.
-/

namespace MuditaOS.Lib

structure CivilDate where
  year : Int
  month : Int
  day : Int
  deriving DecidableEq, Repr

namespace CivilDate

/-- The days from the first of March of the year 0 to that of `y`. -/
def daysToYear (y : Int) : Int := 365 * y + y / 4 - y / 100 + y / 400

/-- The days from the first of March to that of the month `mp` behind it. -/
def daysToMonth (mp : Int) : Int := (153 * mp + 2) / 5

/-- The year that a day is in: a period of 400 years has four centuries, the last of them a day
longer, and four years are a day longer at their end as well. -/
def yearOfDay (z : Int) : Int :=
  let century := min (z % 146097 / 36524) 3
  let rest := z % 146097 - 36524 * century
  400 * (z / 146097) + 100 * century + 4 * (rest / 1461) + min (rest % 1461 / 365) 3

def monthOfDay (doy : Int) : Int := (5 * doy + 2) / 153

/-- From the first of March of the year 0 to the epoch. -/
def epoch : Int := 719468

def ofDays (n : Int) : CivilDate :=
  let z := n + epoch
  let doy := z - daysToYear (yearOfDay z)
  let mp := monthOfDay doy
  { year := if mp < 10 then yearOfDay z else yearOfDay z + 1
    month := if mp < 10 then mp + 3 else mp - 9
    day := doy - daysToMonth mp + 1 }

def toDays (date : CivilDate) : Int :=
  (if date.month ≤ 2 then daysToYear (date.year - 1) + daysToMonth (date.month + 9)
   else daysToYear date.year + daysToMonth (date.month - 3)) + date.day - 1 - epoch

variable {z doy n : Int}

theorem dayOfYear_bounds : 0 ≤ z - daysToYear (yearOfDay z) ∧
    z - daysToYear (yearOfDay z) ≤ 365 := by
  simp only [yearOfDay, daysToYear]
  generalize hcentury : min (z % 146097 / 36524) 3 = century
  have hcenturies : 0 ≤ century ∧ century ≤ 3 ∧ 0 ≤ z % 146097 - 36524 * century ∧
      z % 146097 - 36524 * century ≤ 36524 := by omega
  -- only the fourth century has the day more
  have hshort : century < 3 → z % 146097 - 36524 * century < 36524 := by omega
  generalize hrest : z % 146097 - 36524 * century = rest at *
  generalize hyear : min (rest % 1461 / 365) 3 = year
  have hyears : 0 ≤ year ∧ year ≤ 3 ∧ 0 ≤ rest % 1461 - 365 * year ∧
      rest % 1461 - 365 * year ≤ 365 := by omega
  have hleap : 0 ≤ rest / 1461 ∧ rest / 1461 ≤ 24 := by omega
  generalize hq : rest / 1461 = q at *
  have h4 : (400 * (z / 146097) + 100 * century + 4 * q + year) / 4 =
      100 * (z / 146097) + 25 * century + q := by omega
  have h100 : (400 * (z / 146097) + 100 * century + 4 * q + year) / 100 =
      4 * (z / 146097) + century := by omega
  have h400 : (400 * (z / 146097) + 100 * century + 4 * q + year) / 400 = z / 146097 := by omega
  omega

theorem dayOfMonth_bounds (hlow : 0 ≤ doy) (hhigh : doy ≤ 365) :
    (0 ≤ monthOfDay doy ∧ monthOfDay doy ≤ 11) ∧
      0 ≤ doy - daysToMonth (monthOfDay doy) ∧ doy - daysToMonth (monthOfDay doy) ≤ 30 := by
  unfold daysToMonth monthOfDay
  omega

theorem month_ofDays : 1 ≤ (ofDays n).month ∧ (ofDays n).month ≤ 12 := by
  have hdoy := dayOfYear_bounds (z := n + epoch)
  have hmonth := (dayOfMonth_bounds hdoy.1 hdoy.2).1
  simp only [ofDays]
  omega

theorem day_ofDays : 1 ≤ (ofDays n).day ∧ (ofDays n).day ≤ 31 := by
  have hdoy := dayOfYear_bounds (z := n + epoch)
  have hday := (dayOfMonth_bounds hdoy.1 hdoy.2).2
  simp only [ofDays]
  omega

/-- The year of a day, from its place in the periods of 400 years. -/
theorem year_ofDays {low high : Int} (hlow : 146097 * low ≤ n + epoch)
    (hhigh : n + epoch < 146097 * high) :
    400 * low ≤ (ofDays n).year ∧ (ofDays n).year ≤ 400 * high := by
  simp only [ofDays, yearOfDay]
  omega

theorem toDays_ofDays : toDays (ofDays n) = n := by
  have hdoy := dayOfYear_bounds (z := n + epoch)
  have hmonth := (dayOfMonth_bounds hdoy.1 hdoy.2).1
  by_cases hspring : monthOfDay (n + epoch - daysToYear (yearOfDay (n + epoch))) < 10
  · have hlate : ¬ monthOfDay (n + epoch - daysToYear (yearOfDay (n + epoch))) + 3 ≤ 2 := by omega
    simp only [ofDays, toDays, if_pos hspring, if_neg hlate, Int.add_sub_cancel]
    omega
  · have hearly : monthOfDay (n + epoch - daysToYear (yearOfDay (n + epoch))) - 9 ≤ 2 := by omega
    simp only [ofDays, toDays, if_neg hspring, if_pos hearly, Int.add_sub_cancel,
      Int.sub_add_cancel]
    omega

/-- Another day of the same month, also one past its ends. -/
theorem toDays_day (date : CivilDate) (day : Int) :
    toDays { date with day } = toDays date + (day - date.day) := by
  simp only [toDays]
  omega

end CivilDate

example : CivilDate.ofDays 19782 = ⟨2024, 2, 29⟩ := by decide

end MuditaOS.Lib
