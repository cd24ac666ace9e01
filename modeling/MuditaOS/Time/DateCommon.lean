import MuditaOS.Time.AlarmOperations

/-!
# Time points of the clock

The arithmetic of `dateCommon.hpp` as the clock has it, in nanoseconds on 64 bits. A step that
does not fit there is undefined, and has no result here.
-/

namespace MuditaOS.Alarms

/-- The values of the clock's type. -/
def OnClock (ticks : Int) : Prop := -9223372036854775808 ≤ ticks ∧ ticks ≤ 9223372036854775807

instance (ticks : Int) : Decidable (OnClock ticks) :=
  inferInstanceAs (Decidable (_ ∧ _))

def onClock (ticks : Int) : Option Int := if OnClock ticks then some ticks else none

/-- `GetFollowingDayTime`, every step of it on the clock. -/
def GetFollowingDayTimeOnClock (tp relativeTime : TimePoint) : Option TimePoint := do
  let diff ← onClock (relativeTime - tp)
  if diff > hours 0 then
    let ceil ← onClock (days (-(-diff / days 1)))
    onClock (tp + ceil)
  else if diff = hours 0 then onClock (tp + days 1)
  else
    -- `diff` is negative, `abs` is its negation
    let abs ← onClock (-diff)
    if abs > hours 24 then onClock (tp - days (abs / days 1))
    else some tp

/-! ## The first day of the week -/

structure YearMonthDay where
  year : Int16
  month : UInt8
  day : UInt8
  deriving DecidableEq, Repr

/-- `date::floor<date::days>`. -/
def dayOf (tp : TimePoint) : Int := tp / days 1

/-- The civil dates of the date library, which is not in the repository: `year_month_day` of a
day, and `sys_days` of a date. A day of a month may be one past its ends. -/
structure CivilDates where
  ofDays : Int → YearMonthDay
  toDays : YearMonthDay → Int
  toDays_day : ∀ tp (day : UInt8), OnClock tp → toDays { ofDays (dayOf tp) with day } =
    dayOf tp + (day.toNat - (ofDays (dayOf tp)).day.toNat)

/-- `date::weekday`, by its encoding: the epoch was a Thursday. -/
def weekday (n : Int) : Int := (n + 4) % 7

def mon : Int := 1

namespace CivilDates

variable (dates : CivilDates)

/-- The loop of `getFirstWeekDay`, on fuel. The day wraps, and the month stays what it was. -/
def toMonday : Nat → YearMonthDay → Option YearMonthDay
  | 0, _ => none
  | fuel + 1, yearMonthDay =>
      if weekday (dates.toDays yearMonthDay) ≠ mon then
        toMonday fuel { yearMonthDay with day := yearMonthDay.day - 1 }
      else some yearMonthDay

def getFirstWeekDay (fuel : Nat) (tp : TimePoint) : Option TimePoint := do
  let dp ← onClock (days (dayOf tp))
  let time ← onClock (tp - dp)
  let yearMonthDay ← dates.toMonday fuel (dates.ofDays (dayOf tp))
  onClock (days (dates.toDays yearMonthDay) + hours (time / hours 1) +
    minutes (time % hours 1 / minutes 1))

end CivilDates

end MuditaOS.Alarms
