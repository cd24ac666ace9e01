import Mathlib.Data.List.Basic

/-!
# Recurrence rules

A transcription of the conversion to libical in `rrule.cpp`. libical is not in the
repository: the sizes of its arrays are a parameter, the marker behind their last element is
`ICAL_RECURRENCE_ARRAY_MAX`. The end of a rule, `until`, goes through the times of that
library and is left out.
-/

namespace MuditaOS.Utils

/-- `ICAL_RECURRENCE_ARRAY_MAX`. -/
def icalRecurrenceArrayMax : Int16 := 0x7F7F

/-- An array of the library with the memory behind it, and the places that were written. -/
structure IcalArray where
  memory : Nat → Int16
  written : List Nat := []

def IcalArray.store (array : IcalArray) (i : Nat) (value : Int16) : IcalArray where
  memory := Function.update array.memory i value
  written := array.written ++ [i]

/-- How the elements of a list are kept in an array. -/
class IcalElement (β : Type) where
  toShort : β → Int16
  ofShort : Int16 → β
  ofShort_toShort : ∀ v, ofShort (toShort v) = v

instance : IcalElement UInt8 where
  toShort v := v.toUInt16.toInt16
  ofShort v := v.toUInt16.toUInt8
  ofShort_toShort v := by rw [UInt16.toUInt16_toInt16, UInt8.toUInt8_toUInt16]

instance : IcalElement UInt16 where
  toShort v := v.toInt16
  ofShort v := v.toUInt16
  ofShort_toShort := UInt16.toUInt16_toInt16

section

variable {β : Type} [IcalElement β]

open IcalElement

/-- The loop from element `i` on, of which so many are left. -/
def readElements (array : IcalArray) : Nat → Nat → List β
  | 0, _ => []
  | left + 1, i =>
      if array.memory i ≠ icalRecurrenceArrayMax then
        ofShort (array.memory i) :: readElements array left (i + 1)
      else []

def icalArrayToVector (array : IcalArray) (maxSize : Nat) : List β := readElements array maxSize 0

def storeElements (array : IcalArray) : Nat → List β → IcalArray
  | _, [] => array
  | i, v :: vect => storeElements (array.store i (toShort v)) (i + 1) vect

/-- `std::fill`, which looks whether it has come to `last` and not whether it is past it: on a
fuel of one unit an element, with no result where that is used up. -/
def fill (value : Int16) : Nat → Nat → Nat → IcalArray → Option IcalArray
  | 0, _, _, _ => none
  | fuel + 1, first, last, array =>
      if first ≠ last then fill value fuel (first + 1) last (array.store first value)
      else some array

def vectorToIcalArray (fuel : Nat) (vect : List β) (array : IcalArray) (maxSize : Nat) :
    Option (Nat × IcalArray) :=
  if vect.length > maxSize then some (0, array)
  else
    (fill icalRecurrenceArrayMax fuel vect.length (maxSize - vect.length)
      (storeElements array 0 vect)).map fun array => (vect.length, array)

end

/-! ## Rules -/

inductive RRuleFrequency where
  | SECONDLY_RECURRENCE
  | MINUTELY_RECURRENCE
  | HOURLY_RECURRENCE
  | DAILY_RECURRENCE
  | WEEKLY_RECURRENCE
  | MONTHLY_RECURRENCE
  | YEARLY_RECURRENCE
  | NO_RECURRENCE
  deriving DecidableEq, Repr

inductive RRuleWeekday where
  | NO_WEEKDAY
  | SUNDAY_WEEKDAY
  | MONDAY_WEEKDAY
  | TUESDAY_WEEKDAY
  | WEDNESDAY_WEEKDAY
  | THURSDAY_WEEKDAY
  | FRIDAY_WEEKDAY
  | SATURDAY_WEEKDAY
  deriving DecidableEq, Repr

structure RRule where
  freq : RRuleFrequency := .NO_RECURRENCE
  count : UInt32 := 0
  interval : UInt16 := 0
  weekStart : RRuleWeekday := .NO_WEEKDAY
  bySecond : List UInt8 := []
  byMinute : List UInt8 := []
  byHour : List UInt8 := []
  byDay : List UInt8 := []
  byMonthDay : List UInt8 := []
  byYearDay : List UInt16 := []
  byWeekNo : List UInt8 := []
  byMonth : List UInt8 := []
  bySetPos : List UInt16 := []
  deriving DecidableEq, Repr

/-- `ICAL_BY_SECOND_SIZE` and so on. -/
structure IcalSizes where
  bySecond : Nat
  byMinute : Nat
  byHour : Nat
  byDay : Nat
  byMonthDay : Nat
  byYearDay : Nat
  byWeekNo : Nat
  byMonth : Nat
  bySetPos : Nat

/-- The enumerations of the library have the names of ours. -/
structure IcalRecurrenceType where
  freq : RRuleFrequency
  count : Int32
  interval : Int16
  weekStart : RRuleWeekday
  bySecond : IcalArray
  byMinute : IcalArray
  byHour : IcalArray
  byDay : IcalArray
  byMonthDay : IcalArray
  byYearDay : IcalArray
  byWeekNo : IcalArray
  byMonth : IcalArray
  bySetPos : IcalArray

/-- The conversion, into a record that `ICALRECURRENCETYPE_INITIALIZER` has made. -/
def rruleToIcalRecurrenceType (sizes : IcalSizes) (fuel : Nat) (rrule : RRule)
    (icalRrule : IcalRecurrenceType) : Option IcalRecurrenceType := do
  let (_, bySecond) ← vectorToIcalArray fuel rrule.bySecond icalRrule.bySecond sizes.bySecond
  let (_, byMinute) ← vectorToIcalArray fuel rrule.byMinute icalRrule.byMinute sizes.byMinute
  let (_, byHour) ← vectorToIcalArray fuel rrule.byHour icalRrule.byHour sizes.byHour
  let (_, byDay) ← vectorToIcalArray fuel rrule.byDay icalRrule.byDay sizes.byDay
  let (_, byMonthDay) ←
    vectorToIcalArray fuel rrule.byMonthDay icalRrule.byMonthDay sizes.byMonthDay
  let (_, byYearDay) ← vectorToIcalArray fuel rrule.byYearDay icalRrule.byYearDay sizes.byYearDay
  let (_, byWeekNo) ← vectorToIcalArray fuel rrule.byWeekNo icalRrule.byWeekNo sizes.byWeekNo
  let (_, byMonth) ← vectorToIcalArray fuel rrule.byMonth icalRrule.byMonth sizes.byMonth
  let (_, bySetPos) ← vectorToIcalArray fuel rrule.bySetPos icalRrule.bySetPos sizes.bySetPos
  return {
    freq := rrule.freq
    count := rrule.count.toInt32
    interval := rrule.interval.toInt16
    weekStart := rrule.weekStart
    bySecond, byMinute, byHour, byDay, byMonthDay, byYearDay, byWeekNo, byMonth, bySetPos }

/-- The part of `parseFromString` behind the parser of the library. -/
def rruleOfIcalRecurrenceType (sizes : IcalSizes) (icalRrule : IcalRecurrenceType) : RRule where
  freq := icalRrule.freq
  count := icalRrule.count.toUInt32
  interval := icalRrule.interval.toUInt16
  weekStart := icalRrule.weekStart
  bySecond := icalArrayToVector icalRrule.bySecond sizes.bySecond
  byMinute := icalArrayToVector icalRrule.byMinute sizes.byMinute
  byHour := icalArrayToVector icalRrule.byHour sizes.byHour
  byDay := icalArrayToVector icalRrule.byDay sizes.byDay
  byMonthDay := icalArrayToVector icalRrule.byMonthDay sizes.byMonthDay
  byYearDay := icalArrayToVector icalRrule.byYearDay sizes.byYearDay
  byWeekNo := icalArrayToVector icalRrule.byWeekNo sizes.byWeekNo
  byMonth := icalArrayToVector icalRrule.byMonth sizes.byMonth
  bySetPos := icalArrayToVector icalRrule.bySetPos sizes.bySetPos

end MuditaOS.Utils
