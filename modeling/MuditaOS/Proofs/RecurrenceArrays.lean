import Mathlib.Data.List.Range
import MuditaOS.Utils.RRule

/-!
# Recurrence rules, there and back

The marker behind the elements is filled in up to `max_size - size` and not up to `max_size`.
Less than half of an array gets its marker, half of it is read on into the zeros behind it, and
for more than half of it the filling begins past its end and goes on through the memory.
-/

namespace MuditaOS.Utils

open IcalElement

variable {β : Type} [IcalElement β] {vect : List β} {array out : IcalArray} {value : Int16}
  {maxSize fuel : Nat}

/-! ## One array -/

@[simp] theorem IcalArray.store_written {i : Nat} :
    (array.store i value).written = array.written ++ [i] := rfl

@[simp] theorem IcalArray.store_memory_self {i : Nat} : (array.store i value).memory i = value :=
  Function.update_self ..

theorem IcalArray.store_memory_of_ne {i j : Nat} (hne : j ≠ i) :
    (array.store i value).memory j = array.memory j := Function.update_of_ne hne ..

theorem storeElements_written : ∀ (vect : List β) (array : IcalArray) (i : Nat),
    (storeElements array i vect).written = array.written ++ List.range' i vect.length
  | [], array, i => by simp [storeElements]
  | v :: vect, array, i => by
      rw [storeElements, storeElements_written vect, IcalArray.store_written, List.append_assoc,
        List.length_cons, List.range'_succ, List.singleton_append]

theorem storeElements_memory_of_lt : ∀ (vect : List β) (array : IcalArray) {i j : Nat}, j < i →
    (storeElements array i vect).memory j = array.memory j
  | [], _, _, _, _ => rfl
  | v :: vect, array, i, j, hlt => by
      rw [storeElements, storeElements_memory_of_lt vect _ (Nat.lt_succ_of_lt hlt)]
      exact IcalArray.store_memory_of_ne (by omega)

theorem storeElements_memory_of_ge : ∀ (vect : List β) (array : IcalArray) {i j : Nat},
    i + vect.length ≤ j → (storeElements array i vect).memory j = array.memory j
  | [], _, _, _, _ => rfl
  | v :: vect, array, i, j, hge => by
      rw [List.length_cons] at hge
      rw [storeElements, storeElements_memory_of_ge vect _ (by omega)]
      exact IcalArray.store_memory_of_ne (by omega)

theorem storeElements_memory : ∀ (vect : List β) (array : IcalArray) (i j : Nat)
    (hj : j < vect.length), (storeElements array i vect).memory (i + j) = toShort vect[j]
  | v :: vect, array, i, 0, _ => by
      rw [storeElements, storeElements_memory_of_lt vect _ (by omega)]
      exact IcalArray.store_memory_self
  | v :: vect, array, i, j + 1, hj => by
      have hrest : j < vect.length := Nat.lt_of_succ_lt_succ hj
      have hadd : i + (j + 1) = i + 1 + j := by omega
      rw [storeElements, hadd, storeElements_memory vect _ (i + 1) j hrest]
      rfl

/-- What is filled if the filling ends: it has not begun past `last`. -/
theorem fill_spec : ∀ {fuel first last : Nat} {array out : IcalArray},
    fill value fuel first last array = some out → first ≤ last ∧
      out.written = array.written ++ List.range' first (last - first) ∧
      (∀ j, first ≤ j → j < last → out.memory j = value) ∧
      ∀ j, j < first ∨ last ≤ j → out.memory j = array.memory j
  | fuel + 1, first, last, array, out, hsome => by
      by_cases heq : first = last
      · rw [fill, if_neg (not_not.mpr heq)] at hsome
        obtain rfl : array = out := Option.some.inj hsome
        subst heq
        exact ⟨le_rfl, by simp, fun j _ _ => by omega, fun _ _ => rfl⟩
      · rw [fill, if_pos heq] at hsome
        obtain ⟨hle, hwritten, hin, hoff⟩ := fill_spec hsome
        have hlength : last - first = last - (first + 1) + 1 := by omega
        refine ⟨by omega, ?_, ?_, ?_⟩
        · rw [hwritten, IcalArray.store_written, List.append_assoc, hlength, List.range'_succ,
            List.singleton_append]
        · intro j hfirst hlast
          rcases Nat.eq_or_lt_of_le hfirst with rfl | hlt
          · rw [hoff first (.inl (by omega)), IcalArray.store_memory_self]
          · exact hin j hlt hlast
        · intro j hj
          rw [hoff j (by omega), IcalArray.store_memory_of_ne (by omega)]

theorem fill_of_le : ∀ {fuel first last : Nat} {array : IcalArray}, first ≤ last →
    last - first < fuel → ∃ out, fill value fuel first last array = some out
  | fuel + 1, first, last, array, hle, hfuel => by
      by_cases heq : first = last
      · exact ⟨array, by rw [fill, if_neg (not_not.mpr heq)]⟩
      · rw [fill, if_pos heq]
        exact fill_of_le (by omega) (by omega)

/-- The elements are read up to the first marker, and no further than the array. -/
theorem readElements_iff : ∀ {vect : List β} {left i : Nat}, vect.length ≤ left →
    (∀ j (hj : j < vect.length), array.memory (i + j) = toShort vect[j]) →
      (readElements array left i = vect ↔ icalRecurrenceArrayMax ∉ vect.map toShort ∧
        (vect.length < left → array.memory (i + vect.length) = icalRecurrenceArrayMax))
  | [], 0, i, _, _ => by simp [readElements]
  | [], left + 1, i, _, _ => by
      by_cases hmarker : array.memory i = icalRecurrenceArrayMax <;>
        simp [readElements, hmarker]
  | v :: vect, left + 1, i, hle, hmem => by
      have hhead : array.memory i = toShort v := hmem 0 (Nat.zero_lt_succ _)
      have htail : ∀ j (hj : j < vect.length), array.memory (i + 1 + j) = toShort vect[j] := by
        intro j hj
        have hadd : i + 1 + j = i + (j + 1) := by omega
        rw [hadd, hmem (j + 1) (Nat.succ_lt_succ hj)]
        rfl
      by_cases hmarker : toShort v = icalRecurrenceArrayMax
      · rw [readElements, hhead, if_neg (not_not.mpr hmarker)]
        simp [hmarker]
      · have hadd : i + 1 + vect.length = i + (vect.length + 1) := by omega
        rw [readElements, hhead, if_pos hmarker, ofShort_toShort, List.cons.injEq,
          readElements_iff (Nat.le_of_succ_le_succ hle) htail, List.map_cons, List.mem_cons,
          not_or, hadd, List.length_cons, Nat.add_lt_add_iff_right]
        exact ⟨fun h => ⟨⟨Ne.symm hmarker, h.2.1⟩, h.2.2⟩, fun h => ⟨rfl, h.1.2, h.2⟩⟩

/-! ## A list in its array -/

/-- As `ICALRECURRENCETYPE_INITIALIZER` has it. -/
structure Initialised (array : IcalArray) (maxSize : Nat) : Prop where
  pos : 0 < maxSize
  marker : array.memory 0 = icalRecurrenceArrayMax
  zeros : ∀ i, 0 < i → i < maxSize → array.memory i = 0
  fresh : array.written = []

/-- The list comes to its end in the array, and back out of it. -/
def Kept (fuel : Nat) (vect : List β) (array : IcalArray) (maxSize : Nat) : Prop :=
  ∃ size out, vectorToIcalArray fuel vect array maxSize = some (size, out) ∧
    (∀ i ∈ out.written, i < maxSize) ∧ icalArrayToVector out maxSize = vect

/-- Less than half of the array is needed, and no element is the marker. -/
def LeavesRoom (vect : List β) (maxSize : Nat) : Prop :=
  2 * vect.length < maxSize ∧ icalRecurrenceArrayMax ∉ vect.map toShort

theorem vectorToIcalArray_spec {size : Nat} (hlen : vect.length ≤ maxSize)
    (hinit : Initialised array maxSize)
    (hsome : vectorToIcalArray fuel vect array maxSize = some (size, out)) :
    2 * vect.length ≤ maxSize ∧ (∀ i ∈ out.written, i < maxSize) ∧
      (∀ j (hj : j < vect.length), out.memory (0 + j) = toShort vect[j]) ∧
      ∀ j, vect.length ≤ j → j < maxSize → out.memory j =
        if j < maxSize - vect.length ∨ j = 0 then icalRecurrenceArrayMax else 0 := by
  rw [vectorToIcalArray, if_neg (by omega), Option.map_eq_some_iff] at hsome
  obtain ⟨filled, hfill, hpair⟩ := hsome
  obtain rfl : filled = out := congrArg Prod.snd hpair
  obtain ⟨hle, hwritten, hin, hoff⟩ := fill_spec hfill
  refine ⟨by omega, ?_, ?_, ?_⟩
  · intro i hi
    rw [hwritten, storeElements_written, hinit.fresh, List.nil_append, List.mem_append,
      List.mem_range'_1, List.mem_range'_1] at hi
    omega
  · intro j hj
    rw [hoff (0 + j) (.inl (by omega)), storeElements_memory vect array 0 j hj]
  · intro j hge hlt
    by_cases hfilled : j < maxSize - vect.length
    · rw [hin j hge hfilled, if_pos (.inl hfilled)]
    · have hpos : j ≠ 0 := by have := hinit.pos; omega
      rw [hoff j (.inr (by omega)), storeElements_memory_of_ge vect array (by omega),
        hinit.zeros j (by omega) hlt, if_neg (by omega)]

theorem leavesRoom_of_kept (hlen : vect.length ≤ maxSize) (hinit : Initialised array maxSize)
    (hkept : Kept fuel vect array maxSize) : LeavesRoom vect maxSize := by
  obtain ⟨size, out, hsome, _, hread⟩ := hkept
  obtain ⟨hhalf, _, hmem, hrest⟩ := vectorToIcalArray_spec hlen hinit hsome
  obtain ⟨hmarker, hstop⟩ := (readElements_iff hlen hmem).mp hread
  refine ⟨Nat.lt_of_le_of_ne hhalf fun heq => ?_, hmarker⟩
  -- exactly half: the element behind the last one is still zero
  have hpos := hinit.pos
  have hzero := hrest vect.length le_rfl (by omega)
  have hat := hstop (by omega)
  rw [if_neg (by omega)] at hzero
  rw [Nat.zero_add, hzero] at hat
  exact absurd hat (by decide)

theorem kept_of_leavesRoom (hinit : Initialised array maxSize) (hfuel : maxSize < fuel)
    (hroom : LeavesRoom vect maxSize) : Kept fuel vect array maxSize := by
  obtain ⟨hhalf, hmarker⟩ := hroom
  have hlen : vect.length ≤ maxSize := by omega
  have hfill : ∃ out, fill icalRecurrenceArrayMax fuel vect.length (maxSize - vect.length)
      (storeElements array 0 vect) = some out := fill_of_le (by omega) (by omega)
  obtain ⟨out, hout⟩ := hfill
  have hsome : vectorToIcalArray fuel vect array maxSize = some (vect.length, out) := by
    rw [vectorToIcalArray, if_neg (by omega), hout, Option.map_some]
  obtain ⟨_, hwritten, hmem, hrest⟩ := vectorToIcalArray_spec hlen hinit hsome
  refine ⟨vect.length, out, hsome, hwritten, (readElements_iff hlen hmem).mpr
    ⟨hmarker, fun _ => ?_⟩⟩
  rw [Nat.zero_add, hrest _ le_rfl (by omega), if_pos (.inl (by omega))]

/-! ## All nine -/

/-- Of every list of a rule, with its array and the size of it. -/
structure OfEach (P : (β : Type) → [IcalElement β] → List β → IcalArray → Nat → Prop)
    (sizes : IcalSizes) (rrule : RRule) (icalRrule : IcalRecurrenceType) : Prop where
  bySecond : P UInt8 rrule.bySecond icalRrule.bySecond sizes.bySecond
  byMinute : P UInt8 rrule.byMinute icalRrule.byMinute sizes.byMinute
  byHour : P UInt8 rrule.byHour icalRrule.byHour sizes.byHour
  byDay : P UInt8 rrule.byDay icalRrule.byDay sizes.byDay
  byMonthDay : P UInt8 rrule.byMonthDay icalRrule.byMonthDay sizes.byMonthDay
  byYearDay : P UInt16 rrule.byYearDay icalRrule.byYearDay sizes.byYearDay
  byWeekNo : P UInt8 rrule.byWeekNo icalRrule.byWeekNo sizes.byWeekNo
  byMonth : P UInt8 rrule.byMonth icalRrule.byMonth sizes.byMonth
  bySetPos : P UInt16 rrule.bySetPos icalRrule.bySetPos sizes.bySetPos

section

variable {P Q R : (β : Type) → [IcalElement β] → List β → IcalArray → Nat → Prop}
  {sizes : IcalSizes} {rrule : RRule} {icalRrule result : IcalRecurrenceType}

theorem OfEach.imp₂ (himp : ∀ (β : Type) [IcalElement β] (vect : List β) (array : IcalArray)
      (maxSize : Nat), P β vect array maxSize → Q β vect array maxSize → R β vect array maxSize)
    (hP : OfEach P sizes rrule icalRrule) (hQ : OfEach Q sizes rrule icalRrule) :
    OfEach R sizes rrule icalRrule where
  bySecond := himp _ _ _ _ hP.bySecond hQ.bySecond
  byMinute := himp _ _ _ _ hP.byMinute hQ.byMinute
  byHour := himp _ _ _ _ hP.byHour hQ.byHour
  byDay := himp _ _ _ _ hP.byDay hQ.byDay
  byMonthDay := himp _ _ _ _ hP.byMonthDay hQ.byMonthDay
  byYearDay := himp _ _ _ _ hP.byYearDay hQ.byYearDay
  byWeekNo := himp _ _ _ _ hP.byWeekNo hQ.byWeekNo
  byMonth := himp _ _ _ _ hP.byMonth hQ.byMonth
  bySetPos := himp _ _ _ _ hP.bySetPos hQ.bySetPos

variable (sizes rrule icalRrule) in
/-- No list is longer than its array, and the arrays are those of a new record. -/
def FitsNew : Prop :=
  OfEach (fun _ _ vect array maxSize => vect.length ≤ maxSize ∧ Initialised array maxSize)
    sizes rrule icalRrule

variable (sizes rrule icalRrule) in
/-- The conversion ends and has written in the arrays only, and read back the rule is the
same. -/
def Survives : Prop :=
  ∃ fuel result, rruleToIcalRecurrenceType sizes fuel rrule icalRrule = some result ∧
    OfEach (fun _ _ _ array maxSize => ∀ i ∈ array.written, i < maxSize) sizes rrule result ∧
    rruleOfIcalRecurrenceType sizes result = rrule

theorem survives_of_kept (hkept : OfEach (fun _ _ => Kept fuel) sizes rrule icalRrule) :
    Survives sizes rrule icalRrule := by
  obtain ⟨⟨_, bySecond, h1, i1, r1⟩, ⟨_, byMinute, h2, i2, r2⟩, ⟨_, byHour, h3, i3, r3⟩,
    ⟨_, byDay, h4, i4, r4⟩, ⟨_, byMonthDay, h5, i5, r5⟩, ⟨_, byYearDay, h6, i6, r6⟩,
    ⟨_, byWeekNo, h7, i7, r7⟩, ⟨_, byMonth, h8, i8, r8⟩, ⟨_, bySetPos, h9, i9, r9⟩⟩ := hkept
  have hsome : rruleToIcalRecurrenceType sizes fuel rrule icalRrule = some
      ⟨rrule.freq, rrule.count.toInt32, rrule.interval.toInt16, rrule.weekStart, bySecond,
        byMinute, byHour, byDay, byMonthDay, byYearDay, byWeekNo, byMonth, bySetPos⟩ := by
    simp only [rruleToIcalRecurrenceType, h1, h2, h3, h4, h5, h6, h7, h8, h9]
    rfl
  refine ⟨fuel, _, hsome, ⟨i1, i2, i3, i4, i5, i6, i7, i8, i9⟩, ?_⟩
  simp only [rruleOfIcalRecurrenceType, r1, r2, r3, r4, r5, r6, r7, r8, r9,
    UInt32.toUInt32_toInt32, UInt16.toUInt16_toInt16]

theorem kept_of_survives (hsurvives : Survives sizes rrule icalRrule) :
    ∃ fuel, OfEach (fun _ _ => Kept fuel) sizes rrule icalRrule := by
  obtain ⟨fuel, result, hsome, hinside, hback⟩ := hsurvives
  simp only [rruleToIcalRecurrenceType, Option.bind_eq_bind, Option.bind_eq_some_iff] at hsome
  obtain ⟨⟨_, bySecond⟩, h1, ⟨_, byMinute⟩, h2, ⟨_, byHour⟩, h3, ⟨_, byDay⟩, h4,
    ⟨_, byMonthDay⟩, h5, ⟨_, byYearDay⟩, h6, ⟨_, byWeekNo⟩, h7, ⟨_, byMonth⟩, h8,
    ⟨_, bySetPos⟩, h9, hresult⟩ := hsome
  obtain rfl := Option.some.inj hresult
  have hlist : ∀ {γ : Type} (f : RRule → γ), f (rruleOfIcalRecurrenceType sizes _) = f rrule :=
    fun f => congrArg f hback
  exact ⟨fuel, {
    bySecond := ⟨_, _, h1, hinside.bySecond, hlist (·.bySecond)⟩
    byMinute := ⟨_, _, h2, hinside.byMinute, hlist (·.byMinute)⟩
    byHour := ⟨_, _, h3, hinside.byHour, hlist (·.byHour)⟩
    byDay := ⟨_, _, h4, hinside.byDay, hlist (·.byDay)⟩
    byMonthDay := ⟨_, _, h5, hinside.byMonthDay, hlist (·.byMonthDay)⟩
    byYearDay := ⟨_, _, h6, hinside.byYearDay, hlist (·.byYearDay)⟩
    byWeekNo := ⟨_, _, h7, hinside.byWeekNo, hlist (·.byWeekNo)⟩
    byMonth := ⟨_, _, h8, hinside.byMonth, hlist (·.byMonth)⟩
    bySetPos := ⟨_, _, h9, hinside.bySetPos, hlist (·.bySetPos)⟩ }⟩

variable (sizes rrule icalRrule) in
theorem exists_fuel :
    ∃ fuel, OfEach (fun _ _ _ _ maxSize => maxSize < fuel) sizes rrule icalRrule := by
  refine ⟨sizes.bySecond + sizes.byMinute + sizes.byHour + sizes.byDay + sizes.byMonthDay +
    sizes.byYearDay + sizes.byWeekNo + sizes.byMonth + sizes.bySetPos + 1, ?_⟩
  constructor <;> omega

/-- A rule survives exactly if every list of it needs less than half of its array. -/
theorem rrule_survives_iff (hnew : FitsNew sizes rrule icalRrule) :
    Survives sizes rrule icalRrule ↔
      OfEach (fun _ _ vect _ maxSize => LeavesRoom vect maxSize) sizes rrule icalRrule := by
  constructor
  · intro hsurvives
    obtain ⟨fuel, hkept⟩ := kept_of_survives hsurvives
    exact hnew.imp₂ (fun _ _ _ _ _ hfits => leavesRoom_of_kept hfits.1 hfits.2) hkept
  · intro hroom
    obtain ⟨fuel, hfuel⟩ := exists_fuel sizes rrule icalRrule
    have hinit := hnew.imp₂ (fun _ _ _ _ _ hfits hlt => And.intro hfits.2 hlt) hfuel
    exact survives_of_kept
      (hinit.imp₂ (fun _ _ _ _ _ hinit hroom => kept_of_leavesRoom hinit.1 hinit.2 hroom) hroom)

end

/-! ## Months of the year -/

/-- The arrays of a new record. -/
def newArray : IcalArray where
  memory i := if i = 0 then icalRecurrenceArrayMax else 0

theorem newArray_initialised (hpos : 0 < maxSize) : Initialised newArray maxSize where
  pos := hpos
  marker := rfl
  zeros i hi _ := if_neg (by omega)
  fresh := rfl

/-- There is a place for every value that a list may name, and one for the marker. -/
def roomySizes : IcalSizes where
  bySecond := 62
  byMinute := 61
  byHour := 25
  byDay := 386
  byMonthDay := 32
  byYearDay := 386
  byWeekNo := 56
  byMonth := 14
  bySetPos := 386

def newRrule : IcalRecurrenceType where
  freq := .NO_RECURRENCE
  count := 0
  interval := 1
  weekStart := .MONDAY_WEEKDAY
  bySecond := newArray
  byMinute := newArray
  byHour := newArray
  byDay := newArray
  byMonthDay := newArray
  byYearDay := newArray
  byWeekNo := newArray
  byMonth := newArray
  bySetPos := newArray

/-- The first of the month, in these months. -/
def firstOfMonths (byMonth : List UInt8) : RRule where
  freq := .MONTHLY_RECURRENCE
  interval := 1
  byMonthDay := [1]
  byMonth := byMonth

theorem firstOfMonths_fitsNew {byMonth : List UInt8} (hlen : byMonth.length ≤ 14) :
    FitsNew roomySizes (firstOfMonths byMonth) newRrule := by
  constructor <;> exact ⟨by simp [firstOfMonths, roomySizes, hlen],
    newArray_initialised (by decide)⟩

theorem three_months_survive :
    Survives roomySizes (firstOfMonths [3, 6, 9]) newRrule :=
  (rrule_survives_iff (firstOfMonths_fitsNew (by decide))).mpr
    (by constructor <;> exact ⟨by decide, by decide⟩)

/-- Eight months of the twelve fit into the array, and the conversion does not end. -/
theorem eight_months_lost :
    FitsNew roomySizes (firstOfMonths [1, 2, 3, 4, 5, 6, 7, 8]) newRrule ∧
      ¬ Survives roomySizes (firstOfMonths [1, 2, 3, 4, 5, 6, 7, 8]) newRrule := by
  have hnew : FitsNew roomySizes (firstOfMonths [1, 2, 3, 4, 5, 6, 7, 8]) newRrule :=
    firstOfMonths_fitsNew (by decide)
  refine ⟨hnew, fun hsurvives => ?_⟩
  obtain ⟨fuel, hkept⟩ := kept_of_survives hsurvives
  have hhalf : 2 * 8 < 14 := (leavesRoom_of_kept hnew.byMonth.1 hnew.byMonth.2 hkept.byMonth).1
  exact absurd hhalf (by decide)

end MuditaOS.Utils
