import MuditaOS.Lib.Replace
import MuditaOS.Utils.Strings

/-!
# Search and replace in one pass

The loop searches from the start of the string it has rebuilt. It makes one pass where no
occurrence comes up that a replacement has a part in, or where such a one is as good as the next
one of the pass. A replacement that contains its pattern is never done. The numbers that are
asked for count the patterns that are not empty.
-/

namespace MuditaOS.Utils

open MuditaOS.Lib

variable {toSearch data replaceStr out : List UInt8} {second : Option (List UInt8)}
  {getReplaceString : Option (Nat → List UInt8)} {values : List ReplaceValue}
  {fuel more position valIdx : Nat} {calls : List Nat}

/-- What a pattern at this position is to be replaced by. -/
def replacement (second : Option (List UInt8)) (getReplaceString : Option (Nat → List UInt8))
    (position : Nat) : List UInt8 :=
  match second, getReplaceString with
  | some replacement, _ => replacement
  | none, some getReplaceString => getReplaceString position
  | none, none => []

/-! ## One pattern -/

theorem nextReplaceStr_fst (hstr : replaceStr = [] ∨
      replaceStr = replacement second getReplaceString valIdx) :
    (nextReplaceStr second getReplaceString valIdx replaceStr).1 =
      replacement second getReplaceString valIdx := by
  cases replaceStr with
  | nil =>
      cases second with
      | some replacement => rfl
      | none => cases getReplaceString <;> rfl
  | cons b bs => exact hstr.resolve_left (List.cons_ne_nil b bs)

theorem nextReplaceStr_snd : (nextReplaceStr second getReplaceString valIdx replaceStr).2 = [] ∨
    (nextReplaceStr second getReplaceString valIdx replaceStr).2 = [valIdx] ∧ second = none ∧
      getReplaceString.isSome = true := by
  cases replaceStr with
  | nil =>
      cases second with
      | some replacement => exact .inl rfl
      | none =>
          cases getReplaceString with
          | some getReplaceString => exact .inr ⟨rfl, rfl, rfl⟩
          | none => exact .inl rfl
  | cons b bs => exact .inl rfl

theorem replaceLoop_none (hfind : find toSearch data 0 = none) :
    replaceLoop toSearch second getReplaceString valIdx (fuel + 1) replaceStr data =
      some (data, []) := by
  rw [replaceLoop, hfind]

theorem replaceLoop_some {foundPos : Nat} {next : List UInt8 × List Nat}
    (hfind : find toSearch data 0 = some foundPos)
    (hnext : nextReplaceStr second getReplaceString valIdx replaceStr = next) :
    replaceLoop toSearch second getReplaceString valIdx (fuel + 1) replaceStr data =
      (replaceLoop toSearch second getReplaceString valIdx fuel next.1
        (data.take foundPos ++ next.1 ++ data.drop (foundPos + toSearch.length))).map
        fun result => (result.1, next.2 ++ result.2) := by
  rw [replaceLoop, hfind, ← hnext]

/-- The loop is the rewriting with the one replacement, however often it is looked for. -/
theorem replaceLoop_fst : ∀ {fuel : Nat} {replaceStr data : List UInt8}, (replaceStr = [] ∨
      replaceStr = replacement second getReplaceString valIdx) →
    (replaceLoop toSearch second getReplaceString valIdx fuel replaceStr data).map Prod.fst =
      rewrite toSearch (replacement second getReplaceString valIdx) fuel data
  | 0, _, _, _ => rfl
  | fuel + 1, replaceStr, data, hstr => by
      cases hfind : find toSearch data 0 with
      | none =>
          rw [replaceLoop_none hfind, rewrite, replaceFirst_eq_none_iff.mpr hfind]
          rfl
      | some foundPos =>
          have hnext := nextReplaceStr_fst hstr
          have hfirst : replaceFirst toSearch (replacement second getReplaceString valIdx) data =
              some (data.take foundPos ++ replacement second getReplaceString valIdx ++
                data.drop (foundPos + toSearch.length)) := by
            rw [replaceFirst, hfind, Option.map_some]
          rw [replaceLoop_some hfind rfl, Option.map_map, rewrite_of_some hfirst, hnext,
            ← replaceLoop_fst (.inr rfl)]
          rfl

/-- It asks for the pattern's number, where the pattern is found and has no replacement. -/
theorem replaceLoop_snd : ∀ {fuel : Nat} {replaceStr data out : List UInt8} {calls : List Nat},
    replaceLoop toSearch second getReplaceString valIdx fuel replaceStr data = some (out, calls) →
    ∀ n ∈ calls, n = valIdx ∧ second = none ∧ getReplaceString.isSome = true ∧
      toSearch <:+: data
  | fuel + 1, replaceStr, data, out, calls, hsome => by
      intro n hn
      cases hfind : find toSearch data 0 with
      | none =>
          rw [replaceLoop_none hfind] at hsome
          obtain rfl : [] = calls := congrArg Prod.snd (Option.some.inj hsome)
          exact nomatch hn
      | some foundPos =>
          have hoccurs : toSearch <:+: data := by
            by_contra hnot
            rw [find_eq_none_iff.mpr hnot] at hfind
            exact nomatch hfind
          rw [replaceLoop_some hfind rfl] at hsome
          obtain ⟨⟨data', more⟩, hrest, hpair⟩ := Option.map_eq_some_iff.mp hsome
          have hcalls : (nextReplaceStr second getReplaceString valIdx replaceStr).2 ++ more =
              calls := congrArg Prod.snd hpair
          rw [← hcalls, List.mem_append] at hn
          rcases hn with hhere | hlater
          · rcases @nextReplaceStr_snd replaceStr second getReplaceString valIdx with hnone | hasked
            · rw [hnone] at hhere
              exact nomatch hhere
            · rw [hasked.1, List.mem_singleton] at hhere
              exact ⟨hhere, hasked.2.1, hasked.2.2, hoccurs⟩
          · obtain ⟨heq, hsecond, hget, _⟩ := replaceLoop_snd hrest n hlater
            exact ⟨heq, hsecond, hget, hoccurs⟩

theorem replaceLoop_mono : ∀ {fuel more : Nat} {replaceStr data : List UInt8}
    {result : List UInt8 × List Nat}, fuel ≤ more →
    replaceLoop toSearch second getReplaceString valIdx fuel replaceStr data = some result →
    replaceLoop toSearch second getReplaceString valIdx more replaceStr data = some result
  | fuel + 1, more + 1, replaceStr, data, result, hle, hsome => by
      cases hfind : find toSearch data 0 with
      | none =>
          rw [replaceLoop_none hfind] at hsome ⊢
          exact hsome
      | some foundPos =>
          rw [replaceLoop_some hfind rfl] at hsome ⊢
          obtain ⟨last, hrest, rfl⟩ := Option.map_eq_some_iff.mp hsome
          exact Option.map_eq_some_iff.mpr
            ⟨last, replaceLoop_mono (Nat.le_of_succ_le_succ hle) hrest, rfl⟩

/-! ## The list -/

/-- One pass for each pattern, with the replacement for its position in the list. -/
def passFrom (getReplaceString : Option (Nat → List UInt8)) :
    Nat → List ReplaceValue → List UInt8 → List UInt8
  | _, [], data => data
  | position, (toSearch, second) :: values, data =>
      passFrom getReplaceString (position + 1) values
        (if toSearch.isEmpty then data
          else replacePass toSearch (replacement second getReplaceString position) 0 data)

/-- What the passes meet: each settled, and the number that is asked for the position. -/
def Settled (getReplaceString : Option (Nat → List UInt8)) :
    (position valIdx : Nat) → List ReplaceValue → List UInt8 → Prop
  | _, _, [], _ => True
  | position, valIdx, (toSearch, second) :: values, data =>
      if toSearch.isEmpty then Settled getReplaceString (position + 1) valIdx values data
      else
        let rep := replacement second getReplaceString position
        settled toSearch rep [] 0 data = true ∧
          (second = none → getReplaceString.isSome = true → toSearch <:+: data →
            valIdx = position) ∧
          Settled getReplaceString (position + 1) (valIdx + 1) values
            (replacePass toSearch rep 0 data)

theorem Settled.cons (hne : toSearch ≠ [])
    (hhere : settled toSearch (replacement second getReplaceString position) [] 0 data = true)
    (hasked : second = none → getReplaceString.isSome = true → toSearch <:+: data →
      valIdx = position)
    (hrest : Settled getReplaceString (position + 1) (valIdx + 1) values
      (replacePass toSearch (replacement second getReplaceString position) 0 data)) :
    Settled getReplaceString position valIdx ((toSearch, second) :: values) data := by
  rw [Settled, if_neg fun hempty => hne (List.isEmpty_iff.mp hempty)]
  exact ⟨hhere, hasked, hrest⟩

/-- The calls for each pattern are with its position. -/
def Positions (position : Nat) (calls : List (List Nat)) : Prop :=
  ∀ i here, calls[i]? = some here → ∀ n ∈ here, n = position + i

theorem replaceLoop_of_settled (hne : toSearch ≠ [])
    (hsettled : settled toSearch (replacement second getReplaceString position) [] 0 data = true)
    (hasked : second = none → getReplaceString.isSome = true → toSearch <:+: data →
      valIdx = position) :
    ∃ fuel calls, replaceLoop toSearch second getReplaceString valIdx fuel [] data =
      some (replacePass toSearch (replacement second getReplaceString position) 0 data, calls) ∧
        ∀ n ∈ calls, n = position := by
  by_cases hoccurs : toSearch <:+: data
  · have hrep : replacement second getReplaceString valIdx =
        replacement second getReplaceString position := by
      cases second with
      | some own => rfl
      | none =>
          cases getReplaceString with
          | some getReplaceString => rw [hasked rfl rfl hoccurs]
          | none => rfl
    obtain ⟨fuel, hfuel⟩ := rewrite_of_settled hne hsettled
    rw [List.drop_zero, List.nil_append, List.nil_append, ← hrep,
      ← replaceLoop_fst (.inl rfl), Option.map_eq_some_iff] at hfuel
    obtain ⟨⟨out, calls⟩, hsome, rfl⟩ := hfuel
    refine ⟨fuel, calls, hsome.trans (by rw [hrep]), fun n hn => ?_⟩
    obtain ⟨heq, hsecond, hget, _⟩ := replaceLoop_snd hsome n hn
    rw [heq, hasked hsecond hget hoccurs]
  · rw [replacePass_of_absent hoccurs]
    exact ⟨1, [], replaceLoop_none (find_eq_none_iff.mpr hoccurs), fun n hn => nomatch hn⟩

theorem Positions.cons {here : List Nat} {calls : List (List Nat)}
    (hhere : ∀ n ∈ here, n = position) (hcalls : Positions (position + 1) calls) :
    Positions position (here :: calls) := by
  intro i numbers hi n hn
  cases i with
  | zero =>
      obtain rfl : here = numbers := Option.some.inj hi
      exact hhere n hn
  | succ i =>
      have hlater := hcalls i numbers hi n hn
      omega

theorem findAndReplaceFrom_mono : ∀ {values : List ReplaceValue} {valIdx : Nat}
    {data : List UInt8} {result : List UInt8 × List (List Nat)}, fuel ≤ more →
    findAndReplaceFrom fuel getReplaceString valIdx values data = some result →
    findAndReplaceFrom more getReplaceString valIdx values data = some result
  | [], _, _, _, _, hsome => hsome
  | (toSearch, second) :: values, valIdx, data, result, hle, hsome => by
      rw [findAndReplaceFrom] at hsome ⊢
      split at hsome
      · rename_i hempty
        rw [if_pos hempty]
        obtain ⟨last, hrest, rfl⟩ := Option.map_eq_some_iff.mp hsome
        exact Option.map_eq_some_iff.mpr ⟨last, findAndReplaceFrom_mono hle hrest, rfl⟩
      · rename_i hempty
        rw [if_neg hempty]
        obtain ⟨here, hloop, hsome⟩ := Option.bind_eq_some_iff.mp hsome
        obtain ⟨last, hrest, hlast⟩ := Option.bind_eq_some_iff.mp hsome
        exact Option.bind_eq_some_iff.mpr ⟨here, replaceLoop_mono hle hloop,
          Option.bind_eq_some_iff.mpr ⟨last, findAndReplaceFrom_mono hle hrest, hlast⟩⟩

theorem findAndReplaceFrom_of_settled : ∀ {values : List ReplaceValue} {position valIdx : Nat}
    {data : List UInt8}, Settled getReplaceString position valIdx values data →
    ∃ fuel calls, findAndReplaceFrom fuel getReplaceString valIdx values data =
      some (passFrom getReplaceString position values data, calls) ∧ Positions position calls
  | [], position, valIdx, data, _ => ⟨0, [], rfl, fun i here hi => nomatch hi⟩
  | (toSearch, second) :: values, position, valIdx, data, hsettled => by
      rw [Settled] at hsettled
      split at hsettled
      · rename_i hempty
        obtain ⟨fuel, calls, hsome, hcalls⟩ := findAndReplaceFrom_of_settled hsettled
        refine ⟨fuel, [] :: calls, ?_, hcalls.cons fun n hn => nomatch hn⟩
        rw [findAndReplaceFrom, if_pos hempty, hsome, passFrom, if_pos hempty]
        rfl
      · rename_i hempty
        obtain ⟨hhere, hasked, hrest⟩ := hsettled
        have hne : toSearch ≠ [] := fun hnil => hempty (List.isEmpty_iff.mpr hnil)
        obtain ⟨fuel, here, hloop, hnumbers⟩ := replaceLoop_of_settled hne hhere hasked
        obtain ⟨more, calls, hsome, hcalls⟩ := findAndReplaceFrom_of_settled hrest
        refine ⟨fuel + more, here :: calls, ?_, hcalls.cons hnumbers⟩
        rw [findAndReplaceFrom, if_neg hempty, replaceLoop_mono (Nat.le_add_right fuel more) hloop,
          passFrom, if_neg hempty]
        exact Option.bind_eq_some_iff.mpr ⟨_, rfl, Option.bind_eq_some_iff.mpr
          ⟨_, findAndReplaceFrom_mono (Nat.le_add_left more fuel) hsome, rfl⟩⟩

/-- One pass for each pattern in order, and the numbers passed are the positions. -/
def OnePass (data : List UInt8) (values : List ReplaceValue)
    (getReplaceString : Option (Nat → List UInt8)) : Prop :=
  ∃ fuel calls, findAndReplaceValues fuel data values getReplaceString =
    some (passFrom getReplaceString 0 values data, calls) ∧ Positions 0 calls

theorem one_pass_of_settled (hsettled : Settled getReplaceString 0 0 values data) :
    OnePass data values getReplaceString :=
  findAndReplaceFrom_of_settled hsettled

def ascii (text : List Char) : List UInt8 := text.map fun c => UInt8.ofNat c.toNat

/-- A day and a month in a format, the first with a replacement of its own. -/
theorem day_and_month_replaced :
    OnePass (ascii ['%', 'd', '.', '%', 'm', ' ', '%', 'd'])
      [(ascii ['%', 'd'], some (ascii ['0', '7'])), (ascii ['%', 'm'], none)]
      (some fun _ => ascii ['M', 'a', 'y']) :=
  one_pass_of_settled (.cons (by decide) (by decide) (fun h => (nomatch h))
    (.cons (by decide) (by decide) (fun _ _ _ => rfl) trivial))

/-! ## One pattern of its own -/

theorem findAndReplaceValues_one {own : List UInt8} {result : List UInt8 × List (List Nat)}
    (hne : toSearch ≠ [])
    (hsome : findAndReplaceValues fuel data [(toSearch, some own)] getReplaceString =
      some result) : rewrite toSearch own fuel data = some result.1 := by
  have hempty : ¬ toSearch.isEmpty = true := fun h => hne (List.isEmpty_iff.mp h)
  rw [findAndReplaceValues, findAndReplaceFrom, if_neg hempty] at hsome
  obtain ⟨⟨out, here⟩, hloop, hsome⟩ := Option.bind_eq_some_iff.mp hsome
  obtain ⟨last, hlast, hresult⟩ := Option.bind_eq_some_iff.mp hsome
  obtain rfl := Option.some.inj hlast
  obtain rfl := Option.some.inj hresult
  have hfst := @replaceLoop_fst toSearch (some own) getReplaceString 0 fuel [] data (.inl rfl)
  rw [hloop] at hfst
  exact hfst.symm

/-- Of one pattern, with a replacement that it does not begin with: one pass exactly if it is
settled. -/
theorem one_pattern_iff {own : List UInt8} (hne : toSearch ≠ []) (hown : ¬ own <+: toSearch) :
    OnePass data [(toSearch, some own)] getReplaceString ↔
      settled toSearch own [] 0 data = true := by
  constructor
  · rintro ⟨fuel, calls, hsome, _⟩
    have hpass : passFrom getReplaceString 0 [(toSearch, some own)] data =
        replacePass toSearch own 0 data := by
      rw [passFrom, if_neg fun hempty => hne (List.isEmpty_iff.mp hempty)]
      rfl
    rw [hpass] at hsome
    exact (settled_iff hne hown).mpr ⟨fuel, findAndReplaceValues_one hne hsome⟩
  · exact fun hsettled => one_pass_of_settled (.cons hne hsettled (fun h => nomatch h) trivial)

/-- A pattern with a replacement that contains it is replaced for ever. -/
theorem not_ends_of_contained {own : List UInt8} (hne : toSearch ≠ []) (hown : toSearch <:+: own)
    (hdata : toSearch <:+: data) :
    findAndReplaceValues fuel data [(toSearch, some own)] getReplaceString = none := by
  cases hsome : findAndReplaceValues fuel data [(toSearch, some own)] getReplaceString with
  | none => rfl
  | some result =>
      have hrewrite := findAndReplaceValues_one hne hsome
      rw [rewrite_of_contained hown hdata] at hrewrite
      exact nomatch hrewrite

/-- An empty replacement: the removal ends, and is that of `findAndReplaceAll`. -/
theorem rewrite_eq_removeLoop (hne : toSearch ≠ []) : ∀ {fuel : Nat} {data : List UInt8},
    data.length < fuel → rewrite toSearch [] fuel data = some (removeLoop toSearch fuel data)
  | fuel + 1, data, hlt => by
      rw [removeLoop]
      cases hfirst : replaceFirst toSearch [] data with
      | none =>
          rw [rewrite, hfirst, replaceFirst_eq_none_iff.mp hfirst]
      | some next =>
          obtain ⟨pos, hfind, hnext⟩ := Option.map_eq_some_iff.mp hfirst
          obtain ⟨pre, post, hdata, hpost, _⟩ := replaceFirst_eq_some hfirst
          have hpos := List.length_pos_of_ne_nil hne
          have hshort : next.length < data.length := by
            rw [hpost, hdata, List.length_append, List.length_append, List.length_append,
              List.length_append, List.length_nil]
            omega
          rw [rewrite_of_some hfirst, hfind, rewrite_eq_removeLoop hne (by omega), ← hnext,
            List.append_nil]

theorem findAndReplaceAll_eq (hne : toSearch ≠ []) :
    ∃ fuel calls, findAndReplaceValues fuel data [(toSearch, some [])] getReplaceString =
      some (findAndReplaceAll data toSearch, calls) := by
  have hrewrite := rewrite_eq_removeLoop hne (Nat.lt_succ_self data.length)
  have hfst := @replaceLoop_fst toSearch (some []) getReplaceString 0 (data.length + 1) [] data
    (.inl rfl)
  have hempty : ¬ toSearch.isEmpty = true := fun h => hne (List.isEmpty_iff.mp h)
  rw [replacement, hrewrite, Option.map_eq_some_iff] at hfst
  obtain ⟨⟨out, here⟩, hloop, rfl⟩ := hfst
  refine ⟨data.length + 1, [here], ?_⟩
  rw [findAndReplaceValues, findAndReplaceFrom, if_neg hempty, hloop, findAndReplaceAll, if_neg hne]
  rfl

/-- The percent sign doubled. -/
theorem doubled_percent_never_done :
    ¬ OnePass (ascii ['5', '%']) [(ascii ['%'], some (ascii ['%', '%']))] none := by
  rintro ⟨fuel, calls, hsome, _⟩
  have hown : ascii ['%'] <:+: ascii ['%', '%'] := by decide
  have hdata : ascii ['%'] <:+: ascii ['5', '%'] := by decide
  rw [not_ends_of_contained (by decide) hown hdata] at hsome
  exact nomatch hsome

end MuditaOS.Utils
