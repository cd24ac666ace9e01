import MuditaOS.Cellular.AtLists

/-!
# What the list parsers make of their lines

A line is given an entry, or stops the parser, which clears its list. The exceptions: a line
of `ccfc` with fewer than two tokens is passed over, and one with two is not read; `clck`
keeps its list where a token is no number; `parseCOPS` never clears it, and takes any text
for a number.
-/

namespace MuditaOS.Cellular.Response

open MuditaOS.Lib MuditaOS.Utils

variable {enum : EnumContains} {el : Text}

/-- The lines before the one with the `OK`. -/
def beforeOk (data : List Text) : List Text :=
  data.takeWhile fun el => (find Channel.ok el 0).isNone

theorem parseLines_eq {β : Type*} {read : Text → Outcome β} {data : List Text}
    {parsed : List β} : parseLines read data parsed = gather read (beforeOk data) parsed := by
  induction data generalizing parsed with
  | nil => rfl
  | cons el data ih =>
      rw [parseLines, beforeOk]
      cases hok : find Channel.ok el 0 with
      | some pos =>
          rw [List.takeWhile_cons_of_neg (by rw [hok]; exact Bool.false_ne_true)]
          rfl
      | none =>
          rw [List.takeWhile_cons_of_pos (by rw [hok]; rfl), Option.isSome_none,
            if_neg Bool.false_ne_true, gather]
          cases read el with
          | push entry => exact ih
          | skip => exact ih
          | reject => rfl
          | abandon => rfl

/-! ## Call forwarding -/

namespace Ccfc

/-- Two tokens are numbers of a service that is disabled. With three, they are a status and
a class, and there is a number in quotation marks. -/
def Denotes (el : Text) (entry : ParsedCcfc) : Prop :=
  (find toRemove el 0).isSome ∧
    ∃ statusToken connectionClassToken more status connectionClass,
      tokens el = statusToken :: connectionClassToken :: more ∧
        toNumeric statusToken = some status ∧
        toNumeric connectionClassToken = some connectionClass ∧
        match more with
        | [] => entry = ⟨0, 0, []⟩
        | number :: _ =>
            status ∈ forwardingStatuses ∧ connectionClass ∈ connectionClasses ∧
              (find stringDelimiter number 0).isSome ∧
              entry = ⟨connectionClass, status, findAndReplaceAll number stringDelimiter⟩

/-- There are fewer than two tokens, or two that are not both numbers. -/
def Overlooked (el : Text) : Prop :=
  (find toRemove el 0).isSome ∧
    match tokens el with
    | [] | [_] => True
    | [statusToken, connectionClassToken] =>
        toNumeric statusToken = none ∨ toNumeric connectionClassToken = none
    | _ => False

/-- The line is of another command, or its three tokens or more denote nothing. -/
def Noticed (el : Text) : Prop :=
  (find toRemove el 0).isNone ∨ 2 < (tokens el).length ∧ ∀ entry, ¬ Denotes el entry

theorem denotes_number {statusToken connectionClassToken number : Text} {more : List Text}
    {entry : ParsedCcfc} (htokens : tokens el = statusToken :: connectionClassToken :: number :: more)
    (h : Denotes el entry) : ∃ status connectionClass, toNumeric statusToken = some status ∧
      toNumeric connectionClassToken = some connectionClass ∧ status ∈ forwardingStatuses ∧
      connectionClass ∈ connectionClasses ∧ (find stringDelimiter number 0).isSome := by
  obtain ⟨-, _, _, _, status, connectionClass, hsplit, hstatus, hclass, hmore⟩ := h
  rw [htokens] at hsplit
  obtain ⟨rfl, hsplit'⟩ := List.cons.inj hsplit
  obtain ⟨rfl, rfl⟩ := List.cons.inj hsplit'
  exact ⟨status, connectionClass, hstatus, hclass, hmore.1, hmore.2.1, hmore.2.2.1⟩

theorem not_overlooked {entry : ParsedCcfc} (h : Denotes el entry) : ¬ Overlooked el := by
  obtain ⟨-, statusToken, connectionClassToken, more, status, connectionClass, hsplit, hstatus,
    hclass, -⟩ := h
  intro hover
  rw [Overlooked, hsplit] at hover
  cases more with
  | nil =>
      rcases hover.2 with hnone | hnone
      · rw [hstatus] at hnone
        cases hnone
      · rw [hclass] at hnone
        cases hnone
  | cons number more => exact hover.2

theorem not_noticed {entry : ParsedCcfc} (h : Denotes el entry) : ¬ Noticed el := by
  intro hnoticed
  rcases hnoticed with hnone | ⟨-, hnot⟩
  · have hsome := h.1
    rw [Option.isNone_iff_eq_none.1 hnone] at hsome
    cases hsome
  · exact hnot entry h

theorem Overlooked.goesOn (h : Overlooked el) : (readLine enum el).goesOn := by
  obtain ⟨pos, hpos⟩ := Option.isSome_iff_exists.1 h.1
  have htokens := h.2
  rw [readLine, hpos]
  split at htokens
  · next hsplit => simp only [hsplit]; rfl
  · next hsplit => simp only [hsplit]; rfl
  · next hsplit => simp only [hsplit]; rfl
  · cases htokens

theorem Overlooked.not_noticed (h : Overlooked el) : ¬ Noticed el := by
  intro hnoticed
  rcases hnoticed with hnone | ⟨hlength, -⟩
  · have hsome := h.1
    rw [Option.isNone_iff_eq_none.1 hnone] at hsome
    cases hsome
  · have htokens := h.2
    split at htokens
    · next hsplit => rw [hsplit] at hlength; cases hlength
    · next hsplit => rw [hsplit, List.length_singleton] at hlength; omega
    · next hsplit => rw [hsplit] at hlength; exact absurd hlength (lt_irrefl 2)
    · exact htokens

/-- With three tokens or more a line is given its entry, or stops the parser. -/
theorem readLine_number {statusToken connectionClassToken number : Text} {more : List Text}
    (hsome : (find toRemove el 0).isSome)
    (htokens : tokens el = statusToken :: connectionClassToken :: number :: more) :
    (∃ entry, readLine enum el = .push entry ∧ Denotes el entry) ∨
      readLine enum el = .reject ∧ ∀ entry, ¬ Denotes el entry := by
  obtain ⟨pos, hpos⟩ := Option.isSome_iff_exists.1 hsome
  have hsize : ¬ more.length + 1 + 1 + 1 = 2 := by omega
  rw [readLine, hpos]
  simp only [htokens, List.length_cons, serviceDisabledTokenCount, if_neg hsize,
    enum.contains_iff]
  cases hstatus : toNumeric statusToken with
  | none =>
      refine .inr ⟨rfl, fun entry hdenotes => ?_⟩
      obtain ⟨_, _, hstatus', -⟩ := denotes_number htokens hdenotes
      rw [hstatus] at hstatus'
      cases hstatus'
  | some status =>
      cases hclass : toNumeric connectionClassToken with
      | none =>
          refine .inr ⟨rfl, fun entry hdenotes => ?_⟩
          obtain ⟨_, _, -, hclass', -⟩ := denotes_number htokens hdenotes
          rw [hclass] at hclass'
          cases hclass'
      | some connectionClass =>
          simp only []
          by_cases hmem : status ∈ forwardingStatuses ∧ connectionClass ∈ connectionClasses
          · rw [if_pos hmem]
            cases hquote : find stringDelimiter number 0 with
            | none =>
                refine .inr ⟨rfl, fun entry hdenotes => ?_⟩
                obtain ⟨_, _, -, -, -, -, hquote'⟩ := denotes_number htokens hdenotes
                rw [hquote] at hquote'
                cases hquote'
            | some pos =>
                exact .inl ⟨_, rfl, hsome, statusToken, connectionClassToken, number :: more,
                  status, connectionClass, htokens, hstatus, hclass, hmem.1, hmem.2,
                  Option.isSome_of_eq_some hquote, rfl⟩
          · rw [if_neg hmem]
            refine .inr ⟨rfl, fun entry hdenotes => ?_⟩
            obtain ⟨_, _, hstatus', hclass', hstatus'', hclass'', -⟩ :=
              denotes_number htokens hdenotes
            rw [hstatus] at hstatus'
            rw [hclass] at hclass'
            cases hstatus'
            cases hclass'
            exact hmem ⟨hstatus'', hclass''⟩

/-- A line is given its entry, is passed over, or stops the parser. -/
theorem readLine_cases :
    (∃ entry, readLine enum el = .push entry ∧ Denotes el entry) ∨ Overlooked el ∨
      Noticed el ∧ readLine enum el = .reject := by
  cases hfind : find toRemove el 0 with
  | none => exact .inr (.inr ⟨.inl (by rw [hfind]; rfl), by rw [readLine, hfind]⟩)
  | some pos =>
      have hsome : (find toRemove el 0).isSome := Option.isSome_of_eq_some hfind
      match htokens : tokens el with
      | [] => exact .inr (.inl ⟨hsome, by rw [htokens]; trivial⟩)
      | [_] => exact .inr (.inl ⟨hsome, by rw [htokens]; trivial⟩)
      | [statusToken, connectionClassToken] =>
          cases hstatus : toNumeric statusToken with
          | none => exact .inr (.inl ⟨hsome, by rw [htokens]; exact .inl hstatus⟩)
          | some status =>
              cases hclass : toNumeric connectionClassToken with
              | none => exact .inr (.inl ⟨hsome, by rw [htokens]; exact .inr hclass⟩)
              | some connectionClass =>
                  refine .inl ⟨⟨0, 0, []⟩, ?_, hsome, statusToken, connectionClassToken, [], status,
                    connectionClass, htokens, hstatus, hclass, rfl⟩
                  rw [readLine, hfind]
                  simp only [htokens]
                  rfl
      | statusToken :: connectionClassToken :: number :: more =>
          refine (readLine_number hsome htokens).imp_right fun ⟨hreject, hnot⟩ => .inr ⟨.inr
            ⟨?_, hnot⟩, hreject⟩
          rw [htokens, List.length_cons, List.length_cons, List.length_cons]
          omega

end Ccfc

/-! ## Call barring and call waiting -/

/-- There are enough tokens, and the first two are numbers of the enumerations. -/
def ServiceDenotes (responseToken : Text) (statuses : List Int) (enough : Nat → Bool) (el : Text)
    (entry : ServiceParsed) : Prop :=
  (find responseToken el 0).isSome ∧ ∃ statusToken serviceClassToken more,
    serviceTokens responseToken el = statusToken :: serviceClassToken :: more ∧
      enough (more.length + 2) ∧ toNumeric statusToken = some entry.status ∧
      toNumeric serviceClassToken = some entry.serviceClass ∧ entry.status ∈ statuses ∧
      entry.serviceClass ∈ serviceClasses

/-- There are enough tokens, but one of the first two is no number. -/
def NotNumeric (responseToken : Text) (enough : Nat → Bool) (el : Text) : Prop :=
  (find responseToken el 0).isSome ∧ ∃ statusToken serviceClassToken more,
    serviceTokens responseToken el = statusToken :: serviceClassToken :: more ∧
      enough (more.length + 2) ∧
      (toNumeric statusToken = none ∨ toNumeric serviceClassToken = none)

variable {responseToken : Text} {statuses : List Int} {enough : Nat → Bool}
  {notNumeric : Outcome ServiceParsed}

theorem ServiceDenotes.not_notNumeric {entry : ServiceParsed}
    (h : ServiceDenotes responseToken statuses enough el entry) :
    ¬ NotNumeric responseToken enough el := by
  obtain ⟨-, _, _, _, hsplit, -, hstatus, hclass, -⟩ := h
  intro ⟨_, _, _, _, hsplit', _, hnone⟩
  rw [hsplit] at hsplit'
  cases hsplit'
  rcases hnone with hnone | hnone
  · rw [hstatus] at hnone
    cases hnone
  · rw [hclass] at hnone
    cases hnone

theorem ServiceDenotes.push {entry : ServiceParsed}
    (h : ServiceDenotes responseToken statuses enough el entry) :
    readService enum responseToken statuses enough notNumeric el = .push entry := by
  obtain ⟨hsome, _, _, _, hsplit, henough, hstatus, hclass, hmem⟩ := h
  obtain ⟨pos, hpos⟩ := Option.isSome_iff_exists.1 hsome
  rw [readService, hpos, hsplit]
  simp only [if_pos henough, hstatus, hclass, enum.contains_iff, if_pos hmem]

/-- A line is given its entry, or it stops the parser, where a token is no number maybe in
its own way. -/
theorem readService_cases :
    (∃ entry, readService enum responseToken statuses enough notNumeric el = .push entry ∧
        ServiceDenotes responseToken statuses enough el entry) ∨
      readService enum responseToken statuses enough notNumeric el = .reject ∧
        ¬ NotNumeric responseToken enough el ∨
      readService enum responseToken statuses enough notNumeric el = notNumeric ∧
        NotNumeric responseToken enough el := by
  cases hfind : find responseToken el 0 with
  | none =>
      refine .inr (.inl ⟨by rw [readService, hfind], fun hnot => ?_⟩)
      have hsome := hnot.1
      rw [hfind] at hsome
      cases hsome
  | some pos =>
      have hsome : (find responseToken el 0).isSome := Option.isSome_of_eq_some hfind
      rw [readService, hfind]
      match htokens : serviceTokens responseToken el with
      | [] =>
          refine .inr (.inl ⟨rfl, fun ⟨_, _, _, _, hsplit, _⟩ => ?_⟩)
          rw [htokens] at hsplit
          cases hsplit
      | [_] =>
          refine .inr (.inl ⟨rfl, fun ⟨_, _, _, _, hsplit, _⟩ => ?_⟩)
          rw [htokens] at hsplit
          cases hsplit
      | statusToken :: serviceClassToken :: more =>
          simp only []
          by_cases henough : enough (more.length + 2)
          · rw [if_pos henough]
            cases hstatus : toNumeric statusToken with
            | none =>
                exact .inr (.inr ⟨rfl, hsome, statusToken, serviceClassToken, more, htokens,
                  henough, .inl hstatus⟩)
            | some status =>
                cases hclass : toNumeric serviceClassToken with
                | none =>
                    exact .inr (.inr ⟨rfl, hsome, statusToken, serviceClassToken, more, htokens,
                      henough, .inr hclass⟩)
                | some serviceClass =>
                    simp only [enum.contains_iff]
                    by_cases hmem : status ∈ statuses ∧ serviceClass ∈ serviceClasses
                    · rw [if_pos hmem]
                      exact .inl ⟨⟨status, serviceClass⟩, rfl, hsome, statusToken,
                        serviceClassToken, more, htokens, henough, hstatus, hclass, hmem.1, hmem.2⟩
                    · rw [if_neg hmem]
                      refine .inr (.inl ⟨rfl, fun ⟨_, _, _, _, hsplit, _, hnone⟩ => ?_⟩)
                      rw [htokens] at hsplit
                      cases hsplit
                      rw [hstatus, hclass] at hnone
                      rcases hnone with hnone | hnone <;> cases hnone
          · rw [if_neg henough]
            refine .inr (.inl ⟨rfl, fun ⟨_, _, _, _, hsplit, henough', _⟩ => ?_⟩)
            rw [htokens] at hsplit
            cases hsplit
            exact henough henough'

/-! ## Operators -/

namespace Cops

/-- There are four or five parameters, the status and the technology are numbers of the
enumerations, and the names are without their quotation marks. -/
def Denotes (opp : Text) (op : Operator) : Prop :=
  ∃ status longName shortName numericName technologies,
    split opp comma true = status :: longName :: shortName :: numericName :: technologies ∧
      strtol 10 status = some op.status ∧ op.status ∈ operatorStatuses ∧
      op.longName = findAndReplaceAll longName stringDelimiter ∧
      op.shortName = findAndReplaceAll shortName stringDelimiter ∧
      op.numericName = findAndReplaceAll numericName stringDelimiter ∧
      match technologies with
      | [] => op.technology = none
      | [technology] => ∃ value ∈ accessTechnologies,
          strtol 10 technology = some value ∧ op.technology = some value
      | _ => False

def Counted (opp : Text) : Prop :=
  (split opp comma true).length = 4 ∨ (split opp comma true).length = 5

theorem getNumericValue_eq {text : Text} {v : Int} (h : strtol 10 text = some v) (hlower : 0 ≤ v)
    (hupper : v ≤ 100) : getNumericValue text = v := by
  rw [getNumericValue, h]
  simp only []
  omega

theorem operatorStatuses_range {v : Int} (h : v ∈ operatorStatuses) : 0 ≤ v ∧ v ≤ 100 := by
  simp only [operatorStatuses, List.mem_cons, List.not_mem_nil, or_false] at h
  omega

theorem accessTechnologies_range {v : Int} (h : v ∈ accessTechnologies) : 0 ≤ v ∧ v ≤ 100 := by
  simp only [accessTechnologies, List.mem_cons, List.not_mem_nil, or_false] at h
  omega

theorem readOperator_denotes {opp : Text} {op : Operator} (h : Denotes opp op) :
    readOperator opp = .push op := by
  obtain ⟨status, longName, shortName, numericName, technologies, hsplit, hstatus, hmem, hlong,
    hshort, hnumeric, htechnology⟩ := h
  obtain ⟨hlower, hupper⟩ := operatorStatuses_range hmem
  have hvalue := getNumericValue_eq hstatus hlower hupper
  rw [readOperator, hsplit]
  match technologies with
  | [] =>
      obtain ⟨_, _, _, _, _⟩ := op
      simp only at hlong hshort hnumeric htechnology hvalue
      simp only [hlong, hshort, hnumeric, htechnology, hvalue]
  | [technology] =>
      obtain ⟨value, hmem', hread, htechnology⟩ := htechnology
      obtain ⟨hlower', hupper'⟩ := accessTechnologies_range hmem'
      obtain ⟨_, _, _, _, _⟩ := op
      simp only at hlong hshort hnumeric htechnology hvalue
      simp only [hlong, hshort, hnumeric, htechnology, hvalue,
        getNumericValue_eq hread hlower' hupper']
  | _ :: _ :: _ => cases htechnology

theorem readOperator_counted {opp : Text} :
    Counted opp ∧ (∃ op, readOperator opp = .push op) ∨
      ¬ Counted opp ∧ readOperator opp = .abandon := by
  rw [Counted, readOperator]
  match split opp comma true with
  | [] | [_] | [_, _] | [_, _, _] => exact .inr ⟨by simp, rfl⟩
  | [_, _, _, _] => exact .inl ⟨.inl rfl, _, rfl⟩
  | [_, _, _, _, _] => exact .inl ⟨.inr rfl, _, rfl⟩
  | _ :: _ :: _ :: _ :: _ :: _ :: more => exact .inr ⟨by simp, rfl⟩

end Cops

end MuditaOS.Cellular.Response
