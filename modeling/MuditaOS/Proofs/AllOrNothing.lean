import MuditaOS.Proofs.ListAnswers

/-!
# All or nothing

Which responses the list parsers answer with an entry for each line or with none. `ccwa`
does so for all.
-/

namespace MuditaOS.Cellular.Response

open MuditaOS.Lib MuditaOS.Utils

variable {enum : EnumContains} {lines : List Text} {el : Text}

theorem allOrNothing_rejected {β : Type*} {Denotes : Text → β → Prop} :
    AllOrNothing Denotes lines (false, []) :=
  ⟨fun h => absurd h Bool.false_ne_true, fun _ => rfl⟩

theorem allOrNothing_gathered {β : Type*} {read : Text → Outcome β} {Denotes : Text → β → Prop}
    (h : ∀ el ∈ lines, ∃ entry, read el = .push entry ∧ Denotes el entry) :
    AllOrNothing Denotes lines (true, gathered read lines) :=
  ⟨fun _ => forall₂_gathered h, fun h => absurd h.symm Bool.false_ne_true⟩

/-! ## Call forwarding -/

namespace Ccfc

/-- No line is overlooked, or there is one that makes the parser give up. -/
def Fits (lines : List Text) : Prop :=
  (∀ el ∈ lines, ¬ Overlooked el) ∨ ∃ el ∈ lines, Noticed el

theorem Noticed.reject (h : Noticed el) : readLine enum el = .reject := by
  rcases @readLine_cases enum el with ⟨entry, -, hdenotes⟩ | hover | ⟨-, hreject⟩
  · exact absurd h (not_noticed hdenotes)
  · exact absurd h hover.not_noticed
  · exact hreject

theorem readLine_stops (h : (readLine enum el).goesOn = false) :
    Noticed el ∧ readLine enum el = .reject := by
  rcases @readLine_cases enum el with ⟨entry, hpush, -⟩ | hover | hreject
  · rw [hpush] at h
    cases h
  · rw [hover.goesOn] at h
    cases h
  · exact hreject

theorem allOrNothing_iff :
    AllOrNothing Denotes lines (gather (readLine enum) lines []) ↔ Fits lines := by
  rcases goesOn_or_stops (readLine enum) lines with hall | ⟨front, stop, rest, rfl, hfront, hstop⟩
  · rw [gather_goesOn hall, List.nil_append]
    constructor
    · intro h
      refine .inl fun el hel hover => ?_
      obtain ⟨entry, hdenotes⟩ := exists_of_forall₂ (h.all rfl) hel
      exact not_overlooked hdenotes hover
    · intro hfits
      refine allOrNothing_gathered fun el hel => ?_
      rcases @readLine_cases enum el with hpush | hover | ⟨-, hreject⟩
      · exact hpush
      · rcases hfits with hnone | ⟨line, hline, hnoticed⟩
        · exact absurd hover (hnone el hel)
        · have hgoes := hall line hline
          rw [hnoticed.reject] at hgoes
          cases hgoes
      · have hgoes := hall el hel
        rw [hreject] at hgoes
        cases hgoes
  · obtain ⟨hnoticed, hreject⟩ := readLine_stops hstop
    rw [gather_reject hfront hreject]
    exact iff_of_true allOrNothing_rejected
      (.inr ⟨stop, List.mem_append_right front List.mem_cons_self, hnoticed⟩)

end Ccfc

/-! ## Call barring and call waiting -/

section

variable {responseToken : Text} {statuses : List Int} {enough : Nat → Bool}
  {notNumeric : Outcome ServiceParsed}

/-- A line with which the parser goes on has its entry. -/
theorem readService_goesOn (hnot : notNumeric.goesOn = false)
    (h : (readService enum responseToken statuses enough notNumeric el).goesOn) :
    ∃ entry, readService enum responseToken statuses enough notNumeric el = .push entry ∧
      ServiceDenotes responseToken statuses enough el entry := by
  rcases @readService_cases enum el responseToken statuses enough notNumeric with
    hpush | ⟨hreject, -⟩ | ⟨hread, -⟩
  · exact hpush
  · rw [hreject] at h
    cases h
  · rw [hread, hnot] at h
    cases h

theorem readService_notNumeric (h : NotNumeric responseToken enough el) :
    readService enum responseToken statuses enough notNumeric el = notNumeric := by
  rcases @readService_cases enum el responseToken statuses enough notNumeric with
    ⟨entry, -, hdenotes⟩ | ⟨-, hnot⟩ | ⟨hread, -⟩
  · exact absurd h hdenotes.not_notNumeric
  · exact absurd h hnot
  · exact hread

end

namespace Clck

def Denotes : Text → ServiceParsed → Prop :=
  ServiceDenotes responseToken statuses fun size => minTokens ≤ size

/-- If the first line that is not well formed has tokens that are no numbers, it is the
first of all. -/
def Fits (lines : List Text) : Prop :=
  ∀ front el rest, lines = front ++ el :: rest →
    (∀ line ∈ front, ∃ entry, Denotes line entry) →
    NotNumeric responseToken (fun size => minTokens ≤ size) el → front = []

theorem not_goesOn (h : NotNumeric responseToken (fun size => minTokens ≤ size) el) :
    ¬ (readLine enum el).goesOn := by
  rw [readLine, readService_notNumeric h]
  exact Bool.false_ne_true

theorem allOrNothing_iff :
    AllOrNothing Denotes lines (gather (readLine enum) lines []) ↔ Fits lines := by
  rcases goesOn_or_stops (readLine enum) lines with hall | ⟨front, stop, rest, rfl, hfront, hstop⟩
  · rw [gather_goesOn hall, List.nil_append]
    refine iff_of_true (allOrNothing_gathered fun el hel => readService_goesOn rfl (hall el hel))
      fun front el rest hlines _ hnot => ?_
    refine absurd (hall el ?_) (not_goesOn hnot)
    rw [hlines]
    exact List.mem_append_right front List.mem_cons_self
  · have hpushed : ∀ line ∈ front, ∃ entry, readLine enum line = .push entry ∧ Denotes line entry :=
      fun line hline => readService_goesOn rfl (hfront line hline)
    -- the first line that stops the parser is the only candidate
    have hunique : ∀ front' el rest', front ++ stop :: rest = front' ++ el :: rest' →
        (∀ line ∈ front', ∃ entry, Denotes line entry) →
        NotNumeric responseToken (fun size => minTokens ≤ size) el →
        front = front' ∧ stop = el := by
      intro front' el rest' hlines hdenotes hnot
      refine first_unique hlines hfront ?_ (fun line hline => ?_) (not_goesOn hnot)
      · rw [hstop]
        exact Bool.false_ne_true
      · obtain ⟨entry, hentry⟩ := hdenotes line hline
        rw [readLine, ServiceDenotes.push hentry]
        rfl
    rcases @readService_cases enum stop responseToken statuses (fun size => minTokens ≤ size) .abandon
      with ⟨entry, hpush, -⟩ | ⟨hreject, hnot⟩ | ⟨habandon, hnot⟩
    · rw [readLine, hpush] at hstop
      cases hstop
    · rw [gather_reject hfront hreject]
      refine iff_of_true allOrNothing_rejected fun front' el rest' hlines hdenotes hnot' => ?_
      exact absurd ((hunique front' el rest' hlines hdenotes hnot').2 ▸ hnot') hnot
    · rw [gather_abandon hfront habandon, List.nil_append]
      constructor
      · intro h front' el rest' hlines hdenotes hnot'
        obtain ⟨rfl, -⟩ := hunique front' el rest' hlines hdenotes hnot'
        refine List.eq_nil_iff_forall_not_mem.2 fun line hline => ?_
        obtain ⟨entry, hpush, -⟩ := hpushed line hline
        exact gathered_ne_nil hline hpush (h.nothing rfl)
      · intro hfits
        have hfirst := hfits front stop rest rfl
          (fun line hline => (hpushed line hline).imp fun _ h => h.2) hnot
        rw [hfirst]
        exact allOrNothing_rejected

end Clck

namespace Ccwa

def Denotes : Text → ServiceParsed → Prop :=
  ServiceDenotes toRemove statuses fun size => size = tokenCount

theorem allOrNothing : AllOrNothing Denotes lines (gather (readLine enum) lines []) := by
  rcases goesOn_or_stops (readLine enum) lines with hall | ⟨front, stop, rest, rfl, hfront, hstop⟩
  · rw [gather_goesOn hall, List.nil_append]
    exact allOrNothing_gathered fun el hel => readService_goesOn rfl (hall el hel)
  · have hreject : readLine enum stop = .reject := by
      rcases @readService_cases enum stop toRemove statuses (fun size => size = tokenCount) .reject
        with ⟨entry, hpush, -⟩ | ⟨hreject, -⟩ | ⟨hreject, -⟩
      · rw [readLine, hpush] at hstop
        cases hstop
      · exact hreject
      · exact hreject
    rw [gather_reject hfront hreject]
    exact allOrNothing_rejected

end Ccwa

/-! ## Operators -/

namespace Cops

/-- The groups of the answer, if there is a list of them. Where the answer has nothing but
commas there is no value at all. -/
def answer (resp : Result) : Option (Option (List Text)) :=
  match getResponseLineATCommand resp atCops with
  | none => some none
  | some commandLine =>
      if commandLine.length < minCOPSLength then some none
      else
        match split commandLine listSeparator true with
        | [] => none
        | operators :: _ =>
            if operators.head? = some 0x28 ∧ operators.getLast? = some 0x29 then
              some (some (split (operators.drop 1).dropLast groupSeparator true))
            else some none

theorem parseCOPS_eq {resp : Result} {ret : List Operator} : parseCOPS resp ret =
    (answer resp).map fun groups =>
      match groups with
      | none => (false, ret)
      | some opArray => gather readOperator opArray ret := by
  rw [parseCOPS, answer]
  cases getResponseLineATCommand resp atCops with
  | none => rfl
  | some commandLine =>
      simp only []
      by_cases hlength : commandLine.length < minCOPSLength
      · rw [if_pos hlength, if_pos hlength]
        rfl
      · rw [if_neg hlength, if_neg hlength]
        cases split commandLine listSeparator true with
        | nil => rfl
        | cons operators more =>
            simp only []
            by_cases hbrackets : operators.head? = some 0x28 ∧ operators.getLast? = some 0x29
            · rw [if_pos hbrackets, if_pos hbrackets]
              rfl
            · rw [if_neg hbrackets, if_neg hbrackets]
              rfl

def operatorGroups (resp : Result) : List Text := ((answer resp).getD none).getD []

/-- The parser answers, with an entry for each group or with none. -/
def Answers (resp : Result) (ret : List Operator) : Prop :=
  ∃ out, parseCOPS resp ret = some out ∧ AllOrNothing Denotes (operatorGroups resp) out

/-- The list is empty before, and if there are groups, all of them are well formed, or the
first has another number of parameters. -/
def Fits (resp : Result) (ret : List Operator) : Prop :=
  ret = [] ∧
    match answer resp with
    | none => False
    | some none => True
    | some (some opArray) =>
        (∃ opp more, opArray = opp :: more ∧ ¬ Counted opp) ∨
          ∀ opp ∈ opArray, ∃ op, Denotes opp op

theorem readOperator_goesOn {opp : Text} (h : (readOperator opp).goesOn) :
    Counted opp ∧ ∃ op, readOperator opp = .push op := by
  rcases @readOperator_counted opp with hpush | ⟨-, habandon⟩
  · exact hpush
  · rw [habandon] at h
    cases h

theorem readOperator_stops {opp : Text} (h : (readOperator opp).goesOn = false) :
    ¬ Counted opp ∧ readOperator opp = .abandon := by
  rcases @readOperator_counted opp with ⟨-, op, hpush⟩ | habandon
  · rw [hpush] at h
    cases h
  · exact habandon

theorem allOrNothing_groups_iff {opArray : List Text} {ret : List Operator} :
    AllOrNothing Denotes opArray (gather readOperator opArray ret) ↔ ret = [] ∧
      ((∃ opp more, opArray = opp :: more ∧ ¬ Counted opp) ∨
        ∀ opp ∈ opArray, ∃ op, Denotes opp op) := by
  rcases goesOn_or_stops readOperator opArray with hall | ⟨front, stop, rest, rfl, hfront, hstop⟩
  · rw [gather_goesOn hall]
    constructor
    · intro h
      have hdenotes : ∀ opp ∈ opArray, ∃ op, Denotes opp op := fun opp hopp =>
        exists_of_forall₂ (h.all rfl) hopp
      have hgathered : List.Forall₂ Denotes opArray (gathered readOperator opArray) :=
        forall₂_gathered fun opp hopp =>
          (hdenotes opp hopp).imp fun _ hop => ⟨readOperator_denotes hop, hop⟩
      refine ⟨?_, .inr hdenotes⟩
      have hlength := (h.all rfl).length_eq.symm.trans hgathered.length_eq
      rw [List.length_append] at hlength
      exact List.length_eq_zero_iff.1 (by omega)
    · intro ⟨hret, hgroups⟩
      rw [hret, List.nil_append]
      rcases hgroups with ⟨opp, more, rfl, hcounted⟩ | hdenotes
      · exact absurd (readOperator_goesOn (hall opp List.mem_cons_self)).1 hcounted
      · exact allOrNothing_gathered fun opp hopp =>
          (hdenotes opp hopp).imp fun _ hop => ⟨readOperator_denotes hop, hop⟩
  · obtain ⟨hcounted, habandon⟩ := readOperator_stops hstop
    rw [gather_abandon hfront habandon]
    constructor
    · intro h
      obtain ⟨hret, hgathered⟩ := List.append_eq_nil_iff.1 (h.nothing rfl)
      refine ⟨hret, .inl ⟨stop, rest, ?_, hcounted⟩⟩
      cases front with
      | nil => rfl
      | cons opp front =>
          obtain ⟨-, op, hpush⟩ := readOperator_goesOn (hfront opp List.mem_cons_self)
          exact absurd hgathered (gathered_ne_nil List.mem_cons_self hpush)
    · intro ⟨hret, hgroups⟩
      rcases hgroups with ⟨opp, more, hfirst, hcounted'⟩ | hdenotes
      · cases front with
        | nil =>
            rw [hret]
            exact allOrNothing_rejected
        | cons first front =>
            obtain rfl := (List.cons.inj hfirst).1
            exact absurd (readOperator_goesOn (hfront first List.mem_cons_self)).1 hcounted'
      · obtain ⟨op, hop⟩ := hdenotes stop (List.mem_append_right front List.mem_cons_self)
        rw [readOperator_denotes hop] at habandon
        cases habandon

theorem answers_iff {resp : Result} {ret : List Operator} : Answers resp ret ↔ Fits resp ret := by
  rw [Answers, Fits, parseCOPS_eq, operatorGroups]
  match answer resp with
  | none =>
      constructor
      · intro ⟨out, hout, _⟩
        cases hout
      · intro ⟨_, hfalse⟩
        exact hfalse.elim
  | some none =>
      constructor
      · intro ⟨out, hout, h⟩
        obtain rfl := Option.some.inj hout
        exact ⟨h.nothing rfl, trivial⟩
      · intro ⟨hret, _⟩
        rw [hret]
        exact ⟨_, rfl, allOrNothing_rejected⟩
  | some (some opArray) =>
      constructor
      · intro ⟨out, hout, h⟩
        obtain rfl := Option.some.inj hout
        exact allOrNothing_groups_iff.1 h
      · intro h
        exact ⟨_, rfl, allOrNothing_groups_iff.2 h⟩

end Cops

/-! ## The four parsers -/

/-- The parsers are all or nothing exactly where their lines fit. -/
theorem lists_all_or_nothing_iff (enum : EnumContains) :
    (∀ response parsed, AllOrNothing Ccfc.Denotes (beforeOk response)
        (Ccfc.parse enum response parsed) ↔ Ccfc.Fits (beforeOk response)) ∧
      (∀ data parsed, AllOrNothing Clck.Denotes (beforeOk data)
        (Clck.parseQueryResponse enum data parsed) ↔ Clck.Fits (beforeOk data)) ∧
      (∀ data parsed, AllOrNothing Ccwa.Denotes (beforeOk data) (Ccwa.parse enum data parsed)) ∧
      ∀ resp ret, Cops.Answers resp ret ↔ Cops.Fits resp ret := by
  refine ⟨fun response parsed => ?_, fun data parsed => ?_, fun data parsed => ?_,
    fun resp ret => Cops.answers_iff⟩
  · rw [Ccfc.parse, parseLines_eq]
    exact Ccfc.allOrNothing_iff
  · rw [Clck.parseQueryResponse, parseLines_eq]
    exact Clck.allOrNothing_iff
  · rw [Ccwa.parse, parseLines_eq]
    exact Ccwa.allOrNothing

/-- `enum_contains` by the enumerators of the declarations. -/
def declaredEnums : EnumContains where
  contains enumerators v := enumerators.contains v
  contains_iff := List.contains_iff_mem

/-- `+CLCK: 1,1` and `+CLCK: a,1`: the parser returns `false` and keeps the first line. -/
theorem half_a_list_kept :
    let data : List Text :=
      [Clck.responseToken ++ [0x31, 0x2C, 0x31], Clck.responseToken ++ [0x61, 0x2C, 0x31]]
    ¬ AllOrNothing Clck.Denotes (beforeOk data)
      (Clck.parseQueryResponse declaredEnums data []) := by
  intro data h
  exact absurd (h.nothing (by decide)) (by decide)

end MuditaOS.Cellular.Response
