import MuditaOS.Calculator.InputProcessorText
import MuditaOS.Lib.Run

/-!
# The hidden operand

While a part of the equation is hidden, the text in the field has an operation at its front at
most. So nothing is hidden over what is hidden already, and what is hidden stays where it is,
in front of the field, whatever digit is typed or deleted. The exception is a field with a lone
zero in it: the branch that drops a leading zero clears both.
-/

namespace MuditaOS.Calculator.InputProcessorText

open MuditaOS.Lib MuditaOS.Gui symbols

variable {s s' : InputProcessorText} {event : InputEvent} {calculate : Codes → Result}
  {separator : Separator} {symbol operation : UInt32} {room : Bool} {code code' : KeyCode}

/-- The event and whether the field has room for one more character. -/
abbrev Typed := InputEvent × Bool

/-- An event whose precondition does not hold ends the run. -/
def step (calculate : Codes → Result) (separator : Separator) (s : InputProcessorText)
    (e : Typed) : InputProcessorText := (s.input calculate separator e.1 e.2).getD s

/-- A digit key, or a short delete key. -/
def Edits (event : InputEvent) : Prop :=
  event.isDigit ∨ event.isShortRelease ∧ event.Is .KEY_PND

def equation (s : InputProcessorText) : Codes := s.hiddenPartOfEquation ++ s.text

/-- The preconditions hold, and what is hidden is in front of the equation still after a digit
or a short delete. -/
def KeepsHidden (calculate : Codes → Result) (separator : Separator) (s : InputProcessorText)
    (e : Typed) : Prop :=
  ∃ s', s.input calculate separator e.1 e.2 = some s' ∧
    (Edits e.1 → s.hiddenPartOfEquation <+: s'.equation)

/-- A key that replaces or deletes the lone zero of a field with a part of the equation hidden. -/
def OverLoneZero (s : InputProcessorText) (event : InputEvent) : Prop :=
  s.hasHiddenPart ∧ s.text = [zero] ∧ event.isShortRelease ∧
    (event.isDigit ∧ ¬ event.Is .KEY_0 ∨ event.Is .KEY_PND)

/-- Only the first character in the field may be an operation while a part is hidden, which is
of two characters at least. -/
structure Inv (s : InputProcessorText) : Prop where
  operand : s.hasHiddenPart → ∀ c ∈ s.text.tail, ¬ isOperation c
  hidden : s.hasHiddenPart → 2 ≤ s.hiddenPartOfEquation.length
  clear : s.clearInput → ¬ s.hasHiddenPart

theorem inv_start : Inv start where
  operand := fun h => absurd rfl h
  hidden := fun h => absurd rfl h
  clear := nofun

theorem Inv.clearInput_eq (h : Inv s) (hhidden : s.hasHiddenPart) : s.clearInput = false :=
  Bool.eq_false_iff.2 fun hset => h.clear hset hhidden

/-! ## The operations -/

/-- If nothing is hidden there is nothing to keep. -/
theorem inv_of_nil (h : s.hiddenPartOfEquation = []) : Inv s where
  operand := fun hne => absurd h hne
  hidden := fun hne => absurd h hne
  clear := fun _ hne => hne h

theorem Inv.removeChar (h : Inv s) : Inv s.removeChar where
  operand := by
    intro hhidden c hc
    refine h.operand hhidden c ?_
    have hdrop : c ∈ s.text.dropLast.tail := hc
    rw [List.tail_dropLast] at hdrop
    exact (List.dropLast_sublist _).subset hdrop
  hidden := h.hidden
  clear := h.clear

theorem Inv.addText (h : Inv s) (hsymbol : s.text = [] ∨ ¬ isOperation symbol) :
    Inv (s.addText symbol) where
  operand := by
    intro hhidden c hc
    rw [InputProcessorText.addText] at hc
    dsimp only at hc
    rcases hsymbol with hempty | hno
    · rw [hempty] at hc
      cases hc
    · cases htext : s.text with
      | nil =>
          rw [htext] at hc
          cases hc
      | cons first text =>
          rw [htext, List.cons_append, List.tail_cons] at hc
          rcases List.mem_append.1 hc with hc | hc
          · exact h.operand hhidden c (by rwa [htext])
          · rwa [List.mem_singleton.1 hc]
  hidden := h.hidden
  clear := h.clear

theorem addSymbol_hidden : (s.addSymbol symbol).hiddenPartOfEquation = s.hiddenPartOfEquation := by
  rw [addSymbol]
  split
  case isTrue =>
      split
      case isTrue => split <;> rfl
      case isFalse => rfl
  case isFalse => split <;> rfl

/-- A separator is no operation, and an operation is added to an empty field only while a part
is hidden. -/
theorem Inv.addSymbol (h : Inv s) (hsymbol : s.text = [] ∨ ¬ isOperation symbol) :
    Inv (s.addSymbol symbol) := by
  rw [InputProcessorText.addSymbol]
  split
  case isTrue hne =>
      have hno : ¬ isOperation symbol := hsymbol.resolve_left hne
      split
      case isTrue =>
          split
          case isTrue => exact h.removeChar.addText (Or.inr hno)
          case isFalse => exact h
      case isFalse => exact h.addText (Or.inr hno)
  case isFalse hempty =>
      split
      case isTrue => exact h.addText (Or.inl (not_not.1 hempty))
      case isFalse => exact h

theorem compute_hidden : (s.compute calculate).hiddenPartOfEquation = [] := rfl

theorem Inv.handleOperation (h : Inv s) : Inv (s.handleOperation calculate operation) := by
  rw [InputProcessorText.handleOperation]
  split
  case isTrue => exact inv_of_nil addSymbol_hidden
  case isFalse hno =>
      by_cases hhidden : s.hasHiddenPart
      · have hempty : s.text = [] := not_not.1 fun hne => hno ⟨hhidden, hne⟩
        exact h.addSymbol (Or.inl hempty)
      · exact inv_of_nil (addSymbol_hidden.trans (not_not.1 hhidden))

theorem Inv.addSeparator (h : Inv s) : Inv (s.addSymbol separator.code) := by
  refine h.addSymbol (Or.inr ?_)
  cases separator <;> decide

theorem Inv.addDigit {digit : Nat} (h : Inv s) (hdigit : toNumeric event.keyCode = some digit) :
    Inv (s.addText (zero + digit.toUInt32)) := by
  refine h.addText (Or.inr ?_)
  cases hcode : event.keyCode <;> rw [hcode] at hdigit <;> cases hdigit <;> decide

/-! ## Preconditions -/

/-- Nothing is hidden while the input is to be. -/
theorem Inv.hide (h : Inv s) (hhide : s.shouldHideInput event) (hclear : s.clearInput = false) :
    ∃ hidden, s.hideCurrentInput = some hidden ∧ Inv hidden ∧ s.hiddenPartOfEquation = [] ∧
      hidden.text = [] ∧ hidden.equation = s.equation := by
  obtain ⟨hone, ⟨c, hc, hoperation⟩, _⟩ := hhide
  obtain ⟨front, htext⟩ := List.getLast?_eq_some_iff.1 hc
  cases front with
  | nil => exact absurd (congrArg List.length htext) hone
  | cons first front =>
      have hnone : s.hiddenPartOfEquation = [] := by
        by_contra hhidden
        exact h.operand hhidden c (by simp [htext]) hoperation
      refine ⟨_, if_pos hnone, ⟨fun _ _ hmem => absurd hmem (by simp), fun _ => ?_, ?_⟩, hnone,
        rfl, ?_⟩
      · simp [htext]
      · intro hset
        rw [hclear] at hset
        cases hset
      · simp [equation, hnone]

theorem restore_of_should (h : s.shouldRestoreInput event) :
    s.restoreHiddenInput
      = some { s with text := s.hiddenPartOfEquation, hiddenPartOfEquation := [] } :=
  if_pos h.2.2

/-! ## The invariant -/

theorem inv_handleShown (h : Inv s) : Inv (s.handleShown calculate separator event).2 := by
  rw [handleShown]
  split
  case isTrue => exact h
  case isFalse =>
  split
  case isTrue => exact h.handleOperation
  case isFalse =>
  split
  case isTrue => exact h.handleOperation
  case isFalse =>
  split
  case isTrue => exact h.handleOperation
  case isFalse =>
  split
  case isTrue => exact h.handleOperation
  case isFalse =>
  split
  case isTrue =>
      dsimp only
      split
      case isTrue => exact h.addSeparator
      case isFalse => exact h
  case isFalse =>
  split
  case isTrue => exact h.removeChar
  case isFalse =>
      have hnext : Inv (if ¬ event.Is .KEY_0 ∧ ¬ event.Is .KEY_ENTER ∧ s.text = [zero]
          then s.clear else s) := by
        split
        case isTrue => exact @inv_of_nil s.clear rfl
        case isFalse => exact h
      dsimp only
      by_cases henter : event.Is .KEY_ENTER
      · rw [if_pos henter]
        exact inv_of_nil compute_hidden
      · rw [if_neg henter]
        exact hnext

theorem Inv.onInput (h : Inv s) : Inv (s.onInput event room) := by
  rw [InputProcessorText.onInput]
  split
  case isTrue => exact h.removeChar
  case isFalse =>
      split
      case h_1 => exact h
      case h_2 digit hdigit =>
          split
          case isTrue => exact h.addDigit hdigit
          case isFalse => exact h

/-- What an error has left is gone before the event is looked at. -/
def ready (s : InputProcessorText) : InputProcessorText := if s.clearInput then s.clear else s

theorem ready_clearInput : s.ready.clearInput = false := by
  rw [ready]
  split
  case isTrue => rfl
  case isFalse h => simpa using h

theorem Inv.ready (h : Inv s) : Inv s.ready := by
  rw [InputProcessorText.ready]
  split
  case isTrue => exact @inv_of_nil s.clear rfl
  case isFalse => exact h

theorem handle_of_ready (h : s.clearInput = false) :
    s.handle calculate separator event
      = if event.isLongRelease ∧ event.Is .KEY_PND then some (true, s.clear)
        else if ¬ event.isShortRelease then some (false, s)
        else if event.Is .KEY_0 ∧ s.text = [zero] then some (true, s)
        else if s.shouldRestoreInput event then s.restoreHiddenInput.map fun s => (true, s)
        else if s.shouldHideInput event then
          s.hideCurrentInput.map fun s => s.handleShown calculate separator event
        else some (s.handleShown calculate separator event) := by
  have hready : (if s.clearInput then s.clear else s) = s := if_neg (by simp [h])
  rw [handle, hready]

theorem handle_ready :
    s.ready.handle calculate separator event = s.handle calculate separator event := by
  rw [handle_of_ready ready_clearInput, handle, ready]

/-- The preconditions hold, and the invariant is kept. -/
theorem inv_handle (h : Inv s) :
    ∃ consumed s', s.handle calculate separator event = some (consumed, s') ∧ Inv s' := by
  have hready := h.ready
  have hclear := @ready_clearInput s
  rw [← handle_ready, handle_of_ready hclear]
  generalize s.ready = s at hready hclear
  split
  case isTrue => exact ⟨_, _, rfl, inv_of_nil rfl⟩
  case isFalse =>
  split
  case isTrue => exact ⟨_, _, rfl, hready⟩
  case isFalse =>
  split
  case isTrue => exact ⟨_, _, rfl, hready⟩
  case isFalse =>
  split
  case isTrue hrestore =>
      rw [restore_of_should hrestore]
      exact ⟨_, _, rfl, inv_of_nil rfl⟩
  case isFalse =>
  split
  case isTrue hhide =>
      obtain ⟨hidden, hsome, hinv, _⟩ := hready.hide hhide hclear
      rw [hsome]
      exact ⟨_, _, rfl, inv_handleShown hinv⟩
  case isFalse => exact ⟨_, _, rfl, inv_handleShown hready⟩

theorem inv_input (h : Inv s) :
    ∃ s', s.input calculate separator event room = some s' ∧ Inv s' := by
  obtain ⟨consumed, next, hhandle, hinv⟩ := @inv_handle _ event calculate separator h
  rw [input, hhandle]
  refine ⟨_, rfl, ?_⟩
  dsimp only
  split
  case isTrue => exact hinv
  case isFalse => exact hinv.onInput

theorem inv_step (h : Inv s) (e : Typed) : Inv (step calculate separator s e) := by
  obtain ⟨s', hs', hinv⟩ := @inv_input _ e.1 calculate separator e.2 h
  rw [step, hs']
  exact hinv

/-! ## Digits and short deletes -/

theorem other_key (h : event.Is code) (hne : code ≠ code') : ¬ event.Is code' :=
  fun h' => hne (h.symm.trans h')

theorem not_is_of_isDigit (h : event.isDigit) (hnumeric : toNumeric code = none) :
    ¬ event.Is code := by
  intro hcode
  rw [InputEvent.Is] at hcode
  rw [InputEvent.isDigit, hcode, hnumeric] at h
  cases h

theorem isDigit_of_numeric {digit : Nat} (h : toNumeric event.keyCode = some digit) :
    event.isDigit := by
  rw [InputEvent.isDigit, h]
  rfl

theorem Edits.not_is (h : Edits event) (hnumeric : toNumeric code = none)
    (hdelete : code ≠ .KEY_PND) : ¬ event.Is code := by
  rcases h with hdigit | ⟨_, hpnd⟩
  · exact not_is_of_isDigit hdigit hnumeric
  · exact other_key hpnd hdelete.symm

theorem Edits.not_long (h : Edits event) : ¬ (event.isLongRelease ∧ event.Is .KEY_PND) := by
  intro ⟨hlong, hpnd⟩
  rcases h with hdigit | ⟨hshort, _⟩
  · exact not_is_of_isDigit hdigit rfl hpnd
  · exact absurd (hshort.symm.trans hlong) (by decide)

theorem not_prohibitInput_clear : ¬ s.clear.prohibitInput separator event := by
  intro ⟨_, hlimit⟩
  rcases hlimit with hlength | hdecimal
  · cases hlength
  · cases hdecimal

/-- A digit or a short delete that gets past the restoring and the hiding clears a lone zero,
is consumed, has a leading zero removed for it, or goes to the field as it is. -/
theorem handleShown_edits (h : Edits event) :
    s.text = [zero] ∧ ¬ event.Is .KEY_0 ∧
        s.handleShown calculate separator event = (false, s.clear) ∨
      ¬ (s.text = [zero] ∧ ¬ event.Is .KEY_0) ∧
        (s.handleShown calculate separator event = (true, s) ∧ event.isDigit ∨
          s.handleShown calculate separator event = (false, s.removeChar) ∧
            s.lastCharacter = some zero ∧ event.isDigit ∨
          s.handleShown calculate separator event = (false, s)) := by
  have hdigit : ¬ event.Is .KEY_PND → event.isDigit := fun hno =>
    h.resolve_right fun hdelete => hno hdelete.2
  have hother : ∀ code, toNumeric code = none → code ≠ .KEY_PND → ¬ event.Is code :=
    fun _ => h.not_is
  -- an operand has something in front of it
  have hlone : s.endsWithZeroOperand → s.text ≠ [zero] := by
    intro ⟨_, ⟨c, hc, _⟩, _⟩ htext
    rw [penultimateCharacter, htext] at hc
    cases hc
  rw [handleShown]
  by_cases hzero : s.endsWithZeroOperand ∧ event.Is .KEY_0
  · rw [if_pos hzero]
    exact Or.inr ⟨fun hno => hno.2 hzero.2,
      Or.inl ⟨rfl, hdigit (other_key hzero.2 (by decide))⟩⟩
  · have henter := hother .KEY_ENTER rfl (by decide)
    rw [if_neg hzero, if_neg (hother .KEY_UP rfl (by decide)),
      if_neg (hother .KEY_DOWN rfl (by decide)), if_neg (hother .KEY_LEFT rfl (by decide)),
      if_neg (hother .KEY_RIGHT rfl (by decide)), if_neg (hother .KEY_LF rfl (by decide))]
    split
    case isTrue hremove =>
        exact Or.inr ⟨fun hno => hlone hremove.1 hno.1,
          Or.inr (Or.inl ⟨rfl, hremove.1.1, hdigit hremove.2.2.1⟩)⟩
    case isFalse =>
        dsimp only
        by_cases hclear : s.text = [zero] ∧ ¬ event.Is .KEY_0
        · rw [if_pos ⟨hclear.2, henter, hclear.1⟩]
          exact Or.inl ⟨hclear.1, hclear.2, by rw [decide_eq_false not_prohibitInput_clear]⟩
        · rw [if_neg fun hno => hclear ⟨hno.2.2, hno.1⟩]
          refine Or.inr ⟨hclear, ?_⟩
          by_cases hprohibit : s.prohibitInput separator event
          · rw [decide_eq_true hprohibit]
            exact Or.inl ⟨rfl, hprohibit.1⟩
          · rw [decide_eq_false hprohibit]
            exact Or.inr (Or.inr rfl)

theorem onInput_hidden :
    (s.onInput event room).hiddenPartOfEquation = s.hiddenPartOfEquation := by
  rw [onInput]
  split
  case isTrue => rfl
  case isFalse =>
      split
      case h_1 => rfl
      case h_2 => split <;> rfl

/-- What is hidden is restored, or stays hidden, unless it is over a lone zero. -/
theorem handle_edits {consumed : Bool} {next : InputProcessorText} (h : Inv s)
    (hclear : s.clearInput = false) (hhidden : s.hasHiddenPart) (hedits : Edits event)
    (hrule : ¬ OverLoneZero s event)
    (hhandle : s.handle calculate separator event = some (consumed, next)) :
    consumed = true ∧ next.equation = s.hiddenPartOfEquation ∨
      next.hiddenPartOfEquation = s.hiddenPartOfEquation := by
  rw [handle_of_ready hclear, if_neg hedits.not_long] at hhandle
  split at hhandle
  case isTrue =>
      obtain ⟨_, rfl⟩ := Prod.mk.inj (Option.some.inj hhandle)
      exact Or.inr rfl
  case isFalse hshort =>
  split at hhandle
  case isTrue =>
      obtain ⟨_, rfl⟩ := Prod.mk.inj (Option.some.inj hhandle)
      exact Or.inr rfl
  case isFalse =>
  split at hhandle
  case isTrue hrestore =>
      rw [restore_of_should hrestore] at hhandle
      obtain ⟨rfl, rfl⟩ := Prod.mk.inj (Option.some.inj hhandle)
      exact Or.inl ⟨rfl, rfl⟩
  case isFalse =>
  split at hhandle
  case isTrue hhide =>
      obtain ⟨_, _, _, hnone, _⟩ := h.hide hhide hclear
      exact absurd hnone hhidden
  case isFalse =>
      rcases @handleShown_edits s event calculate separator hedits with
        ⟨hlone, hno, _⟩ | ⟨_, ⟨heq, _⟩ | ⟨heq, _⟩ | heq⟩
      · refine absurd ⟨hhidden, hlone, not_not.1 hshort, ?_⟩ hrule
        rcases hedits with hdigit | hdelete
        · exact Or.inl ⟨hdigit, hno⟩
        · exact Or.inr hdelete.2
      all_goals
        rw [heq] at hhandle
        obtain ⟨_, rfl⟩ := Prod.mk.inj (Option.some.inj hhandle)
        exact Or.inr rfl

theorem Inv.keepsHidden (h : Inv s) {e : Typed} (hrule : ¬ OverLoneZero s e.1) :
    KeepsHidden calculate separator s e := by
  obtain ⟨s', hs', _⟩ := @inv_input _ e.1 calculate separator e.2 h
  refine ⟨s', hs', fun hedits => ?_⟩
  by_cases hhidden : s.hasHiddenPart
  · have hclear : s.clearInput = false := h.clearInput_eq hhidden
    rw [input] at hs'
    obtain ⟨⟨consumed, next⟩, hhandle, hnext⟩ := Option.map_eq_some_iff.1 hs'
    dsimp only at hnext
    rcases handle_edits h hclear hhidden hedits hrule hhandle with ⟨rfl, hrestored⟩ | hsame
    · rw [if_pos rfl] at hnext
      rw [← hnext]
      exact hrestored ▸ List.prefix_rfl
    · rw [equation, ← hnext]
      split
      case isTrue =>
          rw [hsame]
          exact List.prefix_append _ _
      case isFalse =>
          rw [onInput_hidden, hsame]
          exact List.prefix_append _ _
  · rw [not_not.1 hhidden]
    exact List.nil_prefix

/-- There is one character at most in a field that has been cleared for a digit. -/
theorem length_onInput_clear : (s.clear.onInput event room).equation.length ≤ 1 := by
  rw [onInput]
  split
  case isTrue => exact Nat.zero_le _
  case isFalse =>
      split
      case h_1 => exact Nat.zero_le _
      case h_2 =>
          split
          case isTrue => exact Nat.le_refl _
          case isFalse => exact Nat.zero_le _

/-- Both parts are cleared. -/
theorem input_overLoneZero (h : Inv s) (hover : OverLoneZero s event) :
    s.input calculate separator event room = some (s.clear.onInput event room) := by
  obtain ⟨hhidden, htext, hshort, hkey⟩ := hover
  have hclear : s.clearInput = false := h.clearInput_eq hhidden
  have hedits : Edits event := hkey.imp And.left fun hpnd => ⟨hshort, hpnd⟩
  have hzero : ¬ event.Is .KEY_0 := by
    rcases hkey with ⟨_, hno⟩ | hpnd
    · exact hno
    · exact other_key hpnd (by decide)
  have hrestore : ¬ s.shouldRestoreInput event := fun hrestore =>
    absurd (hrestore.2.1.symm.trans htext) (by decide)
  have hhide : ¬ s.shouldHideInput event := fun hhide => hhide.1 (congrArg List.length htext)
  have hhandle : s.handle calculate separator event = some (false, s.clear) := by
    rw [handle_of_ready hclear, if_neg hedits.not_long, if_neg (not_not.2 hshort),
      if_neg fun hno => hzero hno.1, if_neg hrestore, if_neg hhide]
    rcases @handleShown_edits s event calculate separator hedits with ⟨_, _, heq⟩ | ⟨hno, _⟩
    · rw [heq]
    · exact absurd ⟨htext, hzero⟩ hno
  rw [input, hhandle]
  rfl

theorem keepsHidden_iff (h : Inv s) (e : Typed) :
    KeepsHidden calculate separator s e ↔ ¬ OverLoneZero s e.1 := by
  constructor
  · intro ⟨s', hs', hkeeps⟩ hover
    rw [input_overLoneZero h hover] at hs'
    obtain rfl := Option.some.inj hs'
    have hedits : Edits e.1 := hover.2.2.2.imp And.left fun hpnd => ⟨hover.2.2.1, hpnd⟩
    have hle := Nat.le_trans (hkeeps hedits).length_le length_onInput_clear
    have := h.hidden hover.1
    omega
  · exact h.keepsHidden

/-- In a run from an empty field the preconditions hold whenever they are checked, and no digit
key or short delete removes what is hidden, exactly when none of them, the zero apart, meets a
field with a lone zero while a part of the equation is hidden. -/
theorem hidden_operand_kept_iff {events : List Typed} :
    EveryStep (KeepsHidden calculate separator) (step calculate separator) start events ↔
      EveryStep (fun s e => ¬ OverLoneZero s e.1) (step calculate separator) start events :=
  @everyStep_congr _ _ Inv _ _ (step calculate separator)
    (fun _ e h => keepsHidden_iff h e) (fun _ e h _ => inv_step h e) _ _ inv_start

/-- `1+05` is taken for `5`. -/
theorem first_operand_lost :
    ¬ EveryStep (KeepsHidden (fun source => ⟨source, false⟩) .full_stop)
      (step (fun source => ⟨source, false⟩) .full_stop) start
      ([.KEY_1, .KEY_UP, .KEY_0, .KEY_5].map fun code => (⟨.keyReleasedShort, code⟩, true)) := by
  intro h
  obtain ⟨s', hs', hkeeps⟩ := h.2.2.2.1
  obtain rfl : ⟨[0x35], false, []⟩ = s' := Option.some.inj hs'
  exact absurd (hkeeps (Or.inl rfl)) (by decide)

/-! ## The equation that is typed -/

section Equation

variable {digit : Nat}

/-- What a digit key may make of the equation: it may take the place of a zero, and there may
be no room for it. -/
def DigitTyped (equation : Codes) (digit : Nat) (equation' : Codes) : Prop :=
  ∃ base, (base = equation ∨ equation = base ++ [zero]) ∧
    (equation' = base ∨ equation' = base ++ [zero + digit.toUInt32])

theorem equation_onInput (hdigit : toNumeric event.keyCode = some digit) :
    (s.onInput event room).equation = s.equation ∨
      (s.onInput event room).equation = s.equation ++ [zero + digit.toUInt32] := by
  have hpnd : ¬ event.Is .KEY_PND := not_is_of_isDigit (isDigit_of_numeric hdigit) rfl
  rw [onInput, if_neg fun hdelete => hpnd hdelete.2, hdigit]
  dsimp only
  split
  case isTrue => exact Or.inr (List.append_assoc _ _ _).symm
  case isFalse => exact Or.inl rfl

theorem equation_removeChar (h : s.text ≠ []) : s.removeChar.equation = s.equation.dropLast :=
  (List.dropLast_append_of_ne_nil h).symm

theorem digitTyped_shown (hdigit : toNumeric event.keyCode = some digit)
    (hlone : s.text = [zero] → ¬ event.Is .KEY_0 → s.hiddenPartOfEquation = []) :
    let shown := s.handleShown calculate separator event
    DigitTyped s.equation digit
      (if shown.1 then shown.2 else shown.2.onInput event room).equation := by
  have hedits : Edits event := Or.inl (isDigit_of_numeric hdigit)
  intro shown
  rcases @handleShown_edits s event calculate separator hedits with
    ⟨htext, hno, heq⟩ | ⟨_, ⟨heq, _⟩ | ⟨heq, hlast, _⟩ | heq⟩
  · have hnil := hlone htext hno
    rw [show shown = (false, s.clear) from heq]
    refine ⟨[], Or.inr (by rw [equation, hnil, htext]), ?_⟩
    exact equation_onInput hdigit
  · rw [show shown = (true, s) from heq]
    exact ⟨s.equation, Or.inl rfl, Or.inl rfl⟩
  · rw [show shown = (false, s.removeChar) from heq]
    obtain ⟨front, htext⟩ := List.getLast?_eq_some_iff.1 hlast
    have hremoved : s.removeChar.equation = s.hiddenPartOfEquation ++ front := by
      rw [equation, removeChar, htext, List.dropLast_concat]
    refine ⟨s.removeChar.equation, Or.inr ?_, equation_onInput hdigit⟩
    rw [hremoved, equation, htext, List.append_assoc]
  · rw [show shown = (false, s) from heq]
    exact ⟨s.equation, Or.inl rfl, equation_onInput hdigit⟩

/-- A digit is added to the equation, or takes the place of a leading zero, if there is room
for it. -/
theorem digit_typed (h : Inv s) (hclear : s.clearInput = false) (hshort : event.isShortRelease)
    (hdigit : toNumeric event.keyCode = some digit) (hrule : ¬ OverLoneZero s event) :
    ∃ s', s.input calculate separator event room = some s' ∧
      DigitTyped s.equation digit s'.equation := by
  have hisDigit : event.isDigit := isDigit_of_numeric hdigit
  have hpnd : ¬ event.Is .KEY_PND := not_is_of_isDigit hisDigit rfl
  rw [input, handle_of_ready hclear, if_neg fun hlong => hpnd hlong.2, if_neg (not_not.2 hshort)]
  by_cases hzero : event.Is .KEY_0 ∧ s.text = [zero]
  · rw [if_pos hzero]
    exact ⟨s, rfl, s.equation, Or.inl rfl, Or.inl rfl⟩
  · rw [if_neg hzero, if_neg fun hrestore => hpnd hrestore.1]
    by_cases hhide : s.shouldHideInput event
    · obtain ⟨hidden, hsome, _, _, hempty, hequation⟩ := h.hide hhide hclear
      rw [if_pos hhide, hsome, ← hequation]
      refine ⟨_, rfl, digitTyped_shown hdigit fun htext => ?_⟩
      rw [hempty] at htext
      cases htext
    · rw [if_neg hhide]
      refine ⟨_, rfl, digitTyped_shown hdigit fun htext hno => ?_⟩
      by_contra hhidden
      exact hrule ⟨hhidden, htext, hshort, Or.inl ⟨hisDigit, hno⟩⟩

/-- A short delete takes the last character of the equation, or brings back to the field what
is hidden. -/
theorem delete_typed (hclear : s.clearInput = false) (hshort : event.isShortRelease)
    (hpnd : event.Is .KEY_PND) (hrule : ¬ OverLoneZero s event) :
    ∃ s', s.input calculate separator event room = some s' ∧
      s'.equation = if s.text = [] then s.equation else s.equation.dropLast := by
  have hedits : Edits event := Or.inr ⟨hshort, hpnd⟩
  have hnoDigit : ¬ event.isDigit := fun hdigit => not_is_of_isDigit hdigit rfl hpnd
  have hzero : ¬ event.Is .KEY_0 := other_key hpnd (by decide)
  have honInput : ∀ next : InputProcessorText, next.onInput event room = next.removeChar :=
    fun _ => if_pos ⟨hshort, hpnd⟩
  rw [input, handle_of_ready hclear, if_neg hedits.not_long, if_neg (not_not.2 hshort),
    if_neg fun hno => hzero hno.1]
  by_cases hrestore : s.shouldRestoreInput event
  · rw [if_pos hrestore, restore_of_should hrestore, if_pos hrestore.2.1]
    exact ⟨_, rfl, by rw [equation, equation, hrestore.2.1, List.append_nil]; rfl⟩
  · rw [if_neg hrestore, if_neg fun hhide => hnoDigit hhide.2.2]
    refine ⟨_, rfl, ?_⟩
    rcases @handleShown_edits s event calculate separator hedits with
      ⟨htext, _, heq⟩ | ⟨_, ⟨_, hdigit⟩ | ⟨_, _, hdigit⟩ | heq⟩
    · have hnil : s.hiddenPartOfEquation = [] := by
        by_contra hhidden
        exact hrule ⟨hhidden, htext, hshort, Or.inr hpnd⟩
      rw [heq]
      show (s.clear.onInput event room).equation = _
      rw [honInput, if_neg (by simp [htext]), equation, equation, hnil, htext]
      rfl
    · exact absurd hdigit hnoDigit
    · exact absurd hdigit hnoDigit
    · rw [heq]
      show (s.onInput event room).equation = _
      rw [honInput]
      by_cases hempty : s.text = []
      · rw [if_pos hempty, equation, equation, removeChar, hempty]
        rfl
      · rw [if_neg hempty]
        exact equation_removeChar hempty

/-- What is computed is the whole equation. -/
theorem enter_computes (hclear : s.clearInput = false) (hshort : event.isShortRelease)
    (henter : event.Is .KEY_ENTER) :
    s.input calculate separator event room
      = some { text := (calculate s.equation).value
               clearInput := (calculate s.equation).isError
               hiddenPartOfEquation := [] } := by
  have hno : ∀ code, .KEY_ENTER ≠ code → ¬ event.Is code := fun _ => other_key henter
  have hdigit : ¬ event.isDigit := fun hdigit => not_is_of_isDigit hdigit rfl henter
  have hkept : ¬ (¬ event.Is .KEY_0 ∧ ¬ event.Is .KEY_ENTER ∧ s.text = [zero]) :=
    fun hlone => hlone.2.1 henter
  have hzero := hno .KEY_0 (by decide)
  have hpnd := hno .KEY_PND (by decide)
  rw [input, handle_of_ready hclear, if_neg fun hlong => hpnd hlong.2, if_neg (not_not.2 hshort),
    if_neg fun hcode => hzero hcode.1, if_neg fun hrestore => hpnd hrestore.1,
    if_neg fun hhide => hdigit hhide.2.2, handleShown, if_neg fun hcode => hzero hcode.2,
    if_neg (hno .KEY_UP (by decide)), if_neg (hno .KEY_DOWN (by decide)),
    if_neg (hno .KEY_LEFT (by decide)), if_neg (hno .KEY_RIGHT (by decide)),
    if_neg (hno .KEY_LF (by decide)), if_neg fun hremove => hremove.2.2.2 henter,
    if_pos henter, if_neg hkept]
  rfl

end Equation

end MuditaOS.Calculator.InputProcessorText
