import MuditaOS.Gui.TextDocument
import MuditaOS.Lib.Search

/-!
# The input of the calculator

A transcription of `CalculatorInputProcessorText.cpp` and of `InputEvent.hpp`. The input field
is the text in it, with the cursor at its end: the processor consumes the keys that move it.
How an equation is calculated is a parameter. A call whose precondition does not hold is `none`.
-/

namespace MuditaOS.Calculator

open MuditaOS.Lib MuditaOS.Unicode MuditaOS.Gui

/-! ## Events -/

inductive KeyCode where
  | KEY_UNDEFINED
  | KEY_LEFT | KEY_UP | KEY_RIGHT | KEY_DOWN
  | KEY_LF | KEY_RF | KEY_ENTER
  | KEY_0 | KEY_1 | KEY_2 | KEY_3 | KEY_4 | KEY_5 | KEY_6 | KEY_7 | KEY_8 | KEY_9
  | KEY_AST | KEY_PND
  | KEY_VOLUP | KEY_VOLDN | KEY_TORCH
  | SWITCH_UP | SWITCH_MID | SWITCH_DN
  | HEADSET_OK | HEADSET_VOLUP | HEADSET_VOLDN
  deriving DecidableEq, Repr

/-- None is `InvalidNumericKeyCode`. -/
def toNumeric : KeyCode → Option Nat
  | .KEY_0 => some 0
  | .KEY_1 => some 1
  | .KEY_2 => some 2
  | .KEY_3 => some 3
  | .KEY_4 => some 4
  | .KEY_5 => some 5
  | .KEY_6 => some 6
  | .KEY_7 => some 7
  | .KEY_8 => some 8
  | .KEY_9 => some 9
  | _ => none

inductive InputEvent.State where
  | Undefined | keyPressed | keyReleasedShort | keyReleasedLong | keyMoved
  deriving DecidableEq, Repr

structure InputEvent where
  state : InputEvent.State
  keyCode : KeyCode
  deriving DecidableEq, Repr

namespace InputEvent

def isShortRelease (e : InputEvent) : Prop := e.state = .keyReleasedShort

def isLongRelease (e : InputEvent) : Prop := e.state = .keyReleasedLong

def Is (e : InputEvent) (code : KeyCode) : Prop := e.keyCode = code

def isDigit (e : InputEvent) : Prop := (toNumeric e.keyCode).isSome

variable {e : InputEvent} {code : KeyCode}

instance : Decidable e.isShortRelease := inferInstanceAs (Decidable (_ = _))

instance : Decidable e.isLongRelease := inferInstanceAs (Decidable (_ = _))

instance : Decidable (e.Is code) := inferInstanceAs (Decidable (_ = _))

instance : Decidable e.isDigit := inferInstanceAs (Decidable (_ = true))

end InputEvent

/-! ## Symbols -/

namespace symbols

def plus : UInt32 := 0x002B
def minus : UInt32 := 0x002D
def division : UInt32 := 0x00F7
def multiplication : UInt32 := 0x00D7
def full_stop : UInt32 := 0x002E
def comma : UInt32 := 0x002C
def zero : UInt32 := 0x0030

end symbols

open symbols

def isSymbol (code : UInt32) : Prop :=
  code = plus ∨ code = minus ∨ code = division ∨ code = multiplication ∨ code = comma ∨
    code = full_stop

def isOperation (code : UInt32) : Prop :=
  code = plus ∨ code = minus ∨ code = division ∨ code = multiplication

def isDecimalSeparator (code : UInt32) : Prop := code = comma ∨ code = full_stop

instance {code : UInt32} : Decidable (isSymbol code) := inferInstanceAs (Decidable (_ ∨ _))

instance {code : UInt32} : Decidable (isOperation code) := inferInstanceAs (Decidable (_ ∨ _))

instance {code : UInt32} : Decidable (isDecimalSeparator code) :=
  inferInstanceAs (Decidable (_ ∨ _))

/-- The decimal separator of a language: what it is translated to. -/
inductive Separator where
  | full_stop
  | comma
  deriving DecidableEq, Repr

def Separator.code : Separator → UInt32
  | full_stop => symbols.full_stop
  | comma => symbols.comma

def MaxInputLength : Nat := 7

def MaxDecimalDigits : Nat := 6

/-! ## The number that is typed -/

/-- `std::string::find_last_of`. -/
def findLastOf (set : List UInt8) : List UInt8 → Option Nat
  | [] => none
  | b :: bytes =>
      match findLastOf set bytes with
      | some i => some (i + 1)
      | none => if b ∈ set then some 0 else none

def bytesOf (text : Codes) : List UInt8 := text.flatMap u8char

/-- The indexes are of bytes, and the last one that is left out is counted in characters. -/
def isCurrentNumberDecimal (separator : Separator) (text : Codes) : Bool :=
  if text ≠ [] then
    let input := (bytesOf text).take (text.length - 1)
    let exponentIndex := findLastOf [0x65] input
    let minusIndex := findLastOf (u8char minus) input
    -- one more than `npos` is zero
    let afterExponent := (exponentIndex.map (· + 1)).getD 0
    let symbolsIndexes :=
      (if minusIndex ≠ some afterExponent then [minusIndex] else []) ++
        [findLastOf (u8char plus) input, findLastOf (u8char division) input,
          findLastOf (u8char multiplication) input]
    let lastNumber :=
      -- the largest index, where none is -1
      match symbolsIndexes.foldl (Option.merge Nat.max) none with
      | none => input
      | some index => input.drop index
    (find (u8char separator.code) lastNumber 0).isSome
  else false

def decimalLimitReached (separator : Separator) (text : Codes) : Bool :=
  if ¬ isCurrentNumberDecimal separator text then false
  else
    match findLastOf (u8char separator.code) (bytesOf text) with
    | none => MaxDecimalDigits < (bytesOf text).length + 1
    | some separator_pos => MaxDecimalDigits < (bytesOf text).length - separator_pos

/-! ## The processor -/

structure Result where
  value : Codes
  isError : Bool
  deriving DecidableEq, Repr

structure InputProcessorText where
  /-- The text of the input field. -/
  text : Codes
  clearInput : Bool
  hiddenPartOfEquation : Codes
  deriving DecidableEq, Repr

namespace InputProcessorText

def start : InputProcessorText := ⟨[], false, []⟩

/-- Nothing is left of what was typed. -/
def clear (_ : InputProcessorText) : InputProcessorText where
  text := []
  hiddenPartOfEquation := []
  clearInput := false

section State

variable (s : InputProcessorText)

def removeChar : InputProcessorText := { s with text := s.text.dropLast }

def addText (symbol : UInt32) : InputProcessorText := { s with text := s.text ++ [symbol] }

def lastCharacter : Option UInt32 := s.text.getLast?

def lastCharacterIsSymbol : Prop := ∃ c ∈ s.lastCharacter, isSymbol c

def lastCharacterIsOperation : Prop := ∃ c ∈ s.lastCharacter, isOperation c

def isThereOnlyOneChar : Prop := s.text.length = 1

def penultimateCharacter : Option UInt32 :=
  if s.text.length < 2 then none else s.text[s.text.length - 2]?

def penultimateCharacterIsSymbol : Prop := ∃ c ∈ s.penultimateCharacter, isSymbol c

def penultimateCharacterIsDecimalSeparator : Prop :=
  ∃ c ∈ s.penultimateCharacter, isDecimalSeparator c

def hasHiddenPart : Prop := s.hiddenPartOfEquation ≠ []

instance : Decidable s.lastCharacterIsSymbol := inferInstanceAs (Decidable (∃ _ ∈ _, _))

instance : Decidable s.lastCharacterIsOperation := inferInstanceAs (Decidable (∃ _ ∈ _, _))

instance : Decidable s.isThereOnlyOneChar := inferInstanceAs (Decidable (_ = _))

instance : Decidable s.penultimateCharacterIsSymbol := inferInstanceAs (Decidable (∃ _ ∈ _, _))

instance : Decidable s.penultimateCharacterIsDecimalSeparator :=
  inferInstanceAs (Decidable (∃ _ ∈ _, _))

instance : Decidable s.hasHiddenPart := inferInstanceAs (Decidable (_ ≠ _))

def shouldComputeBeforeNextOperation : Prop := s.hasHiddenPart ∧ s.text ≠ []

def shouldHideInput (event : InputEvent) : Prop :=
  ¬ s.isThereOnlyOneChar ∧ s.lastCharacterIsOperation ∧ event.isDigit

def shouldRestoreInput (event : InputEvent) : Prop :=
  event.Is .KEY_PND ∧ s.text = [] ∧ s.hasHiddenPart

instance : Decidable s.shouldComputeBeforeNextOperation := inferInstanceAs (Decidable (_ ∧ _))

instance {event : InputEvent} : Decidable (s.shouldHideInput event) :=
  inferInstanceAs (Decidable (_ ∧ _))

instance {event : InputEvent} : Decidable (s.shouldRestoreInput event) :=
  inferInstanceAs (Decidable (_ ∧ _))

def hideCurrentInput : Option InputProcessorText :=
  if s.hiddenPartOfEquation = [] then
    some { s with hiddenPartOfEquation := s.text, text := [] }
  else none

def restoreHiddenInput : Option InputProcessorText :=
  if s.hiddenPartOfEquation ≠ [] then
    some { s with text := s.hiddenPartOfEquation, hiddenPartOfEquation := [] }
  else none

def addSymbol (symbol : UInt32) : InputProcessorText :=
  if s.text ≠ [] then
    if s.lastCharacterIsSymbol then
      if ¬ s.penultimateCharacterIsSymbol ∧ 1 < s.text.length then
        s.removeChar.addText symbol
      else s
    else s.addText symbol
  else if symbol = minus then s.addText symbol
  else s

end State

section Parameters

variable (calculate : Codes → Result) (separator : Separator) (s : InputProcessorText)
  (event : InputEvent)

def compute : InputProcessorText :=
  let result := calculate (s.hiddenPartOfEquation ++ s.text)
  { s with text := result.value, hiddenPartOfEquation := [], clearInput := result.isError }

def handleOperation (operation : UInt32) : InputProcessorText :=
  if s.shouldComputeBeforeNextOperation then (s.compute calculate).addSymbol operation
  else s.addSymbol operation

def prohibitInput : Prop :=
  event.isDigit ∧
    (MaxInputLength ≤ s.text.length ∨ decimalLimitReached separator s.text = true)

instance : Decidable (s.prohibitInput separator event) := inferInstanceAs (Decidable (_ ∧ _))

/-- The last character is a zero after an operation. -/
def endsWithZeroOperand : Prop :=
  s.lastCharacter = some zero ∧ s.penultimateCharacterIsSymbol ∧
    ¬ s.penultimateCharacterIsDecimalSeparator

instance : Decidable s.endsWithZeroOperand := inferInstanceAs (Decidable (_ ∧ _))

/-- `handle`, from where the input is hidden. Returned is whether the event is consumed. -/
def handleShown : Bool × InputProcessorText :=
  if s.endsWithZeroOperand ∧ event.Is .KEY_0 then (true, s)
  else if event.Is .KEY_UP then (true, s.handleOperation calculate plus)
  else if event.Is .KEY_DOWN then (true, s.handleOperation calculate minus)
  else if event.Is .KEY_LEFT then (true, s.handleOperation calculate multiplication)
  else if event.Is .KEY_RIGHT then (true, s.handleOperation calculate division)
  else if event.Is .KEY_LF then
    (true, if ¬ isCurrentNumberDecimal separator s.text then s.addSymbol separator.code else s)
  else if s.endsWithZeroOperand ∧ ¬ event.Is .KEY_0 ∧ ¬ event.Is .KEY_PND ∧
      ¬ event.Is .KEY_ENTER then
    (false, s.removeChar)
  else
    let s := if ¬ event.Is .KEY_0 ∧ ¬ event.Is .KEY_ENTER ∧ s.text = [zero] then s.clear else s
    if event.Is .KEY_ENTER then (true, s.compute calculate)
    else (decide (s.prohibitInput separator event), s)

def handle : Option (Bool × InputProcessorText) :=
  let s := if s.clearInput then s.clear else s
  if event.isLongRelease ∧ event.Is .KEY_PND then some (true, s.clear)
  else if ¬ event.isShortRelease then some (false, s)
  else if event.Is .KEY_0 ∧ s.text = [zero] then some (true, s)
  else if s.shouldRestoreInput event then s.restoreHiddenInput.map fun s => (true, s)
  else if s.shouldHideInput event then
    s.hideCurrentInput.map fun s => s.handleShown calculate separator event
  else some (s.handleShown calculate separator event)

/-- What the input field does with an event that has not been consumed, if it has room for one
more character or has not. -/
def onInput (room : Bool) : InputProcessorText :=
  if event.isShortRelease ∧ event.Is .KEY_PND then s.removeChar
  else
    match toNumeric event.keyCode with
    | none => s
    | some digit =>
        if (event.isShortRelease ∨ event.isLongRelease) ∧ room then
          s.addText (zero + digit.toUInt32)
        else s

def input (room : Bool) : Option InputProcessorText :=
  (s.handle calculate separator event).map fun (consumed, s) =>
    if consumed then s else s.onInput event room

end Parameters

end InputProcessorText

end MuditaOS.Calculator
