import MuditaOS.Lib.Search

/-!
# Phone numbers

A transcription of the constructor from a text and of the comparison in `PhoneNumber.cpp`.
libphonenumber and the table of countries are parameters: what a text is parsed to, and what
is then said of the result. A comparison with it does not depend on the order of its
arguments.
-/

namespace MuditaOS.Utils

open MuditaOS.Lib

namespace phonenumbers

/-- `PhoneNumberUtil::MatchType`. -/
inductive MatchType where
  | INVALID_NUMBER
  | NO_MATCH
  | SHORT_NSN_MATCH
  | NSN_MATCH
  | EXACT_MATCH
  deriving DecidableEq, Repr

/-- `γ` is `i18n::phonenumbers::PhoneNumber`, and `κ` is `country::Id`. -/
structure PhoneNumberUtil (γ κ : Type*) where
  parseAndKeepRawInput : List UInt8 → κ → γ
  /-- The country of the region code. -/
  getRegionCodeForNumber : γ → κ
  isValidNumber : γ → Bool
  formatInOriginalFormat : γ → κ → List UInt8
  formatE164 : γ → List UInt8
  isNumberMatch : γ → γ → MatchType
  isNumberMatch_comm : ∀ a b, isNumberMatch a b = isNumberMatch b a

end phonenumbers

open phonenumbers

/-- From the weakest to the strongest. -/
inductive PhoneNumber.Match where
  | NO_MATCH
  | PROBABLE
  | POSSIBLE
  | EXACT
  deriving DecidableEq, Repr

structure PhoneNumber.View where
  entered : List UInt8
  formatted : List UInt8
  e164 : List UInt8
  valid : Bool
  deriving DecidableEq, Repr

def PhoneNumber.View.getNonEmpty (view : PhoneNumber.View) : List UInt8 :=
  if view.valid then view.e164 else view.entered

structure PhoneNumber (γ κ : Type*) where
  countryCode : κ
  pbNumber : γ
  viewSelf : PhoneNumber.View

namespace PhoneNumber

variable {γ κ : Type*} (util : PhoneNumberUtil γ κ)

def Match.toNat : Match → Nat
  | NO_MATCH => 0
  | PROBABLE => 1
  | POSSIBLE => 2
  | EXACT => 3

instance : LE Match := ⟨fun a b => a.toNat ≤ b.toNat⟩

instance (a b : Match) : Decidable (a ≤ b) := inferInstanceAs (Decidable (a.toNat ≤ b.toNat))

/-- The brackets, the hyphen and the space. -/
def characterToRemove (c : UInt8) : Bool := c ∈ [0x28, 0x29, 0x2D, 0x20]

def makeView (pbNumber : γ) (countryCode : κ) (rawInput : List UInt8) : View :=
  if !util.isValidNumber pbNumber then ⟨rawInput, rawInput, [], false⟩
  else
    ⟨rawInput, util.formatInOriginalFormat pbNumber countryCode, util.formatE164 pbNumber, true⟩

/-- `PhoneNumber(phoneNumber, defaultCountryCode)`. -/
def ofText (phoneNumber : List UInt8) (defaultCountryCode : κ) : PhoneNumber γ κ :=
  let number := phoneNumber.filter fun c => !characterToRemove c
  let pbNumber := util.parseAndKeepRawInput number defaultCountryCode
  let countryCode := util.getRegionCodeForNumber pbNumber
  ⟨countryCode, pbNumber, makeView util pbNumber countryCode number⟩

variable (self other : PhoneNumber γ κ)

def isValid : Bool := self.viewSelf.valid

def get : List UInt8 := self.viewSelf.entered

def toE164 : List UInt8 := self.viewSelf.e164

def getNonEmpty : List UInt8 := self.viewSelf.getNonEmpty

/-- One number is valid, and the other is the same if it is of the same country. -/
def matchesE164 : Bool :=
  let validNumber := if self.isValid then self else other
  let invalidNumber := if self.isValid then other else self
  let invalidCheck := ofText util invalidNumber.get validNumber.countryCode
  validNumber.toE164 == invalidCheck.toE164

/-- Whether the shorter of the two is an ending of the longer one. -/
def isEnding (mineEntered otherEntered : List UInt8) : Bool :=
  let longer := if mineEntered.length > otherEntered.length then mineEntered else otherEntered
  let shorter := if mineEntered.length < otherEntered.length then mineEntered else otherEntered
  let compareSize := shorter.length
  let compareOffset := longer.length - shorter.length
  compareSize > 0 && substr longer compareOffset (some compareSize) == shorter

def «match» : Match :=
  if !self.isValid && !other.isValid && self.get == other.get then .EXACT
  else if (self.isValid ^^ other.isValid) && matchesE164 util self other then .POSSIBLE
  else if self.isValid && other.isValid then
    match util.isNumberMatch self.pbNumber other.pbNumber with
    | .EXACT_MATCH => .EXACT
    | .SHORT_NSN_MATCH | .NSN_MATCH => .POSSIBLE
    | .NO_MATCH | .INVALID_NUMBER => .NO_MATCH
  else if isEnding self.getNonEmpty other.getNonEmpty then .PROBABLE
  else .NO_MATCH

end PhoneNumber

end MuditaOS.Utils

/-! ## Searching the number holders

A transcription of `NumberHolderMatcher.hpp`. The offset of a page is an `unsigned int`. The
loop runs on a fuel of one unit a page, and has no result where that is used up.
-/

namespace MuditaOS.Utils

open phonenumbers

/-- What the matcher asks of a holder. -/
structure NumberHolder (γ κ : Type*) where
  number : PhoneNumber γ κ
  contactID : UInt32

structure NumberHolderMatcher (γ κ : Type*) where
  numbers : List (NumberHolder γ κ)
  numbersProvider : PhoneNumber γ κ → UInt32 → UInt32 → List (NumberHolder γ κ)
  currentOffset : UInt32
  limit : UInt32

namespace NumberHolderMatcher

variable {γ κ : Type*}

/-- The constructor. -/
def ofProvider (provider : PhoneNumber γ κ → UInt32 → UInt32 → List (NumberHolder γ κ))
    (pageSize : UInt32) : NumberHolderMatcher γ κ :=
  ⟨[], provider, 0, pageSize⟩

variable (util : PhoneNumberUtil γ κ) (matcher : NumberHolderMatcher γ κ)
  (phoneNumber : PhoneNumber γ κ) (level : PhoneNumber.Match) (contactIDToIgnore : UInt32)

def next : Bool × NumberHolderMatcher γ κ :=
  let currentOffset := matcher.currentOffset + matcher.limit
  let numbers := matcher.numbersProvider phoneNumber currentOffset matcher.limit
  (!numbers.isEmpty, { matcher with currentOffset, numbers })

def restartFor : NumberHolderMatcher γ κ :=
  { matcher with
    currentOffset := 0
    numbers := matcher.numbersProvider phoneNumber 0 matcher.limit }

/-- What the lambda of `bestMatch` asks of a holder. -/
def isMatch (holder : NumberHolder γ κ) : Bool :=
  level ≤ phoneNumber.match util holder.number && holder.contactID != contactIDToIgnore

def bestMatchLoop : Nat → NumberHolderMatcher γ κ → Option (Option (NumberHolder γ κ))
  | 0, _ => none
  | fuel + 1, matcher =>
      match matcher.numbers.find? (isMatch util phoneNumber level contactIDToIgnore) with
      | some it => some (some it)
      | none =>
          match matcher.next phoneNumber with
          | (true, matcher) => bestMatchLoop fuel matcher
          | (false, _) => some none

def bestMatch (fuel : Nat) : Option (Option (NumberHolder γ κ)) :=
  if phoneNumber.get.isEmpty then some none
  else bestMatchLoop util phoneNumber level contactIDToIgnore fuel (matcher.restartFor phoneNumber)

end NumberHolderMatcher

end MuditaOS.Utils
