import MuditaOS.Lib.Gather
import MuditaOS.Utils.Strings
import MuditaOS.Cellular.AtCommon

/-!
# Lists in AT responses

A transcription of the parsers of `response.cpp` that fill a list: `ccfc::parse`,
`clck::parseQueryResponse`, `ccwa::parse` and the `parseCOPS` of an operator list. The
enumerations are kept as values, with the lists of their enumerators;
`magic_enum::enum_contains` is not in the repository and is a parameter.
-/

namespace MuditaOS.Cellular.Response

open MuditaOS.Lib MuditaOS.Utils

abbrev Text := List UInt8

def comma : Text := [0x2C]

/-- The quotation mark. -/
def stringDelimiter : Text := [0x22]

/-- `magic_enum::enum_contains`, asked with the enumerators of the type. -/
structure EnumContains where
  contains : List Int → Int → Bool
  contains_iff : ∀ {enumerators v}, contains enumerators v = true ↔ v ∈ enumerators

/-- The loop over the lines of a response, up to the one with the `OK`. -/
def parseLines {β : Type*} (read : Text → Outcome β) : List Text → List β → Bool × List β
  | [], parsed => (true, parsed)
  | el :: lines, parsed =>
      if (find Channel.ok el 0).isSome then (true, parsed)
      else
        match read el with
        | .push entry => parseLines read lines (parsed ++ [entry])
        | .skip => parseLines read lines parsed
        | .reject => (false, [])
        | .abandon => (false, parsed)

/-! ## Call forwarding -/

namespace Ccfc

/-- `+CCFC: `. -/
def toRemove : Text := [0x2B, 0x43, 0x43, 0x46, 0x43, 0x3A, 0x20]

def connectionClasses : List Int := [0, 1, 2, 4, 7, 8, 16, 32]

def forwardingStatuses : List Int := [0, 1]

def serviceDisabledTokenCount : Nat := 2

structure ParsedCcfc where
  connectionClass : Int
  status : Int
  number : Text
  deriving DecidableEq

def tokens (el : Text) : List Text := split (findAndReplaceAll el toRemove) comma true

def readLine (enum : EnumContains) (el : Text) : Outcome ParsedCcfc :=
  match find toRemove el 0 with
  | none => .reject
  | some _ =>
      if (tokens el).length = serviceDisabledTokenCount then .push ⟨0, 0, []⟩
      else
        match tokens el with
        | statusToken :: connectionClassToken :: number :: _ =>
            match toNumeric statusToken, toNumeric connectionClassToken with
            | some status, some connectionClass =>
                if enum.contains forwardingStatuses status ∧
                    enum.contains connectionClasses connectionClass then
                  match find stringDelimiter number 0 with
                  | none => .reject
                  | some _ =>
                      .push ⟨connectionClass, status, findAndReplaceAll number stringDelimiter⟩
                else .reject
            | _, _ => .reject
        | _ => .skip

def parse (enum : EnumContains) (response : List Text) (_parsed : List ParsedCcfc) :
    Bool × List ParsedCcfc :=
  parseLines (readLine enum) response []

end Ccfc

/-! ## Call barring and call waiting -/

/-- `ClckParsed` and `CcwaParsed`. -/
structure ServiceParsed where
  status : Int
  serviceClass : Int
  deriving DecidableEq

/-- `ServiceClass`, of `mmi` and of `ccwa`. -/
def serviceClasses : List Int := [1, 2, 4, 16, 32, 255]

def serviceTokens (responseToken el : Text) : List Text :=
  (split (findAndReplaceAll el responseToken) comma true).map trim

/-- A line of either parser, with what it does where a token is no number. -/
def readService (enum : EnumContains) (responseToken : Text) (statuses : List Int)
    (enough : Nat → Bool) (notNumeric : Outcome ServiceParsed) (el : Text) :
    Outcome ServiceParsed :=
  match find responseToken el 0 with
  | none => .reject
  | some _ =>
      match serviceTokens responseToken el with
      | statusToken :: serviceClassToken :: more =>
          if enough (more.length + 2) then
            match toNumeric statusToken, toNumeric serviceClassToken with
            | some status, some serviceClass =>
                if enum.contains statuses status ∧ enum.contains serviceClasses serviceClass then
                  .push ⟨status, serviceClass⟩
                else .reject
            | _, _ => notNumeric
          else .reject
      | _ => .reject

namespace Clck

/-- `+CLCK: `. -/
def responseToken : Text := [0x2B, 0x43, 0x4C, 0x43, 0x4B, 0x3A, 0x20]

def statuses : List Int := [0, 1, 2]

def minTokens : Nat := 2

def readLine (enum : EnumContains) : Text → Outcome ServiceParsed :=
  readService enum responseToken statuses (fun size => minTokens ≤ size) .abandon

def parseQueryResponse (enum : EnumContains) (data : List Text)
    (_parsed : List ServiceParsed) : Bool × List ServiceParsed :=
  parseLines (readLine enum) data []

end Clck

namespace Ccwa

/-- `+CCWA: `. -/
def toRemove : Text := [0x2B, 0x43, 0x43, 0x57, 0x41, 0x3A, 0x20]

def statuses : List Int := [0, 1]

def tokenCount : Nat := 2

def readLine (enum : EnumContains) : Text → Outcome ServiceParsed :=
  readService enum toRemove statuses (fun size => size = tokenCount) .reject

def parse (enum : EnumContains) (data : List Text) (_parsed : List ServiceParsed) :
    Bool × List ServiceParsed :=
  parseLines (readLine enum) data []

end Ccwa

/-! ## Operators -/

def getResponseLineATCommand (resp : Result) (head : Text) : Option Text :=
  if resp.code = .ok then
    (resp.response.find? fun el => head.isPrefixOf el).map fun el => trim (el.drop head.length)
  else none

namespace Cops

/-- `+COPS:`. -/
def atCops : Text := [0x2B, 0x43, 0x4F, 0x50, 0x53, 0x3A]

def operatorStatuses : List Int := [0, 1, 2, 3]

def accessTechnologies : List Int := [0, 2, 3, 4, 5, 6, 7, 100]

def minCOPSLength : Nat := 12

/-- `,,`. -/
def listSeparator : Text := [0x2C, 0x2C]

/-- `),(`. -/
def groupSeparator : Text := [0x29, 0x2C, 0x28]

structure Operator where
  status : Int
  shortName : Text
  longName : Text
  numericName : Text
  technology : Option Int
  deriving DecidableEq

def readOperator (opp : Text) : Outcome Operator :=
  match split opp comma true with
  | [status, longName, shortName, numericName] =>
      .push
        { status := getNumericValue status
          longName := findAndReplaceAll longName stringDelimiter
          shortName := findAndReplaceAll shortName stringDelimiter
          numericName := findAndReplaceAll numericName stringDelimiter
          technology := none }
  | [status, longName, shortName, numericName, technology] =>
      .push
        { status := getNumericValue status
          longName := findAndReplaceAll longName stringDelimiter
          shortName := findAndReplaceAll shortName stringDelimiter
          numericName := findAndReplaceAll numericName stringDelimiter
          technology := some (getNumericValue technology) }
  | _ => .abandon

/-- Nothing is returned where `data[0]` is read from an empty vector. -/
def parseCOPS (resp : Result) (ret : List Operator) : Option (Bool × List Operator) :=
  match getResponseLineATCommand resp atCops with
  | none => some (false, ret)
  | some commandLine =>
      if commandLine.length < minCOPSLength then some (false, ret)
      else
        match split commandLine listSeparator true with
        | [] => none
        | operators :: _ =>
            if operators.head? = some 0x28 ∧ operators.getLast? = some 0x29 then
              let opArray := split (operators.drop 1).dropLast groupSeparator true
              some (gather readOperator opArray ret)
            else some (false, ret)

end Cops

end MuditaOS.Cellular.Response
