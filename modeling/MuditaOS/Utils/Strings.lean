import MuditaOS.Lib.Search
import MuditaOS.Lib.Numeral

/-!
# String helpers of `module-utils`

A transcription of what the components use of `Utils.hpp` and `Split.hpp`.
Strings are lists of bytes.
-/

namespace MuditaOS.Utils

open MuditaOS.Lib

/-- `WHITESPACE`. -/
def whitespace : List UInt8 := [0x20, 0x0A, 0x0D, 0x09, 0x0C, 0x0B]

def ltrim (s : List UInt8) : List UInt8 := s.dropWhile (· ∈ whitespace)

def rtrim (s : List UInt8) : List UInt8 :=
  (s.reverse.dropWhile (· ∈ whitespace)).reverse

def trim (s : List UInt8) : List UInt8 := rtrim (ltrim s)

/-- `toNumeric` into an `int`; `none` is the return value `false`. -/
def toNumeric (text : List UInt8) : Option Int := stoSigned 32 10 text

/-- `getNumericValue<int>`, which reads from a stream: what is no number is zero, and what
is none of an `int` is the nearest one. -/
def getNumericValue (value : List UInt8) : Int :=
  match strtol 10 value with
  | none => 0
  | some v => max (- 2 ^ 31) (min v (2 ^ 31 - 1))

/-- The loop of `findAndReplaceAll` with an empty replacement, on a fuel of one unit more
than the characters: every round takes out some. -/
def removeLoop (toSearch : List UInt8) : Nat → List UInt8 → List UInt8
  | 0, data => data
  | fuel + 1, data =>
      match find toSearch data 0 with
      | none => data
      | some pos =>
          removeLoop toSearch fuel (data.take pos ++ data.drop (pos + toSearch.length))

/-- `findAndReplaceAll(data, toSearch, "")`. -/
def findAndReplaceAll (data toSearch : List UInt8) : List UInt8 :=
  if toSearch = [] then data else removeLoop toSearch (data.length + 1) data

/-- The loop of `split`, on a fuel of one unit more than the characters behind
`posStart`: every round moves it past a delimiter. -/
def splitLoop (delimiter s : List UInt8) (skipEmptyTokens : Bool) :
    Nat → Nat → List (List UInt8)
  | 0, _ => []
  | fuel + 1, posStart =>
      match find delimiter s posStart with
      | some posEnd =>
          let token := substr s posStart (some (posEnd - posStart))
          let rest := splitLoop delimiter s skipEmptyTokens fuel
            (posEnd + delimiter.length)
          if !skipEmptyTokens || !token.isEmpty then token :: rest else rest
      | none =>
          let token := substr s posStart none
          if !skipEmptyTokens || !token.isEmpty then [token] else []

def split (s delimiter : List UInt8) (skipEmptyTokens : Bool) : List (List UInt8) :=
  splitLoop delimiter s skipEmptyTokens (s.length + 1) 0

/-- The loop of the `split` in `split_sv.hpp`, with one delimiter and the token read so
far; empty tokens are left out. -/
def splitViewFrom (delim : UInt8) (token : List UInt8) : List UInt8 → List (List UInt8)
  | [] => if token = [] then [] else [token]
  | c :: cs =>
      if c = delim then
        if token = [] then splitViewFrom delim [] cs else token :: splitViewFrom delim [] cs
      else splitViewFrom delim (token ++ [c]) cs

def splitView (strv : List UInt8) (delim : UInt8) : List (List UInt8) :=
  splitViewFrom delim [] strv

end MuditaOS.Utils

/-! ## Search and replace with a list of patterns

A transcription of `findAndReplaceAll` in `Utils.hpp`. A pattern has a replacement of its own or
takes one from `getReplaceString`, which is a function of the number it is given; the numbers it
was called with are kept, those of each pattern apart. A round of the loop costs one unit of
fuel.
-/

namespace MuditaOS.Utils

open MuditaOS.Lib

/-- The pattern, and its replacement if it has one. -/
abbrev ReplaceValue := List UInt8 × Option (List UInt8)

/-- `replaceStr` from one round to the next: it is looked for as long as it is empty. -/
def nextReplaceStr (second : Option (List UInt8)) (getReplaceString : Option (Nat → List UInt8))
    (valIdx : Nat) (replaceStr : List UInt8) : List UInt8 × List Nat :=
  if replaceStr.isEmpty then
    match second with
    | some replacement => (replacement, [])
    | none =>
        match getReplaceString with
        | some getReplaceString => (getReplaceString valIdx, [valIdx])
        | none => (replaceStr, [])
  else (replaceStr, [])

/-- The loop over the occurrences of one pattern, with the calls it makes. -/
def replaceLoop (toSearch : List UInt8) (second : Option (List UInt8))
    (getReplaceString : Option (Nat → List UInt8)) (valIdx : Nat) :
    Nat → List UInt8 → List UInt8 → Option (List UInt8 × List Nat)
  | 0, _, _ => none
  | fuel + 1, replaceStr, data =>
      match find toSearch data 0 with
      | none => some (data, [])
      | some foundPos =>
          let preStr := data.take foundPos
          let (replaceStr, calls) := nextReplaceStr second getReplaceString valIdx replaceStr
          let postStr := data.drop (foundPos + toSearch.length)
          (replaceLoop toSearch second getReplaceString valIdx fuel replaceStr
            (preStr ++ replaceStr ++ postStr)).map fun (data, more) => (data, calls ++ more)

/-- The loop over the patterns. An empty one is skipped, and is not counted. -/
def findAndReplaceFrom (fuel : Nat) (getReplaceString : Option (Nat → List UInt8)) :
    Nat → List ReplaceValue → List UInt8 → Option (List UInt8 × List (List Nat))
  | _, [], data => some (data, [])
  | valIdx, (toSearch, second) :: values, data =>
      if toSearch.isEmpty then
        (findAndReplaceFrom fuel getReplaceString valIdx values data).map
          fun (data, calls) => (data, [] :: calls)
      else do
        let (data, here) ← replaceLoop toSearch second getReplaceString valIdx fuel [] data
        let (data, calls) ← findAndReplaceFrom fuel getReplaceString (valIdx + 1) values data
        return (data, here :: calls)

def findAndReplaceValues (fuel : Nat) (data : List UInt8) (values : List ReplaceValue)
    (getReplaceString : Option (Nat → List UInt8)) : Option (List UInt8 × List (List Nat)) :=
  findAndReplaceFrom fuel getReplaceString 0 values data

end MuditaOS.Utils
