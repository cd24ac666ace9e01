import MuditaOS.Lib.Table
import MuditaOS.Unicode.Ucs2

/-!
# Parsing received messages

A transcription of `SMSParser.cpp`. The globals of the parser are one state. The
table of parts is kept as its lookup function: a reference without an entry and
one whose entry has no parts look the same to every function here. Strings are
lists of bytes.
-/

namespace MuditaOS.Sms

open MuditaOS.Lib MuditaOS.Unicode

/-- `QCMGR`. -/
def smsReadMsgName : List UInt8 := [0x51, 0x43, 0x4D, 0x47, 0x52]

/-- The loop over `std::getline(ss, token, ',')`, `token` the characters read so
far; a comma at the end is followed by no token. -/
def tokensFrom (token : List UInt8) : List UInt8 → List (List UInt8)
  | [] => if token = [] then [] else [token]
  | c :: cs =>
      if c = 0x2C then token :: tokensFrom [] cs
      else tokensFrom (token ++ [c]) cs

def tokens (line : List UInt8) : List (List UInt8) := tokensFrom [] line

/-- `s.erase(std::remove(s.begin(), s.end(), '\"'), s.end())`. -/
def unquote (s : List UInt8) : List UInt8 := s.filter (· ≠ 0x22)

structure SMSParser where
  /-- The keys are of type `uint16_t`, and those of an entry `uint8_t`. -/
  concatenatedMessage : Nat → Nat → Option (List UInt8)
  message : List UInt8
  number : UTF8

namespace SMSParser

/-- The globals at the start, the number's buffer at `addr`. -/
def initial (addr : Nat) : SMSParser where
  concatenatedMessage := fun _ _ => none
  message := []
  number := UTF8.empty addr

/-- The branch of a part, the three numbers as `std::stoi` returns them. -/
def parsePart (s : SMSParser) (smsId current total : Int) (text : List UInt8) :
    Bool × SMSParser :=
  let smsId := (smsId % 2 ^ 16).toNat
  let current := (current % 2 ^ 8).toNat
  let total := (total % 2 ^ 32).toNat
  let parts := Function.update (s.concatenatedMessage smsId) current (some text)
  if (entries (2 ^ 8) parts).length = total then
    (true,
      { s with
        message := (entries (2 ^ 8) parts).flatten
        concatenatedMessage :=
          Function.update s.concatenatedMessage smsId fun _ => none })
  else
    (false,
      { s with
        concatenatedMessage :=
          Function.update s.concatenatedMessage smsId parts })

/-- `parse` of the lines `smsData[0]` and `smsData[1]`, the decoded number at
`addr`; `none` is an access behind the last token. -/
def parse (addr : Nat) (s : SMSParser) (line text : List UInt8) :
    Option (Bool × SMSParser) :=
  if find smsReadMsgName line 0 = none then some (false, s)
  else
    match tokens line with
    | _ :: sender :: _ :: _ :: rest =>
        let s := { s with
          number := s.number.moveAssign
            (UCS2.toUTF8 addr (UCS2.ofString (unquote sender))) }
        match rest with
        | [_] => some (true, { s with message := text })
        | [_, smsId, current, total] =>
            match stoSigned 32 10 smsId, stoSigned 32 10 current,
              stoSigned 32 10 total with
            | some smsId, some current, some total =>
                some (s.parsePart smsId current total text)
            | _, _, _ => some (false, s)
        | _ => some (false, s)
    | _ => none

/-- The copy that the caller gets is at `addr`. -/
def getNumber (addr : Nat) (s : SMSParser) : UTF8 := UTF8.copy addr s.number

def getMessage (s : SMSParser) : List UInt8 := s.message

end SMSParser

end MuditaOS.Sms
