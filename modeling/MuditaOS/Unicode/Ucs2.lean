import MuditaOS.Lib.Numeral
import MuditaOS.Lib.Search
import MuditaOS.Unicode.Utf8String

/-!
# The text encoding of messages, `UCS2`

A transcription of `UCS2.cpp`. A unit of the buffer is a whole code: a character
of the base plane, or both surrogates of another one in one word. The sizes are
kept as the source keeps them, the used one in bytes and the allocated one in
units.
-/

namespace MuditaOS.Unicode

open MuditaOS.Lib

namespace Ucs2

def bufferExt : Nat := 32

end Ucs2

structure UCS2 where
  length : Nat := 0
  sizeUsed : Nat := 0
  sizeAllocated : Nat := Ucs2.bufferExt
  buffer : List UInt32 := List.replicate Ucs2.bufferExt 0
  deriving DecidableEq, Repr

namespace UCS2

/-- `clear`, also the default constructor. -/
def cleared : UCS2 := {}

def append (u : UCS2) (ucs2char : UInt32) : UCS2 :=
  let u := if u.sizeUsed = u.sizeAllocated then
      -- `memcpy` of `sizeAllocated` bytes
      { u with
        buffer := u.buffer.take (u.sizeAllocated / 4) ++
          List.replicate (u.sizeAllocated + Ucs2.bufferExt -
            u.sizeAllocated / 4) 0
        sizeAllocated := u.sizeAllocated + Ucs2.bufferExt }
    else u
  { u with
    buffer := u.buffer.set u.length ucs2char
    length := u.length + 1
    sizeUsed := u.sizeUsed + 4 }

def convertFromUtf (utfChar : UInt32) : UInt32 :=
  if (0xffff0000 : UInt32) &&& utfChar ≠ 0 then
    let x : UInt16 := (utfChar &&& 0x3FF).toUInt16
    let y : UInt16 := (utfChar &&& 0xF400).toUInt16
    let low : UInt16 := 0xDC00 + x
    let high : UInt16 := 0xD800 + (y >>> (10 : UInt16))
    (high.toUInt32 <<< (16 : UInt32)) + low.toUInt32
  else utfChar

/-- The loop of `UCS2(const UTF8 &)`, `i` of `count` characters to go. -/
def ofUtf8Loop (count : Nat) : Nat → UTF8 → UCS2 → UCS2
  | 0, _, u => u
  | i + 1, string, u =>
      let (utfChar, string) := string.index (count - (i + 1))
      ofUtf8Loop count i string (u.append (convertFromUtf utfChar))

/-- `UCS2(const UTF8 &)`. -/
def ofUtf8 (string : UTF8) : UCS2 :=
  ofUtf8Loop string.strLength string.strLength string cleared

/-! ## The hexadecimal form -/

def hexDigit (d : Nat) : UInt8 :=
  if d < 10 then UInt8.ofNat (0x30 + d) else UInt8.ofNat (0x41 + (d - 10))

/-- An integer on an `ostream` with `hex` and `uppercase`, eight digits at
most. -/
def hexDigits : Nat → Nat → List UInt8
  | 0, _ => []
  | fuel + 1, v =>
      if v < 16 then [hexDigit v]
      else hexDigits fuel (v / 16) ++ [hexDigit (v % 16)]

/-- The same with `setw(4)` and `setfill('0')`. -/
def hexPadded (v : UInt32) : List UInt8 :=
  let s := hexDigits 8 v.toNat
  List.replicate (4 - s.length) 0x30 ++ s

def str (u : UCS2) : List UInt8 := (u.buffer.take u.length).flatMap hexPadded

/-- `buf >> hex >> value`. -/
def readHex (s : List UInt8) : UInt32 :=
  match strtol 16 s with
  | some v => UInt32.ofInt v
  | none => 0

/-- `std::stoi(string.substr(i * 4, 4), 0, 16)`. -/
def stoiChunk (string : List UInt8) (i : Nat) : Option Int :=
  stoSigned 32 16 (substr string (i * 4) (some 4))

/-- The character at chunk `i`, and the string, which the two exception
handlers clear. -/
def getUcs2Char (u : UCS2) (string : List UInt8) (i : Nat) : UInt32 × UCS2 :=
  match stoiChunk string i with
  | none => (0, cleared)
  | some v =>
      let ucs2char := UInt32.ofInt v
      if i < string.length / 4 - 1 then
        match stoiChunk string (i + 1) with
        | none => (ucs2char, cleared)
        | some v' =>
            let nextUcs2char := (UInt32.ofInt v').toUInt16
            if ucs2char &&& 0xD800 ≠ 0 ∧ nextUcs2char &&& 0xDC00 ≠ 0 then
              (readHex (substr string (i * 4) (some 8)), u)
            else (ucs2char, u)
      else (ucs2char, u)

/-- The loop of `UCS2(const std::string &)`, on a fuel of one unit a chunk. -/
def ofStringLoop (string : List UInt8) : Nat → Nat → UCS2 → UCS2
  | 0, _, u => u
  | fuel + 1, i, u =>
      if i < string.length / 4 then
        let (ucs2char, u) := getUcs2Char u string i
        if (0xffff0000 : UInt32) &&& ucs2char ≠ 0 then
          ofStringLoop string fuel (i + 2) (u.append ucs2char)
        else ofStringLoop string fuel (i + 1) (u.append ucs2char)
      else u

/-- `UCS2(const std::string &)`. -/
def ofString (string : List UInt8) : UCS2 :=
  (ofStringLoop string (string.length / 4) 0 cleared).append 0

/-! ## Back to UTF-8 -/

/-- `convertToUtf8String({code})`, the standard converter. -/
def convertToUtf8String (code : UInt32) : List UInt8 :=
  String.utf8EncodeChar (Char.ofNat code.toNat)

/-- What the loop of `toUTF8` appends for one unit. -/
def decodeUnit (c : UInt32) : List UInt8 :=
  if c > 0xffff then
    let y : UInt16 := ((c &&& 0x03FF0000) >>> (16 : UInt32)).toUInt16
    let x : UInt16 := (c &&& 0x03FF).toUInt16
    convertToUtf8String (0x10000 + (y.toUInt32 <<< (10 : UInt32)) + x.toUInt32)
  else if c > 0x07ff then
    [((0x00E0 : UInt32) ||| ((c &&& 0xF000) >>> 12)).toUInt8,
      ((0x0080 : UInt32) ||| ((c &&& 0x0FC0) >>> 6)).toUInt8,
      ((0x0080 : UInt32) ||| (c &&& 0x003F)).toUInt8]
  else if c > 0x07f then
    [((0x00C0 : UInt32) ||| ((c &&& 0x07C0) >>> 6)).toUInt8,
      ((0x0080 : UInt32) ||| (c &&& 0x003F)).toUInt8]
  else [c.toUInt8]

def toUTF8 (addr : Nat) (u : UCS2) : UTF8 :=
  if u.length = 0 then UTF8.empty addr
  else UTF8.ofCString addr ((u.buffer.take u.length).flatMap decodeUnit)

end UCS2

end MuditaOS.Unicode
