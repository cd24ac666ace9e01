import Mathlib.Data.List.Basic

/-!
# One UTF-8 character

A transcription of the character functions of `UTF8.cpp`. Memory is the list of
bytes from the pointer on; what lies behind its end reads as zero, and no caller
depends on it.
-/

namespace MuditaOS.Unicode

/-- `pc[i]`. -/
def byteAt (pc : List UInt8) (i : Nat) : UInt8 := pc.getD i 0

def charIs1Byte (pc : List UInt8) : Bool := byteAt pc 0 &&& 0x80 == 0x00

def charIsInner (c : UInt8) : Bool := c &&& 0xC0 == 0x80

def charIs2Byte (pc : List UInt8) : Bool :=
  byteAt pc 0 &&& 0xE0 == 0xC0 && charIsInner (byteAt pc 1)

def charIs3Byte (pc : List UInt8) : Bool :=
  byteAt pc 0 &&& 0xF0 == 0xE0 && charIsInner (byteAt pc 1) &&
    charIsInner (byteAt pc 2)

def charIs4Byte (pc : List UInt8) : Bool :=
  byteAt pc 0 &&& 0xF8 == 0xF0 && charIsInner (byteAt pc 1) &&
    charIsInner (byteAt pc 2) && charIsInner (byteAt pc 3)

/-- Zero for bytes that are no character. -/
def charLength (utf8Char : List UInt8) : Nat :=
  if charIs1Byte utf8Char then 1
  else if charIs2Byte utf8Char then 2
  else if charIs3Byte utf8Char then 3
  else if charIs4Byte utf8Char then 4
  else 0

/-- `ret <<= 6; ret += c & 0x3F`. -/
def shiftIn (ret : UInt32) (c : UInt8) : UInt32 :=
  (ret <<< 6) + (c &&& 0x3F).toUInt32

/-- The code, and the length unless it is left unset. -/
def decode (pc : List UInt8) : UInt32 × Option Nat :=
  if byteAt pc 0 &&& 0x80 == 0x00 then ((byteAt pc 0).toUInt32, some 1)
  else if byteAt pc 0 &&& 0xE0 == 0xC0 then
    if charIsInner (byteAt pc 1) then
      (shiftIn (byteAt pc 0 &&& 0x1F).toUInt32 (byteAt pc 1), some 2)
    else (0, none)
  else if byteAt pc 0 &&& 0xF0 == 0xE0 then
    if charIsInner (byteAt pc 1) && charIsInner (byteAt pc 2) then
      (shiftIn (shiftIn (byteAt pc 0 &&& 0x0F).toUInt32 (byteAt pc 1))
        (byteAt pc 2), some 3)
    else (0, none)
  else if byteAt pc 0 &&& 0xF8 == 0xF0 then
    if charIsInner (byteAt pc 1) && charIsInner (byteAt pc 2) &&
        charIsInner (byteAt pc 3) then
      (shiftIn (shiftIn (shiftIn (byteAt pc 0 &&& 0x07).toUInt32
        (byteAt pc 1)) (byteAt pc 2)) (byteAt pc 3), some 4)
    else (0, none)
  else (0, some 0)

/-- `(code >> shift) & mask`. -/
def codeBits (code shift mask : UInt32) : UInt32 := (code >>> shift) &&& mask

/-- `dest` and `length`; `none` is the return value `false`. -/
def encode (code : UInt32) : Option (UInt32 × Nat) :=
  if 0xD800 ≤ code ∧ code ≤ 0xDFFF then none
  else if code < 0x0080 then some (code, 1)
  else if code < 0x0800 then
    some ((0x0000C080 : UInt32) ||| codeBits code 0 0x003F |||
      (codeBits code 6 0x001F <<< 8), 2)
  else
    some ((0xF0808080 : UInt32) ||| codeBits code 0 0x003F |||
      (codeBits code 6 0x003F <<< 8) ||| (codeBits code 12 0x003F <<< 16) |||
      (codeBits code 18 0x0007 <<< 24), 4)

/-- `ch[i]` of a value in memory, the low byte first. -/
def charOf (val : UInt32) (i : Nat) : UInt8 := (val >>> (8 * i).toUInt32).toUInt8

/-- The bytes of `U8char(code)`, `size` of them: those of the encoded value in
reverse. -/
def u8char (code : UInt32) : List UInt8 :=
  match encode code with
  | none => []
  | some (val, size) =>
      (List.range size).map fun j => charOf val (size - 1 - j)

/-- `getStreamLength`, size and count, on a fuel of one unit a byte; `none` is
the return value `false`. -/
def getStreamLength : Nat → List UInt8 → Option (Nat × Nat)
  | 0, _ => some (0, 0)
  | fuel + 1, stream =>
      if byteAt stream 0 = 0 then some (0, 0)
      else
        let byteLength := charLength stream
        if byteLength > 0 then
          (getStreamLength fuel (stream.drop byteLength)).map
            fun (size, count) => (size + byteLength, count + 1)
        else none

def getCharactersCount (stream : List UInt8) : Nat :=
  match getStreamLength stream.length stream with
  | some (_, count) => count
  | none => 0

end MuditaOS.Unicode
