import Mathlib.Data.List.Basic

/-!
# TS 07.10 frames, as `CellularMuxFrame` reads and writes them

A transcription of `CellularMuxFrame.h`: the CRC table, `frame_t::serialize`,
`frame_t::deserialize` and `isComplete`. Vectors are lists of bytes and every
indexed read is a `?` read, so a read outside the vector shows up as `none`
instead of being assumed away. The 8-bit loop counters of the checksum loop and
the 16-bit length are machine words, because both wrap for frames of this size.
-/

namespace MuditaOS.Cellular

/-- `TS0710_FLAG`. -/
def ts0710Flag : UInt8 := 0xF9

/-- `TS0710_FRAME_HDR_LEN`, without the extended address byte. -/
def ts0710FrameHdrLen : Nat := 6

/-- `TypeOfFrame_e`. -/
inductive TypeOfFrame where
  | SABM | UA | DM | DISC | UIH | UI | I
  deriving DecidableEq, Repr

def TypeOfFrame.value : TypeOfFrame → UInt8
  | .SABM => 0x3F
  | .UA => 0x73
  | .DM => 0x1F
  | .DISC => 0x53
  | .UIH => 0xEF
  | .UI => 0x03
  | .I => 0x04

set_option maxRecDepth 4096 in
/-- Reversed, 8-bit, poly 0x07. -/
def crctable : Vector UInt8 256 := ⟨#[
  0x00, 0x91, 0xE3, 0x72, 0x07, 0x96, 0xE4, 0x75, 0x0E, 0x9F, 0xED, 0x7C,
  0x09, 0x98, 0xEA, 0x7B, 0x1C, 0x8D, 0xFF, 0x6E, 0x1B, 0x8A, 0xF8, 0x69,
  0x12, 0x83, 0xF1, 0x60, 0x15, 0x84, 0xF6, 0x67, 0x38, 0xA9, 0xDB, 0x4A,
  0x3F, 0xAE, 0xDC, 0x4D, 0x36, 0xA7, 0xD5, 0x44, 0x31, 0xA0, 0xD2, 0x43,
  0x24, 0xB5, 0xC7, 0x56, 0x23, 0xB2, 0xC0, 0x51, 0x2A, 0xBB, 0xC9, 0x58,
  0x2D, 0xBC, 0xCE, 0x5F, 0x70, 0xE1, 0x93, 0x02, 0x77, 0xE6, 0x94, 0x05,
  0x7E, 0xEF, 0x9D, 0x0C, 0x79, 0xE8, 0x9A, 0x0B, 0x6C, 0xFD, 0x8F, 0x1E,
  0x6B, 0xFA, 0x88, 0x19, 0x62, 0xF3, 0x81, 0x10, 0x65, 0xF4, 0x86, 0x17,
  0x48, 0xD9, 0xAB, 0x3A, 0x4F, 0xDE, 0xAC, 0x3D, 0x46, 0xD7, 0xA5, 0x34,
  0x41, 0xD0, 0xA2, 0x33, 0x54, 0xC5, 0xB7, 0x26, 0x53, 0xC2, 0xB0, 0x21,
  0x5A, 0xCB, 0xB9, 0x28, 0x5D, 0xCC, 0xBE, 0x2F, 0xE0, 0x71, 0x03, 0x92,
  0xE7, 0x76, 0x04, 0x95, 0xEE, 0x7F, 0x0D, 0x9C, 0xE9, 0x78, 0x0A, 0x9B,
  0xFC, 0x6D, 0x1F, 0x8E, 0xFB, 0x6A, 0x18, 0x89, 0xF2, 0x63, 0x11, 0x80,
  0xF5, 0x64, 0x16, 0x87, 0xD8, 0x49, 0x3B, 0xAA, 0xDF, 0x4E, 0x3C, 0xAD,
  0xD6, 0x47, 0x35, 0xA4, 0xD1, 0x40, 0x32, 0xA3, 0xC4, 0x55, 0x27, 0xB6,
  0xC3, 0x52, 0x20, 0xB1, 0xCA, 0x5B, 0x29, 0xB8, 0xCD, 0x5C, 0x2E, 0xBF,
  0x90, 0x01, 0x73, 0xE2, 0x97, 0x06, 0x74, 0xE5, 0x9E, 0x0F, 0x7D, 0xEC,
  0x99, 0x08, 0x7A, 0xEB, 0x8C, 0x1D, 0x6F, 0xFE, 0x8B, 0x1A, 0x68, 0xF9,
  0x82, 0x13, 0x61, 0xF0, 0x85, 0x14, 0x66, 0xF7, 0xA8, 0x39, 0x4B, 0xDA,
  0xAF, 0x3E, 0x4C, 0xDD, 0xA6, 0x37, 0x45, 0xD4, 0xA1, 0x30, 0x42, 0xD3,
  0xB4, 0x25, 0x57, 0xC6, 0xB3, 0x22, 0x50, 0xC1, 0xBA, 0x2B, 0x59, 0xC8,
  0xBD, 0x2C, 0x5E, 0xCF], rfl⟩

def crcStep (fcs b : UInt8) : UInt8 := crctable.get (fcs ^^^ b).toFin

/-- `while (len--) { FCS = crctable[FCS ^ v[i++]]; }` -/
def fcsLoop (v : List UInt8) : Nat → UInt8 → UInt8 → Option UInt8
  | 0, _, fcs => some fcs
  | len + 1, i, fcs => (v[i.toNat]?).bind fun b =>
      fcsLoop v len (i + 1) (crcStep fcs b)

/-- `TS0710FrameStatus`. -/
inductive FrameStatus where
  | OK | EmptyFrame | IncorrectStartStopFlags | CRCError
  deriving DecidableEq, Repr

/-- `frame_t`. -/
structure Frame where
  frameStatus : FrameStatus := .OK
  address : UInt8
  control : UInt8
  data : List UInt8 := []
  deriving DecidableEq, Repr

/-- `frame_t()` leaves the two header bytes uninitialised. -/
def Frame.uninit (address control : UInt8) : Frame :=
  { address := address, control := control }

/-- The length field: the 16-bit word is shifted in place, so the two cases
share nothing but the shift. -/
def lengthField (size : Nat) : List UInt8 :=
  let length := UInt16.ofNat size
  if length > 127 then
    let length := (length <<< 1) &&& ~~~0x0001
    [(length &&& 0x00FF).toUInt8, ((length >>> 8) &&& 0x00FF).toUInt8]
  else
    let length := (length <<< 1) ||| 0x0001
    [(length &&& 0x00FF).toUInt8]

def Frame.serialize (f : Frame) : Option (List UInt8) :=
  let ret := [ts0710Flag, f.address ||| 0x01, f.control] ++
    lengthField f.data.length ++ f.data
  let len : UInt8 :=
    if f.control = TypeOfFrame.UIH.value then 3 else UInt8.ofNat (ret.length - 1)
  (fcsLoop ret len.toNat 1 0xFF).map fun fcs => ret ++ [0xFF - fcs, ts0710Flag]

/-- The search for the trailing flag: how many bytes the loop has walked when
it breaks at the second flag, or all of them. -/
def frameLen : List UInt8 → Bool → Nat → Nat
  | [], _, myLen => myLen
  | c :: rest, myFrame, myLen =>
      if !myFrame && c == ts0710Flag then frameLen rest true (myLen + 1)
      else if myFrame && c == ts0710Flag then myLen + 1
      else frameLen rest myFrame (myLen + 1)

/-- Every error path clears the header bytes and sets the status. -/
def Frame.drop (f : Frame) (status : FrameStatus) : Frame :=
  { f with address := 0, control := 0, frameStatus := status }

/-- The payload length `deserialize` computes; the long form shifts the low
length byte again where the high one belongs. -/
def declaredLength (b3 : UInt8) : Nat :=
  if b3 &&& 0x01 ≠ 0 then (b3 >>> 1).toNat
  else (b3 >>> 1).toNat + (b3.toNat <<< 7)

/-- The checksum as `deserialize` folds it over the received bytes. -/
def receivedFcs (serData : List UInt8) (control : UInt8) (myLen : Nat) :
    Option UInt8 :=
  let len : UInt8 :=
    if control = TypeOfFrame.UIH.value then 3 else UInt8.ofNat (myLen - 2)
  (fcsLoop serData len.toNat 1 0xFF).bind fun fcs =>
    if control = TypeOfFrame.UIH.value then
      (serData[myLen - 2]?).map (crcStep fcs)
    else some fcs

/-- `frame_t::deserialize` past the flag check. -/
def Frame.deserializeBody (f : Frame) (serData : List UInt8) (myLen : Nat)
    (address b2 b3 : UInt8) : Option Frame :=
  let control := b2 &&& ~~~((0x01 : UInt8) <<< 4)
  if b3 = 0xFF ∧ myLen < 6 then some (f.drop .EmptyFrame)
  else
    -- the Quectel hack: a length byte of 0xFF means "up to the flag"
    let length := if b3 = 0xFF then myLen - 6 else declaredLength b3
    if serData.length < 4 + length then none
    else
      let data := (serData.drop 4).take length
      (receivedFcs serData control myLen).map fun fcs =>
        if fcs ≠ 0xCF ∧ b3 ≠ 0xFF ∧ control ≠ TypeOfFrame.UA.value then
          { f.drop .CRCError with data := [] }
        else { f with address := address, control := control, data := data }

/-- `frame_t::deserialize`; `none` is a read outside `serData`. -/
def Frame.deserialize (f : Frame) (serData : List UInt8) : Option Frame :=
  if serData.length < 4 then some (f.drop .EmptyFrame)
  else
    let myLen := frameLen serData false 0
    (serData[0]?).bind fun first => (serData[myLen - 1]?).bind fun last =>
      if first ≠ ts0710Flag ∨ last ≠ ts0710Flag then
        some (f.drop .IncorrectStartStopFlags)
      else
        (serData[1]?).bind fun address => (serData[2]?).bind fun b2 =>
          (serData[3]?).bind fun b3 =>
            f.deserializeBody serData myLen address b2 b3

/-- `CellularMuxFrame::isComplete`. -/
def isComplete (serData : List UInt8) : Bool :=
  match serData with
  | first :: _ :: _ :: b3 :: rest =>
      if first ≠ ts0710Flag ∨ serData.getLast? ≠ some ts0710Flag then false
      else if b3 &&& 0x01 ≠ 0 then
        ts0710FrameHdrLen + (b3 >>> 1).toNat ≤ serData.length
      else
        match rest with
        | b4 :: _ =>
            ts0710FrameHdrLen + ((b3 >>> 1).toNat + (b4.toNat <<< 7)) + 1 ≤
              serData.length
        | [] => false
  | _ => false

end MuditaOS.Cellular
