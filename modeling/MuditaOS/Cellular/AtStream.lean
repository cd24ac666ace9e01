import MuditaOS.Cellular.AtCommon
import MuditaOS.Utils.Strings

/-!
# The AT response assembler, `ATStream`

A transcription of `ATStream.cpp`. `magic_enum::enum_cast` on the two error
enumerations is not in the repository and is a parameter. Positions that come
from a wrapping subtraction are `sizeSub`: beyond the end of the buffer once
they wrap.
-/

namespace MuditaOS.Cellular

open MuditaOS.Lib

/-- `magic_enum::enum_cast` to `EquipmentErrorCode` and to `NetworkErrorCode`. -/
structure EnumCast where
  equipment : UInt32 → Option UInt32
  network : UInt32 → Option UInt32

/-- `minATCmdRet`, the shortest return, CRLF, a character, CRLF. -/
def minATCmdRet : Nat := 5

structure ATStream where
  result : Result := {}
  atAtTheBegin : Bool := false
  beginChecked : Bool := false
  lastPos : Nat := 0
  lineCounter : Nat := 0
  rxCount : Nat := 0
  atBuffer : List UInt8 := []
  isATReady : Bool := false
  errcode : UInt32 := 0
  deriving DecidableEq, Repr

namespace ATStream

def convertMap : List (List UInt8 × Result.Code) :=
  [(Channel.ok, .ok), (Channel.error, .error),
    (Channel.cmeError, .cmeError), (Channel.cmsError, .cmsError)]

/-- The code of a status text, and `errcode`, which is a reference. -/
def parseState (state : List UInt8) (errcode : UInt32) : Result.Code × UInt32 :=
  match convertMap.lookup state with
  | some code =>
      if code = .cmeError ∨ code = .cmsError then (.parsingError, errcode)
      else (code, errcode)
  | none =>
      let cmxErrorTest := substr state 0 (some Channel.cmeError.length)
      match convertMap.lookup cmxErrorTest with
      | some code =>
          if code = .cmeError ∨ code = .cmsError then
            let serr := Utils.trim (substr state Channel.cmeError.length
              (some (state.length - Channel.cmeError.length)))
            if serr.length = 0 then (.parsingError, errcode)
            else
              match Utils.toNumeric serr with
              | none => (.parsingError, errcode)
              | some parsedVal => (code, UInt32.ofInt parsedVal)
          else (.none, errcode)
      | none => (.none, errcode)

def checkError (cast : EnumCast) (st : ATStream) : ATStream :=
  if st.result.code = .cmeError then
    { st with
      result.code := .error
      result.errorCode := .equipment ((cast.equipment st.errcode).getD
        ErrorCode.unknown) }
  else if st.result.code = .cmsError then
    { st with
      result.code := .error
      result.errorCode := .network ((cast.network st.errcode).getD
        ErrorCode.unknown) }
  else st

def checkATBegin (st : ATStream) : Bool × ATStream :=
  match find delimiter st.atBuffer delimiter.length with
  | some pos =>
      let rr := substr st.atBuffer delimiter.length
        (some (pos - delimiter.length))
      let (code, errcode) := parseState rr st.errcode
      let st := { st with beginChecked := true, errcode := errcode }
      if code ≠ .none then (true, { st with result.code := code })
      else (false, st)
  | none => (false, st)

def checkATEnd (st : ATStream) : Bool × ATStream :=
  match rfind delimiter st.atBuffer none with
  | some pos =>
      match rfind delimiter st.atBuffer (sizeSub pos delimiter.length) with
      | some pos2 =>
          let rr := substr st.atBuffer (pos2 + delimiter.length)
            (sizeSub (pos - pos2) delimiter.length)
          let (code, errcode) := parseState rr st.errcode
          let st := { st with errcode := errcode }
          if code ≠ .none then (true, { st with result.code := code })
          else (false, st)
      | none => (false, st)
  | none => (false, st)

/-- The loop of `countLines`; every round moves `lastPos` past a delimiter. -/
def countLinesLoop : Nat → ATStream → ATStream
  | 0, st => st
  | fuel + 1, st =>
      match find delimiter st.atBuffer st.lastPos with
      | some pos =>
          countLinesLoop fuel
            { st with
              lineCounter :=
                if st.lastPos ≠ pos then st.lineCounter + 1 else st.lineCounter
              lastPos := pos + delimiter.length }
      | none => st

def countLines (st : ATStream) : ATStream :=
  if st.rxCount ≠ 0 then countLinesLoop (st.atBuffer.length + 1) st else st

/-- `parse` behind the check of the beginning. -/
def parseLines (st : ATStream) : Bool × ATStream :=
  let st := st.countLines
  if st.atAtTheBegin then (st.rxCount ≤ st.lineCounter, st)
  else st.checkATEnd

def parse (st : ATStream) : Bool × ATStream :=
  if !st.beginChecked && st.atBuffer.length > minATCmdRet &&
      delimiter.isPrefixOf st.atBuffer then
    match st.checkATBegin with
    | (true, st) =>
        let st := { st with atAtTheBegin := true }
        if st.rxCount = 0 then (true, st) else st.parseLines
    | (false, st) => st.parseLines
  else st.parseLines

/-- `false` means that the stream is ready and takes nothing more. -/
def write (cast : EnumCast) (st : ATStream) (buffer : List UInt8) :
    Bool × ATStream :=
  if st.isATReady then (false, st)
  else
    match parse { st with atBuffer := st.atBuffer ++ buffer } with
    | (true, st) =>
        let st := { st with
          isATReady := true
          result.response :=
            st.result.response ++ Utils.split st.atBuffer delimiter true }
        let st := checkError cast st
        if st.rxCount ≠ 0 ∧ st.result.response.length > st.rxCount then
          (false, { st with result.code := .tokens })
        else (false, st)
    | (false, st) => (true, st)

def reset (st : ATStream) : ATStream :=
  { st with
    result := { code := .none, response := [] }
    atAtTheBegin := false
    beginChecked := false
    lastPos := 0
    lineCounter := 0
    atBuffer := []
    isATReady := false
    errcode := 0 }

/-- The stream after writing the buffers in order. -/
def writeAll (cast : EnumCast) (st : ATStream) (buffers : List (List UInt8)) :
    ATStream :=
  buffers.foldl (fun st buffer => (st.write cast buffer).2) st

end ATStream

end MuditaOS.Cellular
