import MuditaOS.Lib.Traced
import Mathlib.Data.List.Basic

/-!
# The WAP push parser, `pdu::parse`

A transcription of `Pdu.cpp`. A range of characters is a pair of positions in
the message, and every character that is read is an event of the computation:
an octet of the message, or a character of a string literal. What memory holds
behind the terminating zero of a literal is not ours to say, so it is a
parameter. The functions of the source answer `false` or `nullopt` when they
fail and their callers do nothing but pass that on; here they fail.

The two loops that run until something is found, the one over a text and the
one over a header block, have the octets that are left as their fuel, and
record `exhausted` should they ever need more. A message fits `size_t`, which
has 32 bits on the phone, so the size of a range is not cut.
-/

namespace MuditaOS.Cellular.Pdu

open MuditaOS.Lib

inductive Access where
  /-- An octet of the message. -/
  | message (i : Nat)
  /-- A character of a literal, or one behind it. -/
  | literal (cstr : List UInt8) (i : Nat)
  /-- A loop that did not come to its end. -/
  | exhausted
  deriving DecidableEq, Repr

structure Memory where
  message : List UInt8
  behind : List UInt8 → Nat → UInt8

def Memory.read (mem : Memory) : Access → UInt8
  | .message i => mem.message.getD i 0
  | .literal cstr i => (cstr ++ [0])[i]?.getD (mem.behind cstr i)
  | .exhausted => 0

/-- Inside the message, or up to the terminating zero of the literal. -/
def Access.InBounds (message : List UInt8) : Access → Prop
  | .message i => i < message.length
  | .literal cstr i => i ≤ cstr.length
  | .exhausted => False

instance (message : List UInt8) : DecidablePred (Access.InBounds message)
  | .message i => inferInstanceAs (Decidable (i < message.length))
  | .literal cstr i => inferInstanceAs (Decidable (i ≤ cstr.length))
  | .exhausted => inferInstanceAs (Decidable False)

def Memory.load (mem : Memory) (a : Access) : Traced Access UInt8 :=
  Traced.event a (mem.read a)

/-- `if (!b) return nullopt`. -/
def require (b : Bool) : Traced Access Unit := if b then pure () else Traced.fail

/-! ## Ranges -/

structure CharRange where
  mBegin : Nat := 0
  mEnd : Nat := 0
  deriving DecidableEq, Repr

/-- A text is a range without the zero at its end. -/
abbrev Text := CharRange

abbrev Octets := CharRange

namespace CharRange

variable (mem : Memory)

def isEmpty (rng : CharRange) : Bool := rng.mBegin == rng.mEnd

def size (rng : CharRange) : Nat := rng.mEnd - rng.mBegin

/-- The constructor of `std::string` from the range. -/
def str (rng : CharRange) : Traced Access (List UInt8) :=
  (List.range' rng.mBegin rng.size).mapM fun i => mem.load (.message i)

/-- `std::equal`, which stops at the first difference. -/
def equal : Nat → Nat → List UInt8 → Nat → Traced Access Bool
  | 0, _, _, _ => pure true
  | n + 1, first, cstr, i => do
      let a ← mem.load (.message first)
      let b ← mem.load (.literal cstr i)
      if a = b then equal n (first + 1) cstr (i + 1) else pure false

/-- `operator==` with a C string. -/
def eqCStr (rng : CharRange) (cstr : List UInt8) : Traced Access Bool := do
  let c ← mem.load (.literal cstr rng.size)
  if c = 0 then equal mem rng.size rng.mBegin cstr 0 else pure false

/-! ### Octets -/

def peek (octets : Octets) : Traced Access UInt8 :=
  if octets.mBegin ≠ octets.mEnd then mem.load (.message octets.mBegin) else Traced.fail

def next (octets : Octets) : Traced Access (UInt8 × Octets) :=
  if octets.mBegin ≠ octets.mEnd then do
    let octet ← mem.load (.message octets.mBegin)
    pure (octet, { octets with mBegin := octets.mBegin + 1 })
  else Traced.fail

def advancedByN (octets : Octets) (n : Nat) : Nat :=
  if n < octets.size then octets.mBegin + n else octets.mEnd

def ignore (octets : Octets) : Octets :=
  if octets.mBegin ≠ octets.mEnd then { octets with mBegin := octets.mBegin + 1 } else octets

def ignoreN (octets : Octets) (n : Nat) : Octets :=
  { octets with mBegin := octets.advancedByN n }

def subOctets (octets : Octets) (n : Nat) : Octets × Octets :=
  (⟨octets.mBegin, octets.advancedByN n⟩, octets.ignoreN n)

end CharRange

/-! ## Values and known headers

The variants have the type of their ranges as a parameter: positions here,
octets where the parser is compared with the grammar. -/

/-- `std::variant<std::uint8_t, Text, Octets>`. -/
inductive DefaultValue (ρ : Type) where
  | uint8 (n : UInt8)
  | text (t : ρ)
  | octets (o : ρ)
  deriving DecidableEq, Repr

abbrev ContentValue := DefaultValue
abbrev HeaderValue := DefaultValue

/-- `std::variant<std::uint8_t, Text>`. -/
inductive HeaderName (ρ : Type) where
  | uint8 (n : UInt8)
  | text (t : ρ)
  deriving DecidableEq, Repr

/-- A literal holds no zero before its end. -/
structure KnownHeader where
  id : UInt8
  idCStr : List UInt8
  terminated : 0 ∉ idCStr := by decide
  deriving DecidableEq, Repr

/-- `isKnown` on a value; on a name it is the same with one alternative less. -/
def isKnown (mem : Memory) (value : DefaultValue CharRange) (known : KnownHeader) :
    Traced Access Bool :=
  match value with
  | .uint8 val => pure (val == known.id)
  | .text val => val.eqCStr mem known.idCStr
  | .octets _ => pure false

def HeaderName.toValue {ρ : Type} : HeaderName ρ → DefaultValue ρ
  | .uint8 n => .uint8 n
  | .text t => .text t

namespace Parser

def endOfString : UInt8 := 0
def uintvarEscape : UInt8 := 31
def textMin : UInt8 := 32
def textMax : UInt8 := 127
def textEscape : UInt8 := 127
def pageShift : UInt8 := 127
def stringMaxLength : Nat := 1024

variable (mem : Memory)

/-! ## The parts of a header -/

def parseUintvarLoop : Nat → UInt32 → Octets → Traced Access (UInt32 × Octets)
  | 0, _, _ => Traced.fail
  | rounds + 1, val, octets => do
      let (octet, octets) ← octets.next mem
      let val := val <<< 7 ||| octet.toUInt32
      if octet &&& 0x80 = 0 then pure (val, octets)
      else parseUintvarLoop rounds val octets

def parseUintvar (octets : Octets) : Traced Access (UInt32 × Octets) :=
  parseUintvarLoop mem 5 0 octets

def parseTextN (octets : Octets) (length : Nat) : Traced Access (Text × Octets) :=
  if length > stringMaxLength then Traced.fail
  else if length = 0 then pure (⟨octets.mBegin, octets.mBegin⟩, octets)
  else do
    let first := octets.mBegin
    let octets := octets.ignoreN (length - 1)
    let last := octets.mBegin
    let (octet, octets) ← octets.next mem
    if octet = endOfString then pure (⟨first, last⟩, octets)
    else pure (⟨first, octets.mBegin⟩, octets)

/-- `while (octet != EndOfString)`, with where the text ends so far. -/
def parseTextLoop : Nat → Nat → UInt8 → Octets → Traced Access (Nat × Octets)
  | fuel, last, octet, octets =>
      if octet = endOfString then pure (last, octets)
      else
        match fuel with
        | 0 => Traced.abort .exhausted
        | fuel + 1 => do
            let last := octets.mBegin
            let (octet, octets) ← octets.next mem
            parseTextLoop fuel last octet octets

def parseText (octets : Octets) : Traced Access (Text × Octets) := do
  let (octet, rest) ← octets.next mem
  let first := if octet = textEscape then rest.mBegin else octets.mBegin
  let (last, rest) ← parseTextLoop mem (rest.size + 1) first octet rest
  pure (⟨first, last⟩, rest)

/-- What `parseGeneric` does with each of the three kinds of value, told apart
by the first octet, which is not yet taken. -/
structure Policy (ν : Type) where
  data : Octets → UInt8 → Traced Access (ν × Octets)
  text : Octets → UInt8 → Traced Access (ν × Octets)
  shortInteger : Octets → UInt8 → Traced Access (ν × Octets)

namespace DefaultPolicy

/-- The length of a value, which may stand behind the escape. -/
def length (octets : Octets) (lengthOctet : UInt8) : Traced Access (UInt32 × Octets) :=
  if lengthOctet = uintvarEscape then parseUintvar mem octets
  else pure (lengthOctet.toUInt32, octets)

def data (octets : Octets) (lengthOctet : UInt8) :
    Traced Access (DefaultValue CharRange × Octets) := do
  let (length, octets) ← length mem octets.ignore lengthOctet
  if octets.size < length.toNat then Traced.fail
  else pure (.octets (octets.subOctets length.toNat).1, (octets.subOctets length.toNat).2)

def text (octets : Octets) : Traced Access (Text × Octets) := parseText mem octets

def shortInteger (octets : Octets) (uintOctet : UInt8) :
    Traced Access (DefaultValue CharRange × Octets) :=
  pure (.uint8 (uintOctet &&& 0x7F), octets.ignore)

end DefaultPolicy

def defaultPolicy : Policy (DefaultValue CharRange) where
  data := DefaultPolicy.data mem
  text octets _ := do
    let (text, octets) ← DefaultPolicy.text mem octets
    pure (.text text, octets)
  shortInteger := DefaultPolicy.shortInteger

def headerNamePolicy : Policy (HeaderName CharRange) where
  data octets lengthOctet := pure (.uint8 lengthOctet, octets.ignore)
  text octets charOctet :=
    if charOctet = pageShift then pure (.uint8 charOctet, octets.ignore)
    else do
      let (text, octets) ← DefaultPolicy.text mem octets
      pure (.text text, octets)
  shortInteger octets uintOctet := pure (.uint8 uintOctet, octets.ignore)

namespace IgnoreHeaderValuePolicy

def data (octets : Octets) (lengthOctet : UInt8) : Traced Access (Unit × Octets) := do
  let (length, octets) ← DefaultPolicy.length mem octets.ignore lengthOctet
  if octets.size < length.toNat then Traced.fail
  else pure ((), octets.ignoreN length.toNat)

def textLoop : Nat → UInt8 → Octets → Traced Access (Unit × Octets)
  | fuel, charOctet, octets =>
      if charOctet = endOfString then pure ((), octets)
      else
        match fuel with
        | 0 => Traced.abort .exhausted
        | fuel + 1 => do
            let (charOctet, octets) ← octets.next mem
            textLoop fuel charOctet octets

def text (octets : Octets) (charOctet : UInt8) : Traced Access (Unit × Octets) :=
  textLoop mem (octets.ignore.size + 1) charOctet octets.ignore

end IgnoreHeaderValuePolicy

def ignoreHeaderValuePolicy : Policy Unit where
  data := IgnoreHeaderValuePolicy.data mem
  text := IgnoreHeaderValuePolicy.text mem
  shortInteger octets _ := pure ((), octets.ignore)

def parseGeneric {ν : Type} (policy : Policy ν) (octets : Octets) :
    Traced Access (ν × Octets) := do
  let octet ← octets.peek mem
  if octet < textMin then policy.data octets octet
  else if octet ≤ textMax then policy.text octets octet
  else policy.shortInteger octets octet

def parseContentType (octets : Octets) : Traced Access (ContentValue CharRange × Octets) :=
  parseGeneric mem (defaultPolicy mem) octets

/-! ## Headers -/

/-- The header after its name. -/
def parseHeaderValue {σ : Type} (octets : Octets)
    (namePred : HeaderName CharRange → σ → Traced Access (Bool × σ))
    (valuePred : HeaderValue CharRange → σ → σ) (name : HeaderName CharRange) (st : σ) :
    Traced Access (σ × Octets) := do
  let (known, st) ← namePred name st
  if !known then
    let (_, octets) ← parseGeneric mem (ignoreHeaderValuePolicy mem) octets
    pure (st, octets)
  else
    let (value, octets) ← parseGeneric mem (defaultPolicy mem) octets
    pure (valuePred value st, octets)

/-- The predicates are closures of `parseHeaders`; what they capture is `st`.
The branch for a name above `0xFF`, which a `uint8_t` never is, is left out. -/
def parseHeader {σ : Type} (octets : Octets) (pageShiftPred : UInt8 → σ → σ)
    (namePred : HeaderName CharRange → σ → Traced Access (Bool × σ))
    (valuePred : HeaderValue CharRange → σ → σ) (st : σ) : Traced Access (σ × Octets) := do
  let (name, octets) ← parseGeneric mem (headerNamePolicy mem) octets
  match name with
  | .text t => parseHeaderValue mem octets namePred valuePred (.text t) st
  | .uint8 nameUint =>
      if nameUint > 0 then
        if nameUint < pageShift then pure (pageShiftPred nameUint st, octets)
        else if nameUint = pageShift then
          let (octet, octets) ← octets.next mem
          pure (pageShiftPred octet st, octets)
        else parseHeaderValue mem octets namePred valuePred (.uint8 (nameUint &&& 0x7F)) st
      else parseHeaderValue mem octets namePred valuePred (.uint8 nameUint) st

/-- A header that is looked for: one place of `headerNames`, `headersFound` and
`headerValues`. -/
structure Slot (ρ : Type) where
  header : KnownHeader
  found : Bool := false
  value : HeaderValue ρ := .uint8 0
  deriving DecidableEq, Repr

/-- The variables of `parseHeaders`. -/
structure Headers where
  slots : List (Slot CharRange)
  foundCount : Nat := 0
  nameId : Nat := 0
  pageShift : Bool := false

/-- The loop of `namePred`, from place `i` on. -/
def firstKnown (name : HeaderName CharRange) :
    List (Slot CharRange) → Nat → Traced Access (Option Nat)
  | [], _ => pure none
  | slot :: slots, i =>
      if slot.found then firstKnown name slots (i + 1)
      else do
        if ← isKnown mem name.toValue slot.header then pure (some i)
        else firstKnown name slots (i + 1)

namespace Headers

def pageShiftPred (_page : UInt8) (st : Headers) : Headers := { st with pageShift := true }

def namePred (name : HeaderName CharRange) (st : Headers) : Traced Access (Bool × Headers) := do
  match ← firstKnown mem name st.slots 0 with
  | some i =>
      pure (true, { st with
        slots := st.slots.modify i fun slot => { slot with found := true }
        foundCount := st.foundCount + 1
        nameId := i })
  | none => pure (false, st)

def valuePred (value : HeaderValue CharRange) (st : Headers) : Headers :=
  if st.nameId < st.slots.length then
    { st with slots := st.slots.modify st.nameId fun slot => { slot with value := value } }
  else st

end Headers

/-- One round of the loop of `parseHeaders`. -/
def parseHeadersRound (octets : Octets) (st : Headers) : Traced Access (Headers × Octets) := do
  let (st, octets) ← parseHeader mem octets Headers.pageShiftPred (Headers.namePred mem)
    Headers.valuePred { st with nameId := st.slots.length, pageShift := false }
  require (!st.pageShift)
  pure (st, octets)

/-- `while (!octets.empty())`. -/
def parseHeadersLoop : Nat → Octets → Headers → Traced Access (Headers × Octets)
  | fuel, octets, st =>
      if octets.isEmpty then pure (st, octets)
      else
        match fuel with
        | 0 => Traced.abort .exhausted
        | fuel + 1 => do
            let (st, octets) ← parseHeadersRound mem octets st
            if st.foundCount = st.slots.length then pure (st, octets)
            else parseHeadersLoop fuel octets st

def parseHeaders (octets : Octets) (headerNames : List KnownHeader) :
    Traced Access (List (HeaderValue CharRange)) := do
  let slots := headerNames.map fun header => { header := header }
  let (st, _) ← parseHeadersLoop mem octets.size octets { slots := slots }
  pure (st.slots.map (·.value))

end Parser

/-! ## Notifications -/

structure MmsNotification where
  fromAddress : List UInt8
  contentLocation : List UInt8
  deriving DecidableEq, Repr

inductive ConnectionMode where
  | connectionless
  | connectionmode
  deriving DecidableEq, Repr

/-- `constants::Push`. -/
def push : UInt8 := 0x06

/-- `application/vnd.wap.mms-message`. -/
def applicationVndWapMmsMessage : KnownHeader where
  id := 0x3E
  idCStr :=
    [0x61, 0x70, 0x70, 0x6C, 0x69, 0x63, 0x61, 0x74, 0x69, 0x6F, 0x6E, 0x2F, 0x76, 0x6E, 0x64,
      0x2E, 0x77, 0x61, 0x70, 0x2E, 0x6D, 0x6D, 0x73, 0x2D, 0x6D, 0x65, 0x73, 0x73, 0x61, 0x67,
      0x65]

/-- `X-Wap-Application-ID`. -/
def xWapApplicationId : KnownHeader where
  id := 0x2F
  idCStr :=
    [0x58, 0x2D, 0x57, 0x61, 0x70, 0x2D, 0x41, 0x70, 0x70, 0x6C, 0x69, 0x63, 0x61, 0x74, 0x69,
      0x6F, 0x6E, 0x2D, 0x49, 0x44]

/-- `x-wap-application:mms.ua`. -/
def xWapApplicationMmsUa : KnownHeader where
  id := 0x04
  idCStr :=
    [0x78, 0x2D, 0x77, 0x61, 0x70, 0x2D, 0x61, 0x70, 0x70, 0x6C, 0x69, 0x63, 0x61, 0x74, 0x69,
      0x6F, 0x6E, 0x3A, 0x6D, 0x6D, 0x73, 0x2E, 0x75, 0x61]

/-- `X-Mms-Message-Type`. -/
def xMmsMessageType : KnownHeader where
  id := 0x0C
  idCStr :=
    [0x58, 0x2D, 0x4D, 0x6D, 0x73, 0x2D, 0x4D, 0x65, 0x73, 0x73, 0x61, 0x67, 0x65, 0x2D, 0x54,
      0x79, 0x70, 0x65]

/-- `From`. -/
def mmsFrom : KnownHeader where
  id := 0x09
  idCStr := [0x46, 0x72, 0x6F, 0x6D]

/-- `X-Mms-Content-Location`. -/
def xMmsContentLocation : KnownHeader where
  id := 0x03
  idCStr :=
    [0x58, 0x2D, 0x4D, 0x6D, 0x73, 0x2D, 0x43, 0x6F, 0x6E, 0x74, 0x65, 0x6E, 0x74, 0x2D, 0x4C,
      0x6F, 0x63, 0x61, 0x74, 0x69, 0x6F, 0x6E]

/-- `m-notification-ind`. -/
def mmsMNotificationInd : KnownHeader where
  id := 0x02
  idCStr :=
    [0x6D, 0x2D, 0x6E, 0x6F, 0x74, 0x69, 0x66, 0x69, 0x63, 0x61, 0x74, 0x69, 0x6F, 0x6E, 0x2D,
      0x69, 0x6E, 0x64]

/-- The headers of the push, and those of the message. -/
def pushHeaders : List KnownHeader := [xWapApplicationId]

def mmsHeaders : List KnownHeader := [xMmsMessageType, mmsFrom, xMmsContentLocation]

def addressPresentToken : UInt8 := 128

variable (mem : Memory)

/-- The sender, in a `From` that is data; otherwise the address stays empty. -/
def addressOf : HeaderValue CharRange → Traced Access Text
  | .octets octets => do
      let (token, octets) ← octets.next mem
      if token = addressPresentToken then
        let (address, _) ← Parser.parseTextN mem octets octets.size
        pure address
      else pure {}
  | _ => pure {}

def locationOf : HeaderValue CharRange → Text
  | .text location => location
  | _ => {}

/-- `commonFields.id`, which is there in connectionless mode. -/
def commonId (connectionMode : ConnectionMode) (octets : Octets) :
    Traced Access (UInt8 × Octets) :=
  match connectionMode with
  | .connectionless => octets.next mem
  | .connectionmode => pure (0, octets)

/-- The first part of `parse`: the common fields and the length of the headers
of a push, which cuts what is left into headers and content. -/
def parsePush (connectionMode : ConnectionMode) : Traced Access (Octets × Octets) := do
  let (_, octets) ← commonId mem connectionMode ⟨0, mem.message.length⟩
  let (type, octets) ← octets.next mem
  require (type == push)
  let (headersLen, octets) ← Parser.parseUintvar mem octets
  pure (octets.subOctets headersLen.toNat)

def parse (connectionMode : ConnectionMode) : Traced Access MmsNotification := do
  let (headersOctets, octets) ← parsePush mem connectionMode
  let (contentType, headersOctets) ← Parser.parseContentType mem headersOctets
  require (← isKnown mem contentType applicationVndWapMmsMessage)
  let pushValues ← Parser.parseHeaders mem headersOctets pushHeaders
  require (← isKnown mem (pushValues.getD 0 (.uint8 0)) xWapApplicationMmsUa)
  let mmsValues ← Parser.parseHeaders mem octets mmsHeaders
  require (← isKnown mem (mmsValues.getD 0 (.uint8 0)) mmsMNotificationInd)
  let address ← addressOf mem (mmsValues.getD 1 (.uint8 0))
  let location := locationOf (mmsValues.getD 2 (.uint8 0))
  let fromAddress ← address.str mem
  let contentLocation ← location.str mem
  pure ⟨fromAddress, contentLocation⟩

end MuditaOS.Cellular.Pdu
