import MuditaOS.Cellular.Pdu

/-!
# What the octets of a push say

The format `pdu::parse` reads, stated over lists of octets. A header block is
read once, whoever looks for what in it: `Block` is its headers up to where it
ends or cannot be read any further. Looking for known headers is then a walk
over the block, and so is the question which of its texts are compared with a
name that is shorter than they are.
-/

namespace MuditaOS.Cellular.Pdu

open Pdu.Parser

/-- The value is the one that is known, by its code or by its text. -/
def KnownHeader.names (known : KnownHeader) : DefaultValue (List UInt8) → Bool
  | .uint8 n => n == known.id
  | .text t => t == known.idCStr
  | .octets _ => false

/-- A text no longer than the known one. -/
def KnownHeader.Covers (known : KnownHeader) : DefaultValue (List UInt8) → Prop
  | .text t => t.length ≤ known.idCStr.length
  | _ => True

namespace Grammar

def next : List UInt8 → Option (UInt8 × List UInt8)
  | [] => none
  | octet :: rest => some (octet, rest)

def uintvar : Nat → UInt32 → List UInt8 → Option (UInt32 × List UInt8)
  | 0, _, _ => none
  | rounds + 1, val, octets => do
      let (octet, octets) ← next octets
      let val := val <<< 7 ||| octet.toUInt32
      if octet &&& 0x80 = 0 then some (val, octets) else uintvar rounds val octets

/-- Up to the next zero, which is taken too. -/
def text : List UInt8 → Option (List UInt8 × List UInt8)
  | [] => none
  | octet :: rest =>
      if octet = endOfString then some ([], rest)
      else (text rest).map fun (t, rest) => (octet :: t, rest)

/-- A text that begins with `octet`, unless that is the escape. -/
def textFrom (octet : UInt8) (rest : List UInt8) : Option (List UInt8 × List UInt8) :=
  if octet = textEscape then text rest else text (octet :: rest)

def length (lengthOctet : UInt8) (rest : List UInt8) : Option (UInt32 × List UInt8) :=
  if lengthOctet = uintvarEscape then uintvar 5 0 rest else some (lengthOctet.toUInt32, rest)

def data (lengthOctet : UInt8) (rest : List UInt8) :
    Option (DefaultValue (List UInt8) × List UInt8) := do
  let (length, rest) ← length lengthOctet rest
  if rest.length < length.toNat then none
  else some (.octets (rest.take length.toNat), rest.drop length.toNat)

/-- The three kinds of value, told apart by the first octet. -/
def generic {β : Type} (data text shortInteger : UInt8 → List UInt8 → Option β) :
    List UInt8 → Option β
  | [] => none
  | octet :: rest =>
      if octet < textMin then data octet rest
      else if octet ≤ textMax then text octet rest
      else shortInteger octet rest

def value : List UInt8 → Option (DefaultValue (List UInt8) × List UInt8) :=
  generic data
    (fun octet rest => (textFrom octet rest).map fun (t, rest) => (.text t, rest))
    (fun octet rest => some (.uint8 (octet &&& 0x7F), rest))

/-- The name as it stands, a code not yet decoded. -/
def rawName : List UInt8 → Option (HeaderName (List UInt8) × List UInt8) :=
  generic (fun octet rest => some (.uint8 octet, rest))
    (fun octet rest =>
      if octet = pageShift then some (.uint8 octet, rest)
      else (textFrom octet rest).map fun (t, rest) => (.text t, rest))
    (fun octet rest => some (.uint8 octet, rest))

/-- The name that is meant; a page shift is none. -/
def decode : HeaderName (List UInt8) → Option (HeaderName (List UInt8))
  | .text t => some (.text t)
  | .uint8 n =>
      if n = 0 then some (.uint8 0)
      else if n ≤ pageShift then none
      else some (.uint8 (n &&& 0x7F))

def name (octets : List UInt8) : Option (HeaderName (List UInt8) × List UInt8) := do
  let (raw, rest) ← rawName octets
  let name ← decode raw
  some (name, rest)

/-! ## Every header takes some octets -/

theorem uintvar_le : ∀ {rounds : Nat} {val n : UInt32} {octets rest : List UInt8},
    uintvar rounds val octets = some (n, rest) → rest.length ≤ octets.length := by
  intro rounds
  induction rounds with
  | zero => intro val n octets rest h; cases h
  | succ rounds ih =>
      intro val n octets rest h
      cases octets with
      | nil => cases h
      | cons octet octets =>
          rw [uintvar] at h
          simp only [next, Option.bind_eq_bind, Option.bind_some] at h
          split at h
          · cases h; simp
          · have := ih h
            rw [List.length_cons]
            omega

theorem text_eq : ∀ {octets t rest : List UInt8}, text octets = some (t, rest) →
    octets = t ++ 0 :: rest ∧ 0 ∉ t := by
  intro octets
  induction octets with
  | nil => intro t rest h; cases h
  | cons octet octets ih =>
      intro t rest h
      rw [text] at h
      by_cases hend : octet = endOfString
      · rw [if_pos hend] at h
        cases h
        exact ⟨by rw [hend]; rfl, by simp⟩
      · rw [if_neg hend, Option.map_eq_some_iff] at h
        obtain ⟨⟨t', rest'⟩, ht, heq⟩ := h
        cases heq
        obtain ⟨hcut, hzero⟩ := ih ht
        refine ⟨by rw [hcut]; rfl, fun hmem => ?_⟩
        rcases List.mem_cons.1 hmem with h | h
        · exact hend h.symm
        · exact hzero h

theorem textFrom_lt {octet : UInt8} {rest t rest' : List UInt8}
    (h : textFrom octet rest = some (t, rest')) : rest'.length < rest.length + 1 := by
  rw [textFrom] at h
  split at h
  · have := congrArg List.length (text_eq h).1
    simp at this
    omega
  · have := congrArg List.length (text_eq h).1
    simp at this
    omega

theorem data_lt {lengthOctet : UInt8} {rest rest' : List UInt8} {v : DefaultValue (List UInt8)}
    (h : data lengthOctet rest = some (v, rest')) : rest'.length < rest.length + 1 := by
  rw [data, Option.bind_eq_bind, Option.bind_eq_some_iff] at h
  obtain ⟨⟨n, octets⟩, hn, h⟩ := h
  have hle : octets.length ≤ rest.length := by
    rw [length] at hn
    split at hn
    · exact uintvar_le hn
    · cases hn; exact Nat.le_refl _
  dsimp only at h
  split at h
  · cases h
  · cases h
    rw [List.length_drop]
    omega

/-- What a kind of value leaves is shorter if each of the three leaves is. -/
theorem generic_lt {β : Type} {data text shortInteger : UInt8 → List UInt8 →
      Option (β × List UInt8)} {octets rest : List UInt8} {b : β}
    (hdata : ∀ {c l b r}, data c l = some (b, r) → r.length < l.length + 1)
    (htext : ∀ {c l b r}, text c l = some (b, r) → r.length < l.length + 1)
    (hshort : ∀ {c l b r}, shortInteger c l = some (b, r) → r.length < l.length + 1)
    (h : generic data text shortInteger octets = some (b, rest)) :
    rest.length < octets.length := by
  cases octets with
  | nil => cases h
  | cons octet octets =>
      rw [generic] at h
      split at h
      · exact hdata h
      · split at h
        · exact htext h
        · exact hshort h

theorem mapText_lt {β : Type} {f : List UInt8 → β} {octet : UInt8} {rest rest' : List UInt8}
    {b : β} (h : ((textFrom octet rest).map fun (t, rest) => (f t, rest)) = some (b, rest')) :
    rest'.length < rest.length + 1 := by
  obtain ⟨⟨t, rest''⟩, ht, heq⟩ := Option.map_eq_some_iff.1 h
  cases heq
  exact textFrom_lt ht

theorem some_lt {β : Type} {a b : β} {rest rest' : List UInt8}
    (h : some (a, rest) = some (b, rest')) : rest'.length < rest.length + 1 := by
  cases h
  omega

theorem value_lt {octets rest : List UInt8} {v : DefaultValue (List UInt8)}
    (h : value octets = some (v, rest)) : rest.length < octets.length :=
  generic_lt data_lt mapText_lt some_lt h

theorem name_lt {octets rest : List UInt8} {n : HeaderName (List UInt8)}
    (h : name octets = some (n, rest)) : rest.length < octets.length := by
  rw [name, Option.bind_eq_bind, Option.bind_eq_some_iff] at h
  obtain ⟨⟨raw, rest'⟩, hraw, h⟩ := h
  obtain ⟨n', _, h⟩ := Option.bind_eq_some_iff.1 h
  cases h
  refine generic_lt some_lt ?_ some_lt hraw
  intro c l b r htext
  dsimp only at htext
  split at htext
  · exact some_lt htext
  · exact mapText_lt htext

/-! ## Header blocks -/

inductive Block where
  /-- No octet is left. -/
  | done
  /-- There is no name to be read, or a page shift. -/
  | broken
  /-- A name whose value cannot be read. -/
  | cut (name : HeaderName (List UInt8))
  | field (name : HeaderName (List UInt8)) (value : HeaderValue (List UInt8)) (rest : Block)

def block (octets : List UInt8) : Block :=
  if octets = [] then .done
  else
    match _hname : name octets with
    | none => .broken
    | some (n, afterName) =>
        match _hvalue : value afterName with
        | none => .cut n
        | some (v, rest) => .field n v (block rest)
termination_by octets.length
decreasing_by
  have h1 := name_lt _hname
  have h2 := value_lt _hvalue
  omega

/-! ## Looking for headers -/

abbrev Slots := List (Slot (List UInt8))

/-- What is looked for, nothing of it found. -/
def wanted (headers : List KnownHeader) : Slots :=
  headers.map fun header => { header := header }

/-- All of it is found. -/
def Complete (slots : Slots) : Prop := ∀ slot ∈ slots, slot.found

instance (slots : Slots) : Decidable (Complete slots) :=
  inferInstanceAs (Decidable (∀ slot ∈ slots, slot.found))

/-- The header still looks for this name. -/
def Wants (n : HeaderName (List UInt8)) (slot : Slot (List UInt8)) : Bool :=
  !slot.found && slot.header.names n.toValue

/-- The first header that looks for the name takes the value. -/
def learn (n : HeaderName (List UInt8)) (v : HeaderValue (List UInt8)) (slots : Slots) : Slots :=
  match slots.findIdx? (Wants n) with
  | some i => slots.modify i fun slot => { slot with found := true, value := v }
  | none => slots

def scan : Slots → Block → Option Slots
  | slots, .done => some slots
  | _, .broken => none
  | _, .cut _ => none
  | slots, .field n v rest =>
      if Complete (learn n v slots) then some (learn n v slots) else scan (learn n v slots) rest

def search (headers : List KnownHeader) (octets : List UInt8) :
    Option (List (HeaderValue (List UInt8))) :=
  (scan (wanted headers) (block octets)).map fun slots => slots.map (·.value)

/-- The name is no longer than any it is compared with: those still looked for,
up to the one it is. -/
def NameFits (n : HeaderName (List UInt8)) : Slots → Prop
  | [] => True
  | slot :: slots =>
      if slot.found then NameFits n slots
      else slot.header.Covers n.toValue ∧
        (slot.header.names n.toValue = false → NameFits n slots)

/-- So is every name of the block up to where the last header is found. -/
def BlockFits : Slots → Block → Prop
  | _, .done => True
  | _, .broken => True
  | slots, .cut n => NameFits n slots
  | slots, .field n v rest =>
      NameFits n slots ∧ (¬ Complete (learn n v slots) → BlockFits (learn n v slots) rest)

/-! ## The message -/

def commonId (mode : ConnectionMode) (octets : List UInt8) : Option (UInt8 × List UInt8) :=
  match mode with
  | .connectionless => next octets
  | .connectionmode => some (0, octets)

/-- The octets of the push headers and those of the content. -/
def pdu (mode : ConnectionMode) (message : List UInt8) :
    Option (List UInt8 × List UInt8) := do
  let (_, octets) ← commonId mode message
  let (type, octets) ← next octets
  guard (type == push)
  let (headersLen, octets) ← uintvar 5 0 octets
  some (octets.take headersLen.toNat, octets.drop headersLen.toNat)

def textN (octets : List UInt8) : Option (List UInt8) :=
  if octets.length > stringMaxLength then none
  else if octets.getLast? = some endOfString then some octets.dropLast
  else some octets

def address : HeaderValue (List UInt8) → Option (List UInt8)
  | .octets octets => do
      let (token, octets) ← next octets
      if token = addressPresentToken then textN octets else some []
  | _ => some []

def location : HeaderValue (List UInt8) → List UInt8
  | .text t => t
  | _ => []

def notification (mode : ConnectionMode) (message : List UInt8) : Option MmsNotification := do
  let (headers, content) ← pdu mode message
  let (contentType, headers) ← value headers
  guard (applicationVndWapMmsMessage.names contentType)
  let pushValues ← search pushHeaders headers
  guard (xWapApplicationMmsUa.names (pushValues.getD 0 (.uint8 0)))
  let mmsValues ← search mmsHeaders content
  guard (mmsMNotificationInd.names (mmsValues.getD 0 (.uint8 0)))
  let fromAddress ← address (mmsValues.getD 1 (.uint8 0))
  some ⟨fromAddress, location (mmsValues.getD 2 (.uint8 0))⟩

/-! ### Texts that fit

In the order in which the parser comes to them: the content type, the names and
the value in the push headers, the names and the value in the content. -/

def ContentFits (content : List UInt8) : Prop :=
  BlockFits (wanted mmsHeaders) (block content) ∧
    ∀ values, search mmsHeaders content = some values →
      mmsMNotificationInd.Covers (values.getD 0 (.uint8 0))

def HeadersFit (headers content : List UInt8) : Prop :=
  BlockFits (wanted pushHeaders) (block headers) ∧
    ∀ values, search pushHeaders headers = some values →
      xWapApplicationMmsUa.Covers (values.getD 0 (.uint8 0)) ∧
        (xWapApplicationMmsUa.names (values.getD 0 (.uint8 0)) → ContentFits content)

/-- No text of the message is compared with a shorter one. -/
def TextsFit (mode : ConnectionMode) (message : List UInt8) : Prop :=
  ∀ headers content, pdu mode message = some (headers, content) →
    ∀ contentType rest, value headers = some (contentType, rest) →
      applicationVndWapMmsMessage.Covers contentType ∧
        (applicationVndWapMmsMessage.names contentType → HeadersFit rest content)

end Grammar

end MuditaOS.Cellular.Pdu
