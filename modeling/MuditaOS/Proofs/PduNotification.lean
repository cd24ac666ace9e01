import MuditaOS.Proofs.PduBlocks

/-!
# A notification is read whatever the order of its headers

A well-formed header stands in the message as the octets of its name and those
of its value, and a block of them is read back header by header. Every known
header has names of its own, so each of those looked for learns from the first
header with such a name, wherever the others stand.
-/

namespace MuditaOS.Cellular.Pdu

open MuditaOS.Lib
open Pdu.Parser Grammar

/-! ## How headers are written -/

/-- A text that may stand without an escape. -/
def Plain (t : List UInt8) : Prop :=
  ∃ octet rest, t = octet :: rest ∧ textMin ≤ octet ∧ octet < textEscape ∧ 0 ∉ t

inductive WritesValue : HeaderValue (List UInt8) → List UInt8 → Prop where
  | shortInteger {n : UInt8} (h : textMax < n) : WritesValue (.uint8 (n &&& 0x7F)) [n]
  | text {t : List UInt8} (h : Plain t) : WritesValue (.text t) (t ++ [0])
  | escaped {t : List UInt8} (h : 0 ∉ t) : WritesValue (.text t) (textEscape :: (t ++ [0]))
  | data {o : List UInt8} (h : o.length < 31) :
      WritesValue (.octets o) (UInt8.ofNat o.length :: o)
  | longData {o : List UInt8} (h : o.length < 128) :
      WritesValue (.octets o) (uintvarEscape :: UInt8.ofNat o.length :: o)

theorem WritesValue.octets_lt {o octets : List UInt8} (h : WritesValue (.octets o) octets) :
    o.length < 128 := by
  cases h with
  | data h => exact Nat.lt_trans h (by decide)
  | longData h => exact h

inductive WritesName : HeaderName (List UInt8) → List UInt8 → Prop where
  | code {n : UInt8} (h : textMax < n) : WritesName (.uint8 (n &&& 0x7F)) [n]
  | text {t : List UInt8} (h : Plain t) : WritesName (.text t) (t ++ [0])

/-- A well-formed header. -/
structure Field where
  name : HeaderName (List UInt8)
  value : HeaderValue (List UInt8)
  nameOctets : List UInt8
  valueOctets : List UInt8
  writesName : WritesName name nameOctets
  writesValue : WritesValue value valueOctets

def Field.octets (f : Field) : List UInt8 := f.nameOctets ++ f.valueOctets

/-- The header is the known one. -/
def Field.Is (f : Field) (known : KnownHeader) : Bool := known.names f.name.toValue

/-! ## Reading back -/

section Generic

variable {β : Type} {data text shortInteger : UInt8 → List UInt8 → Option β} {octet : UInt8}
  {rest : List UInt8}

theorem generic_data (h : octet < textMin) :
    generic data text shortInteger (octet :: rest) = data octet rest := by
  rw [generic, if_pos h]

theorem generic_text (hmin : textMin ≤ octet) (hmax : octet ≤ textMax) :
    generic data text shortInteger (octet :: rest) = text octet rest := by
  rw [generic, if_neg (UInt8.not_lt.2 hmin), if_pos hmax]

theorem generic_shortInteger (h : textMax < octet) :
    generic data text shortInteger (octet :: rest) = shortInteger octet rest := by
  have hmin : textMin ≤ octet := UInt8.le_trans (by decide) (UInt8.le_of_lt h)
  rw [generic, if_neg (UInt8.not_lt.2 hmin), if_neg (UInt8.not_le.2 h)]

end Generic

theorem text_append {t rest : List UInt8} (h : 0 ∉ t) : text (t ++ 0 :: rest) = some (t, rest) := by
  induction t with
  | nil => rfl
  | cons c t ih =>
      obtain ⟨hc, ht⟩ := not_or.1 (List.mem_cons.not.1 h)
      rw [List.cons_append, text, if_neg fun hend : c = endOfString => hc hend.symm, ih ht]
      rfl

theorem textFrom_append {octet : UInt8} {t rest : List UInt8} (h : 0 ∉ octet :: t)
    (hescape : octet < textEscape) :
    textFrom octet (t ++ 0 :: rest) = some (octet :: t, rest) := by
  rw [textFrom, if_neg (UInt8.ne_of_lt hescape)]
  exact text_append (t := octet :: t) h

theorem toNat_ofNat {n : Nat} (h : n < 128) : (UInt8.ofNat n).toNat = n :=
  UInt8.toNat_ofNat_of_lt (Nat.lt_trans h (by decide))

/-- A number below 128 is its own octet. -/
theorem uintvar_ofNat {n : Nat} {rest : List UInt8} (h : n < 128) :
    uintvar 5 0 (UInt8.ofNat n :: rest) = some ((UInt8.ofNat n).toUInt32, rest) := by
  have hlast : ∀ m < 128, UInt8.ofNat m &&& 0x80 = 0 := by decide
  rw [uintvar]
  simp only [next, Option.bind_eq_bind, Option.bind_some]
  rw [if_pos (hlast n h)]
  simp

theorem data_append {lengthOctet : UInt8} {l o rest : List UInt8} (ho : o.length < 128)
    (hlength : Grammar.length lengthOctet l =
      some ((UInt8.ofNat o.length).toUInt32, o ++ rest)) :
    data lengthOctet l = some (.octets o, rest) := by
  rw [data, hlength]
  simp [toNat_ofNat ho]

theorem value_append {v : HeaderValue (List UInt8)} {octets rest : List UInt8}
    (h : WritesValue v octets) : value (octets ++ rest) = some (v, rest) := by
  cases h with
  | @shortInteger n hn => exact generic_shortInteger hn
  | @text t ht =>
      obtain ⟨octet, t, rfl, hmin, hmax, hzero⟩ := ht
      rw [value, List.append_assoc, List.cons_append, generic_text hmin (UInt8.le_of_lt hmax)]
      dsimp only
      rw [List.singleton_append, textFrom_append hzero hmax]
      rfl
  | @escaped t ht =>
      rw [value, List.cons_append, List.append_assoc, generic_text (by decide) (by decide)]
      dsimp only
      rw [textFrom, if_pos rfl, List.singleton_append, text_append ht]
      rfl
  | @data o ho =>
      have hnat := toNat_ofNat (Nat.lt_trans ho (by decide))
      rw [value, List.cons_append, generic_data]
      · refine data_append (Nat.lt_trans ho (by decide)) ?_
        have hescape : UInt8.ofNat o.length ≠ uintvarEscape := by
          intro heq
          have hlen := congrArg UInt8.toNat heq
          rw [hnat] at hlen
          exact absurd hlen (Nat.ne_of_lt ho)
        rw [Grammar.length, if_neg hescape]
      · rw [UInt8.lt_iff_toNat_lt, hnat]
        exact Nat.lt_succ_of_lt ho
  | @longData o ho =>
      rw [value, List.cons_append, List.cons_append, generic_data (by decide)]
      refine data_append ho ?_
      rw [Grammar.length, if_pos rfl]
      exact uintvar_ofNat ho

theorem name_append {n : HeaderName (List UInt8)} {octets rest : List UInt8}
    (h : WritesName n octets) : name (octets ++ rest) = some (n, rest) := by
  rw [name_eq]
  cases h with
  | @code n hn =>
      have h0 : n ≠ 0 := fun h => absurd (h ▸ hn) (by decide)
      rw [rawName, List.singleton_append, generic_shortInteger hn, Option.bind_some, decode,
        if_neg h0, if_neg fun h : n ≤ pageShift => UInt8.not_le.2 hn h]
      rfl
  | @text t ht =>
      obtain ⟨octet, t, rfl, hmin, hmax, hzero⟩ := ht
      rw [rawName, List.append_assoc, List.cons_append, generic_text hmin (UInt8.le_of_lt hmax)]
      dsimp only
      rw [if_neg fun h : octet = pageShift => UInt8.ne_of_lt hmax h, List.singleton_append,
        textFrom_append hzero hmax]
      rfl

theorem block_append {f : Field} {rest : List UInt8} :
    block (f.octets ++ rest) = .field f.name f.value (block rest) := by
  have hname : name (f.octets ++ rest) = some (f.name, f.valueOctets ++ rest) := by
    rw [Field.octets, List.append_assoc]
    exact name_append f.writesName
  have hne : f.octets ++ rest ≠ [] := by
    intro hnil
    rw [hnil] at hname
    cases hname
  rw [block_cons hne, hname]
  dsimp only
  rw [value_append f.writesValue]

/-! ## What the slots learn -/

/-- No name is of both. -/
def Apart (a b : KnownHeader) : Prop := a.id ≠ b.id ∧ a.idCStr ≠ b.idCStr

instance (a b : KnownHeader) : Decidable (Apart a b) :=
  inferInstanceAs (Decidable (_ ∧ _))

theorem Apart.names {a b : KnownHeader} (h : Apart a b) {v : DefaultValue (List UInt8)}
    (ha : a.names v = true) : b.names v = false := by
  cases v with
  | uint8 n =>
      obtain rfl := beq_iff_eq.1 ha
      exact beq_eq_false_iff_ne.2 h.1
  | text t =>
      obtain rfl := beq_iff_eq.1 ha
      exact beq_eq_false_iff_ne.2 h.2
  | octets o => cases ha

/-- What one header tells one slot. -/
def Field.tell (f : Field) (slot : Slot (List UInt8)) : Slot (List UInt8) :=
  if Wants f.name slot then { slot with found := true, value := f.value } else slot

@[simp] theorem Field.tell_header {f : Field} {slot : Slot (List UInt8)} :
    (f.tell slot).header = slot.header := by
  rw [Field.tell]
  split <;> rfl

theorem Field.tell_found {f : Field} {slot : Slot (List UInt8)} (h : slot.found = true) :
    f.tell slot = slot := by
  rw [Field.tell, Wants, h]
  rfl

/-- What they all tell it: the first that has a name it looks for. -/
def tellAll (fields : List Field) (slot : Slot (List UInt8)) : Slot (List UInt8) :=
  fields.foldl (fun slot f => f.tell slot) slot

theorem tellAll_found {fields : List Field} {slot : Slot (List UInt8)}
    (h : slot.found = true) : tellAll fields slot = slot := by
  induction fields with
  | nil => rfl
  | cons f fields ih => rw [tellAll, List.foldl_cons, f.tell_found h]; exact ih

theorem tellAll_wanted {fields : List Field} {slot : Slot (List UInt8)} {f : Field}
    (h : slot.found = false) (hfind : fields.find? (·.Is slot.header) = some f) :
    tellAll fields slot = { slot with found := true, value := f.value } := by
  induction fields with
  | nil => cases hfind
  | cons g fields ih =>
      rw [tellAll, List.foldl_cons, Field.tell, Wants, h]
      rw [List.find?_cons] at hfind
      cases hg : g.Is slot.header with
      | true =>
          rw [hg] at hfind
          cases hfind
          rw [Field.Is] at hg
          rw [hg]
          exact tellAll_found rfl
      | false =>
          rw [hg] at hfind
          rw [Field.Is] at hg
          rw [hg]
          exact ih hfind

/-- Slots that no name can mistake for each other. -/
def Distinct (slots : Slots) : Prop := slots.Pairwise fun a b => Apart a.header b.header

instance (slots : Slots) : Decidable (Distinct slots) :=
  inferInstanceAs (Decidable (slots.Pairwise fun a b => Apart a.header b.header))

theorem Distinct.tell {slots : Slots} (h : Distinct slots) (f : Field) :
    Distinct (slots.map f.tell) := by
  rw [Distinct, List.pairwise_map]
  exact h.imp fun hab => by simpa using hab

/-- If one of them wants the name, the others do not. -/
theorem learn_eq_map {f : Field} : ∀ {slots : Slots}, Distinct slots →
    learn f.name f.value slots = slots.map f.tell := by
  intro slots
  induction slots with
  | nil => intro _; rfl
  | cons slot slots ih =>
      intro h
      obtain ⟨hslot, hrest⟩ := List.pairwise_cons.1 h
      have htail := ih hrest
      rw [learn] at htail
      rw [learn, List.findIdx?_cons, List.map_cons, Field.tell]
      by_cases hwants : Wants f.name slot
      · have hothers : slots.map f.tell = slots := by
          refine (List.map_congr_left fun other hmem => ?_).trans (List.map_id slots)
          have hnames : slot.header.names f.name.toValue := (Bool.and_eq_true_iff.1 hwants).2
          rw [Field.tell, Wants, (hslot other hmem).names hnames, Bool.and_false]
          rfl
        rw [if_pos hwants, if_pos hwants, hothers]
        rfl
      · rw [if_neg hwants, if_neg hwants, ← htail]
        cases slots.findIdx? (Wants f.name) <;> rfl

/-! ## A block of headers -/

def blockOctets (fields : List Field) : List UInt8 := fields.flatMap Field.octets

/-- Every slot learns what the headers tell it, also when the walk stops early. -/
theorem scan_fields : ∀ {fields : List Field} {slots : Slots}, Distinct slots →
    scan slots (block (blockOctets fields)) = some (slots.map (tellAll fields)) := by
  intro fields
  induction fields with
  | nil =>
      intro slots _
      rw [blockOctets, List.flatMap_nil, block_nil, scan]
      exact congrArg some (List.map_id slots).symm
  | cons f fields ih =>
      intro slots h
      rw [blockOctets, List.flatMap_cons, block_append, scan, learn_eq_map h]
      have hnext : slots.map (tellAll (f :: fields)) =
          (slots.map f.tell).map (tellAll fields) := by
        rw [List.map_map]
        rfl
      rw [hnext]
      split
      · rename_i hcomplete
        refine congrArg some (Eq.symm ?_)
        exact (List.map_congr_left fun slot hmem => tellAll_found (hcomplete slot hmem)).trans
          (List.map_id _)
      · exact ih (h.tell f)

/-- The one header with a name, wherever it stands. -/
theorem find?_of_perm {fields others : List Field} {f : Field} {known : KnownHeader}
    (hperm : fields.Perm (f :: others)) (hf : f.Is known)
    (hothers : ∀ g ∈ others, g.Is known = false) : fields.find? (·.Is known) = some f := by
  have hfilter : fields.filter (·.Is known) = [f] := by
    refine List.perm_singleton.1 ((hperm.filter _).trans ?_)
    rw [List.filter_cons, if_pos hf, List.filter_eq_nil_iff.2 fun g hg => by simp [hothers g hg]]
  rw [← List.head?_filter, hfilter]
  rfl

theorem search_fields {fields : List Field} {headers : List KnownHeader}
    (h : Distinct (wanted headers)) :
    search headers (blockOctets fields) =
      some (headers.map fun known => (tellAll fields { header := known }).value) := by
  rw [search, scan_fields h, wanted]
  simp [Function.comp_def]

/-! ## Notifications -/

/-- A push in connectionless mode with the three headers of a notification,
among others and in any order, and with the id of the application among the
push headers. -/
structure MmsPush where
  id : UInt8
  contentType : ContentValue (List UInt8)
  contentTypeOctets : List UInt8
  writesContentType : WritesValue contentType contentTypeOctets
  isMmsMessage : applicationVndWapMmsMessage.names contentType
  pushFields : List Field
  applicationId : Field
  pushOthers : List Field
  pushOrder : pushFields.Perm (applicationId :: pushOthers)
  isApplicationId : applicationId.Is xWapApplicationId
  isMmsUa : xWapApplicationMmsUa.names applicationId.value
  pushOther : ∀ f ∈ pushOthers, f.Is xWapApplicationId = false
  headersShort : (contentTypeOctets ++ blockOctets pushFields).length < 128
  mmsFields : List Field
  messageType : Field
  sender : Field
  contentLocation : Field
  others : List Field
  order : mmsFields.Perm (messageType :: sender :: contentLocation :: others)
  isMessageType : messageType.Is xMmsMessageType
  isFrom : sender.Is mmsFrom
  isContentLocation : contentLocation.Is xMmsContentLocation
  other : ∀ f ∈ others, ∀ known ∈ mmsHeaders, f.Is known = false
  isNotificationInd : mmsMNotificationInd.names messageType.value
  address : List UInt8
  addressPresent : sender.value = .octets (addressPresentToken :: (address ++ [0]))
  location : List UInt8
  /-- A single zero is an empty text, and is read as data of no octet. -/
  locationText : contentLocation.value = .text location ∨
    contentLocation.value = .octets [] ∧ location = []

namespace MmsPush

variable (p : MmsPush)

def headerOctets : List UInt8 := p.contentTypeOctets ++ blockOctets p.pushFields

def octets : List UInt8 :=
  p.id :: push :: UInt8.ofNat p.headerOctets.length ::
    (p.headerOctets ++ blockOctets p.mmsFields)

theorem headerOctets_lt : p.headerOctets.length < 128 := p.headersShort

theorem pdu_octets : pdu .connectionless p.octets =
    some (p.headerOctets, blockOctets p.mmsFields) := by
  have hlen : (UInt8.ofNat p.headerOctets.length).toUInt32.toNat = p.headerOctets.length :=
    toNat_ofNat p.headerOctets_lt
  rw [pdu, octets]
  simp [Grammar.commonId, next, uintvar_ofNat p.headerOctets_lt, hlen]

theorem value_headers : value p.headerOctets = some (p.contentType, blockOctets p.pushFields) :=
  value_append p.writesContentType

/-- The value of a header that stands among the others. -/
theorem tellAll_of_perm {fields rest : List Field} {f : Field} {known : KnownHeader}
    (hperm : fields.Perm (f :: rest)) (hf : f.Is known)
    (hrest : ∀ g ∈ rest, g.Is known = false) :
    (tellAll fields { header := known }).value = f.value := by
  rw [tellAll_wanted rfl (find?_of_perm hperm hf hrest)]

theorem search_push : search pushHeaders (blockOctets p.pushFields) =
    some [p.applicationId.value] := by
  rw [search_fields (by decide)]
  simp only [pushHeaders, List.map_cons, List.map_nil]
  rw [tellAll_of_perm p.pushOrder p.isApplicationId p.pushOther]

/-- The other two of the three headers, and those that are none of them. -/
theorem others_not {f g : Field} {a b known : KnownHeader} (hf : f.Is a) (hg : g.Is b)
    (ha : Apart a known) (hb : Apart b known) (hknown : known ∈ mmsHeaders) :
    ∀ h ∈ f :: g :: p.others, h.Is known = false := by
  intro h hmem
  rcases List.mem_cons.1 hmem with rfl | hmem
  · exact ha.names hf
  · rcases List.mem_cons.1 hmem with rfl | hmem
    · exact hb.names hg
    · exact p.other h hmem known hknown

theorem search_mms : search mmsHeaders (blockOctets p.mmsFields) =
    some [p.messageType.value, p.sender.value, p.contentLocation.value] := by
  have hsender : p.mmsFields.Perm (p.sender :: p.messageType :: p.contentLocation :: p.others) :=
    p.order.trans (@List.perm_middle _ _ [p.messageType] _)
  have hlocation : p.mmsFields.Perm
      (p.contentLocation :: p.messageType :: p.sender :: p.others) :=
    p.order.trans (@List.perm_middle _ _ [p.messageType, p.sender] _)
  rw [search_fields (by decide)]
  simp only [mmsHeaders, List.map_cons, List.map_nil]
  rw [tellAll_of_perm p.order p.isMessageType (p.others_not p.isFrom p.isContentLocation
      (by decide) (by decide) (by decide)),
    tellAll_of_perm hsender p.isFrom (p.others_not p.isMessageType p.isContentLocation
      (by decide) (by decide) (by decide)),
    tellAll_of_perm hlocation p.isContentLocation (p.others_not p.isMessageType p.isFrom
      (by decide) (by decide) (by decide))]

/-- A length below 128 keeps the address below the limit of a text. -/
theorem address_lt : p.address.length < 128 := by
  have hlen := (p.addressPresent ▸ p.sender.writesValue).octets_lt
  rw [List.length_cons, List.length_append] at hlen
  omega

theorem address_value : Grammar.address p.sender.value = some p.address := by
  have hlen := p.address_lt
  have hlimit : ¬ (p.address ++ [0]).length > stringMaxLength := by
    rw [List.length_append, stringMaxLength]
    simp only [List.length_singleton]
    omega
  rw [p.addressPresent, Grammar.address]
  simp only [next, Option.bind_eq_bind, Option.bind_some]
  rw [if_pos trivial, textN, if_neg hlimit, List.getLast?_concat,
    if_pos (show some 0 = some endOfString from rfl), List.dropLast_concat]

theorem location_value : Grammar.location p.contentLocation.value = p.location := by
  rcases p.locationText with h | ⟨h, hempty⟩
  · rw [h]
    rfl
  · rw [h, hempty]
    rfl

theorem notification_octets :
    notification .connectionless p.octets = some ⟨p.address, p.location⟩ := by
  rw [notification, p.pdu_octets]
  simp only [Option.bind_eq_bind, Option.bind_some, p.value_headers, p.isMmsMessage, guard_true,
    p.search_push, List.getD_cons_zero, p.isMmsUa, p.search_mms, p.isNotificationInd,
    List.getD_cons_succ, p.address_value, p.location_value]
  rfl

/-- A notification is read whatever the order of its headers, and whatever
lies behind the literals. -/
theorem parse_octets (behind : List UInt8 → Nat → UInt8) :
    (parse ⟨p.octets, behind⟩ .connectionless).value = some ⟨p.address, p.location⟩ := by
  have hvalue := (@parse_reads ⟨p.octets, behind⟩ .connectionless).value
  rw [p.notification_octets] at hvalue
  cases hparse : (parse ⟨p.octets, behind⟩ .connectionless).value with
  | none => rw [hparse] at hvalue; cases hvalue
  | some n => rw [hparse] at hvalue; cases hvalue with | some h => rw [h]

/-- A header with a code for its name and one for its value. -/
def coded (n v : UInt8) (hn : textMax < n) (hv : textMax < v) : Field where
  name := .uint8 (n &&& 0x7F)
  value := .uint8 (v &&& 0x7F)
  nameOctets := [n]
  valueOctets := [v]
  writesName := .code hn
  writesValue := .shortInteger hv

/-- `From`, with `+48` for the address. -/
def from48 : Field where
  name := .uint8 (0x89 &&& 0x7F)
  value := .octets [0x80, 0x2B, 0x34, 0x38, 0]
  nameOctets := [0x89]
  valueOctets := [5, 0x80, 0x2B, 0x34, 0x38, 0]
  writesName := .code (by decide)
  writesValue := .data (by decide)

/-- `X-Mms-Content-Location` in letters, with `h:` for the location. -/
def locationH : Field where
  name := .text xMmsContentLocation.idCStr
  value := .text [0x68, 0x3A]
  nameOctets := xMmsContentLocation.idCStr ++ [0]
  valueOctets := [0x68, 0x3A, 0]
  writesName := .text ⟨_, _, rfl, by decide, by decide, by decide⟩
  writesValue := .text ⟨_, _, rfl, by decide, by decide, by decide⟩

/-- The location first and its name in letters, then the sender, then the type;
a bearer indication before the id of the application. -/
def shuffled : MmsPush where
  id := 0
  contentType := .text applicationVndWapMmsMessage.idCStr
  contentTypeOctets := applicationVndWapMmsMessage.idCStr ++ [0]
  writesContentType := .text ⟨_, _, rfl, by decide, by decide, by decide⟩
  isMmsMessage := by decide
  pushFields := [coded 0xB3 0x81 (by decide) (by decide), coded 0xAF 0x84 (by decide) (by decide)]
  applicationId := coded 0xAF 0x84 (by decide) (by decide)
  pushOthers := [coded 0xB3 0x81 (by decide) (by decide)]
  pushOrder := List.Perm.swap ..
  isApplicationId := by decide
  isMmsUa := by decide
  pushOther := by decide
  headersShort := by decide
  mmsFields := [locationH, from48, coded 0x8C 0x82 (by decide) (by decide)]
  messageType := coded 0x8C 0x82 (by decide) (by decide)
  sender := from48
  contentLocation := locationH
  others := []
  order := List.reverse_perm [_, _, _]
  isMessageType := by decide
  isFrom := by decide
  isContentLocation := by decide
  other := by decide
  isNotificationInd := by decide
  address := [0x2B, 0x34, 0x38]
  addressPresent := rfl
  location := [0x68, 0x3A]
  locationText := .inl rfl

theorem parse_shuffled :
    (parse ⟨shuffled.octets, fun _ _ => 0⟩ .connectionless).value =
      some ⟨[0x2B, 0x34, 0x38], [0x68, 0x3A]⟩ :=
  shuffled.parse_octets _

end MmsPush

end MuditaOS.Cellular.Pdu
