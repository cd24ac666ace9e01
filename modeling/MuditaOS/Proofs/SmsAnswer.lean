import MuditaOS.Cellular.SmsParser
import MuditaOS.Proofs.Ucs2RoundTrip

/-!
# What the parser makes of an answer

A well-formed answer to `+QCMGR` has five fields, eight for a part of a
concatenated message. The sender stands in it in hexadecimal UTF-16, quoted; the
other fields are the modem's own, free of commas.
-/

namespace MuditaOS.Sms

open MuditaOS.Lib MuditaOS.Unicode

/-! ## Writing an answer -/

/-- The fields of an answer that the parser does not look into. -/
structure Envelope where
  status : List UInt8
  date : List UInt8
  time : List UInt8
  noComma : 0x2C ∉ status ∧ 0x2C ∉ date ∧ 0x2C ∉ time

/-- The 16-bit units of a character. -/
def utf16Units (c : Char) : List Nat :=
  if c.val.toNat < 0x10000 then [c.val.toNat]
  else [0xD800 + (c.val.toNat - 0x10000) / 0x400,
    0xDC00 + (c.val.toNat - 0x10000) % 0x400]

def senderField (sender : List Char) : List UInt8 :=
  UCS2.hexText (sender.flatMap utf16Units)

def joinFields : List (List UInt8) → List UInt8
  | [] => []
  | [field] => field
  | field :: next :: fields => field ++ 0x2C :: joinFields (next :: fields)

/-- `+QCMGR: `. -/
def answerName : List UInt8 := [0x2B, 0x51, 0x43, 0x4D, 0x47, 0x52, 0x3A, 0x20]

/-- The five fields that every answer has. -/
def commonFields (e : Envelope) (sender : List Char) : List (List UInt8) :=
  [answerName ++ e.status, 0x22 :: (senderField sender ++ [0x22]), [],
    0x22 :: e.date, e.time ++ [0x22]]

def decimalText : Nat → List UInt8 := decimal fun d => UInt8.ofNat (0x30 + d)

def singleLine (e : Envelope) (sender : List Char) : List UInt8 :=
  joinFields (commonFields e sender)

def partLine (e : Envelope) (sender : List Char) (smsId current total : Nat) :
    List UInt8 :=
  joinFields (commonFields e sender ++
    [decimalText smsId, decimalText current, decimalText total])

/-! ## Reading its fields -/

theorem tokensFrom_comma {field token cs : List UInt8} (h : 0x2C ∉ field) :
    tokensFrom token (field ++ 0x2C :: cs) = (token ++ field) :: tokensFrom [] cs := by
  induction field generalizing token with
  | nil => rw [List.nil_append, tokensFrom, if_pos rfl, List.append_nil]
  | cons c field ih =>
      have hc : c ≠ 0x2C := fun hc => h (hc ▸ List.mem_cons_self)
      rw [List.cons_append, tokensFrom, if_neg hc,
        ih fun hmem => h (List.mem_cons_of_mem c hmem), List.append_assoc]
      rfl

theorem tokensFrom_last {field token : List UInt8} (h : 0x2C ∉ field)
    (hne : token ++ field ≠ []) : tokensFrom token field = [token ++ field] := by
  induction field generalizing token with
  | nil =>
      rw [List.append_nil] at hne ⊢
      rw [tokensFrom, if_neg hne]
  | cons c field ih =>
      have hc : c ≠ 0x2C := fun hc => h (hc ▸ List.mem_cons_self)
      rw [tokensFrom, if_neg hc,
        ih (fun hmem => h (List.mem_cons_of_mem c hmem)) (by simp),
        List.append_assoc]
      rfl

theorem tokens_joinFields : ∀ {fields : List (List UInt8)},
    (∀ field ∈ fields, 0x2C ∉ field) → fields.getLast? ≠ some [] →
    tokens (joinFields fields) = fields := by
  intro fields
  induction fields with
  | nil => intro _ _; rfl
  | cons field fields ih =>
      intro hcomma hlast
      have hfield := hcomma field List.mem_cons_self
      cases fields with
      | nil => exact tokensFrom_last hfield fun hnil => hlast (by rw [← hnil]; rfl)
      | cons next fields =>
          rw [List.getLast?_cons_cons] at hlast
          have hrest := ih (fun f hf => hcomma f (List.mem_cons_of_mem _ hf)) hlast
          rw [tokens] at hrest ⊢
          rw [joinFields, tokensFrom_comma hfield, hrest, List.nil_append]

theorem find_answerName {e : Envelope} {sender : List Char}
    {fields : List (List UInt8)} :
    find smsReadMsgName (joinFields (commonFields e sender ++ fields)) 0 ≠ none := by
  simp [commonFields, joinFields, answerName, find, findAux, smsReadMsgName,
    List.isPrefixOf]

theorem hexDigit_plain : ∀ d < 16, UCS2.hexDigit d ≠ 0x22 ∧ UCS2.hexDigit d ≠ 0x2C := by
  decide

theorem hexText_plain {ns : List Nat} : ∀ b ∈ UCS2.hexText ns, b ≠ 0x22 ∧ b ≠ 0x2C := by
  intro b hb
  obtain ⟨n, _, hn⟩ := List.mem_flatMap.1 hb
  obtain ⟨d, hd, rfl⟩ := List.mem_map.1 hn
  exact hexDigit_plain d (UCS2.nibbles_lt d hd)

theorem unquote_senderField {sender : List Char} :
    unquote (0x22 :: (senderField sender ++ [0x22])) = senderField sender := by
  rw [unquote, List.filter_cons_of_neg (by simp), List.filter_append,
    List.filter_cons_of_neg (by simp), List.filter_nil, List.append_nil]
  exact List.filter_eq_self.2 fun b hb => decide_eq_true (hexText_plain b hb).1

theorem writes_decimal : Writes 10 fun d => UInt8.ofNat (0x30 + d) :=
  ⟨by decide, by decide, by decide, by decide⟩

theorem stoSigned_decimalText {n : Nat} (h : n < 2 ^ 31) :
    stoSigned 32 10 (decimalText n) = some (n : Int) := by
  rw [stoSigned, decimalText, writes_decimal.strtol_decimal, Option.filter_some,
    if_pos]
  simp
  omega

theorem decimalText_noComma {n : Nat} : 0x2C ∉ decimalText n := by
  intro hmem
  obtain ⟨d, hd, heq⟩ := List.mem_map.1 hmem
  have hplain : ∀ d < 10, UInt8.ofNat (0x30 + d) ≠ 0x2C := by decide
  exact hplain d (decimalDigits_lt d hd) heq

theorem decimalText_ne_nil {n : Nat} : decimalText n ≠ [] :=
  mt List.map_eq_nil_iff.1 decimalDigits_ne_nil

theorem commonFields_noComma {e : Envelope} {sender : List Char} :
    ∀ field ∈ commonFields e sender, 0x2C ∉ field := by
  obtain ⟨hstatus, hdate, htime⟩ := e.noComma
  have hsender : 0x2C ∉ senderField sender := fun h => (hexText_plain _ h).2 rfl
  rw [commonFields]
  refine List.forall_mem_cons.2 ⟨?_, List.forall_mem_cons.2 ⟨?_,
    List.forall_mem_cons.2 ⟨by simp, List.forall_mem_cons.2 ⟨?_,
      List.forall_mem_cons.2 ⟨?_, by simp⟩⟩⟩⟩⟩
  · simp [answerName, hstatus]
  · simp [hsender]
  · simp [hdate]
  · simp [htime]

/-! ## Parsing it -/

section Parse

variable {addr : Nat} {s : SMSParser} {e : Envelope} {sender : List Char}
  {text : List UInt8}

/-- The parser with the number of an answer. -/
def SMSParser.withNumber (addr : Nat) (s : SMSParser) (sender : List Char) :
    SMSParser :=
  { s with
    number := s.number.moveAssign
      (UCS2.toUTF8 addr (UCS2.ofString (senderField sender))) }

theorem parse_singleLine :
    s.parse addr (singleLine e sender) text =
      some (true, { s.withNumber addr sender with message := text }) := by
  have htokens : tokens (singleLine e sender) = commonFields e sender :=
    tokens_joinFields commonFields_noComma (by simp [commonFields])
  have hfind := @find_answerName e sender []
  rw [List.append_nil] at hfind
  rw [SMSParser.parse, singleLine, if_neg hfind, ← singleLine, htokens]
  simp only [commonFields, unquote_senderField]
  rfl

theorem parse_partLine {smsId current total : Nat} (hsmsId : smsId < 2 ^ 31)
    (hcurrent : current < 2 ^ 31) (htotal : total < 2 ^ 31) :
    s.parse addr (partLine e sender smsId current total) text =
      some ((s.withNumber addr sender).parsePart smsId current total text) := by
  have htokens : tokens (partLine e sender smsId current total) =
      commonFields e sender ++
        [decimalText smsId, decimalText current, decimalText total] := by
    refine tokens_joinFields (fun field hfield => ?_) ?_
    · rcases List.mem_append.1 hfield with hfield | hfield
      · exact commonFields_noComma field hfield
      · simp only [List.mem_cons, List.not_mem_nil, or_false] at hfield
        rcases hfield with rfl | rfl | rfl
        · exact decimalText_noComma
        · exact decimalText_noComma
        · exact decimalText_noComma
    · simp [commonFields, decimalText_ne_nil]
  rw [SMSParser.parse, partLine, if_neg find_answerName, ← partLine, htokens]
  simp only [commonFields, List.cons_append, List.nil_append, unquote_senderField,
    stoSigned_decimalText hsmsId, stoSigned_decimalText hcurrent,
    stoSigned_decimalText htotal]
  rfl

/-! ## The number -/

/-- A sender that the decoder of `UCS2` reads back. -/
def Readable (sender : List Char) : Prop :=
  '\x00' ∉ sender ∧ UCS2.Survives sender

instance : DecidablePred Readable := fun _ => inferInstanceAs (Decidable (_ ∧ _))

theorem utf16Units_eq_chunks {c : Char} (h : UCS2.Plain c) :
    utf16Units c = UCS2.chunks c := by
  rw [utf16Units, UCS2.chunks]
  split
  · rfl
  · next hbase =>
      have hcode := (UCS2.code_of_pair (by omega)).2 (h.resolve_left hbase)
      have hbits := @UCS2.upperBits_lt c.val.toNat
      rw [UCS2.highSurrogate, UCS2.lowSurrogate] at hcode ⊢
      simp only [List.cons.injEq, and_true]
      omega

theorem withNumber_text (h : Readable sender) :
    Text (s.withNumber addr sender).number sender := by
  have hunits : sender.flatMap utf16Units = sender.flatMap UCS2.chunks :=
    List.flatMap_congr fun c hc => utf16Units_eq_chunks (h.2.1 c hc)
  rw [SMSParser.withNumber, senderField, hunits,
    UCS2.toUTF8_hexText UCS2.flatMap_chunks_lt, (UCS2.decoded_iff h.1).2 h.2]
  exact UTF8.moveAssign_text (UTF8.ofBytes_sound h.1).text

/-- The number that the caller gets is the sender, wherever the two strings
are. -/
def NumberIs (s : SMSParser) (sender : List Char) : Prop :=
  ∀ addr addr', (UTF8.ofString addr (utf8 sender)).equal (s.getNumber addr') = true

theorem numberIs_of_text (h : Readable sender) (htext : Text s.number sender) :
    NumberIs s sender := fun _ _ =>
  (UCS2.equal_ofBytes (UTF8.copy_sound htext) h.1).2 rfl

end Parse

end MuditaOS.Sms
