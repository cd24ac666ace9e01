import MuditaOS.Proofs.PduScan
import Mathlib.Data.List.Forall2

/-!
# Header blocks and whole messages

The loop of `parseHeaders` walks over the block the octets are, and what it
compares names with is in bounds exactly when every name fits. Put together,
`parse` gives the notification the grammar says, and stays in bounds exactly
when every text of the message fits.
-/

namespace MuditaOS.Cellular.Pdu

open MuditaOS.Lib
open Pdu.Parser Grammar

variable {mem : Memory}

/-! ## Slots -/

structure SlotAt (mem : Memory) (a : Slot CharRange) (b : Slot (List UInt8)) : Prop where
  header : a.header = b.header
  found : a.found = b.found
  value : ValueAt mem a.value b.value

theorem forall₂_modify {α β : Type} {R : α → β → Prop} {f : α → α} {g : β → β}
    (hfg : ∀ a b, R a b → R (f a) (g b)) : ∀ {l : List α} {l' : List β} {i : Nat},
      List.Forall₂ R l l' → List.Forall₂ R (l.modify i f) (l'.modify i g) := by
  intro l l' i h
  induction h generalizing i with
  | nil => simp
  | cons hab htail ih =>
      cases i with
      | zero => exact .cons (hfg _ _ hab) htail
      | succ i => exact .cons hab ih

/-- The variables of the loop hold these slots. -/
structure HeadersAt (mem : Memory) (st : Headers) (slots : Slots) : Prop where
  each : List.Forall₂ (SlotAt mem) st.slots slots
  foundCount : st.foundCount = slots.countP (·.found)
  pageShift : st.pageShift = false

theorem firstKnown_reads {a : HeaderName CharRange} {n : HeaderName (List UInt8)}
    (hn : NameAt mem a n) : ∀ {l : List (Slot CharRange)} {slots : Slots} {i : Nat},
      List.Forall₂ (SlotAt mem) l slots →
        Reads mem Eq (firstKnown mem a l i) (some ((slots.findIdx? (Wants n)).map (· + i)))
          (NameFits n slots) := by
  intro l slots i h
  induction h generalizing i with
  | nil => exact .pure rfl
  | @cons slotA slotB l slots hslot htail ih =>
      rw [firstKnown, NameFits, List.findIdx?_cons, Wants, hslot.found]
      by_cases hfound : slotB.found
      · rw [if_pos hfound, if_pos hfound]
        refine (ih (i := i + 1)).of_eq ?_
        simp [hfound, Function.comp_def, Nat.add_assoc, Nat.add_comm 1]
      · rw [if_neg hfound, if_neg hfound, hslot.header]
        refine (isKnown_reads hn.toValue).bind_value ?_
        rintro _ rfl
        cases hnames : slotB.header.names n.toValue with
        | true => exact (Traced.Follows.pure rfl).congr (by simp) |>.of_eq (by simp [hfound])
        | false =>
            refine ((ih (i := i + 1)).congr (by simp)).of_eq ?_
            simp [hfound, Function.comp_def, Nat.add_assoc, Nat.add_comm 1]

/-! ## What a header adds -/

theorem countP_modify {α : Type} {p : α → Bool} {f : α → α} : ∀ {l : List α} {i : Nat} {a : α},
    l[i]? = some a → p a = false → p (f a) = true →
      (l.modify i f).countP p = l.countP p + 1 := by
  intro l
  induction l with
  | nil => intro i a ha _ _; simp at ha
  | cons b l ih =>
      intro i a ha hfalse htrue
      cases i with
      | zero =>
          obtain rfl : b = a := by simpa using ha
          simp [hfalse, htrue]
      | succ i =>
          rw [List.modify_succ_cons, List.countP_cons, List.countP_cons,
            ih (by simpa using ha) hfalse htrue]
          omega

/-- The header that looked for the name was not found before. -/
theorem wants_of_findIdx? {n : HeaderName (List UInt8)} {slots : Slots} {i : Nat}
    (h : slots.findIdx? (Wants n) = some i) :
    ∃ slot, slots[i]? = some slot ∧ slot.found = false ∧ slot.header.names n.toValue := by
  obtain ⟨hi, hwants, _⟩ := List.findIdx?_eq_some_iff_getElem.1 h
  refine ⟨slots[i], List.getElem?_eq_getElem hi, ?_⟩
  simpa [Wants] using hwants

theorem HeadersAt.learn {st : Headers} {slots : Slots} {n : HeaderName (List UInt8)} {i : Nat}
    {v : HeaderValue CharRange} {w : HeaderValue (List UInt8)} (h : HeadersAt mem st slots)
    (hi : slots.findIdx? (Wants n) = some i) (hv : ValueAt mem v w) :
    HeadersAt mem
      (Headers.valuePred v { st with
        slots := st.slots.modify i fun slot => { slot with found := true }
        foundCount := st.foundCount + 1
        nameId := i })
      (slots.modify i fun slot => { slot with found := true, value := w }) := by
  obtain ⟨slot, hslot, hfound, _⟩ := wants_of_findIdx? hi
  have hlt : i < st.slots.length := by
    rw [h.each.length_eq]
    exact (List.getElem?_eq_some_iff.1 hslot).1
  rw [Headers.valuePred, if_pos (by simpa using hlt)]
  refine ⟨?_, ?_, h.pageShift⟩
  · dsimp only
    rw [List.modify_modify_eq]
    refine forall₂_modify ?_ h.each
    intro a b hab
    exact ⟨hab.header, rfl, hv⟩
  · dsimp only
    rw [countP_modify hslot hfound rfl, h.foundCount]

theorem parseHeaderValue_reads {a : HeaderName CharRange} {n : HeaderName (List UInt8)}
    {st : Headers} {slots : Slots} {octets : Octets} {l : List UInt8} (hn : NameAt mem a n)
    (hst : HeadersAt mem st slots) (h : At mem octets l) :
    Reads mem (Rest mem (HeadersAt mem))
      (parseHeaderValue mem octets (Headers.namePred mem) Headers.valuePred a st)
      ((value l).map fun p => (learn n p.1 slots, p.2)) (NameFits n slots) := by
  rw [parseHeaderValue, Headers.namePred, bind_assoc]
  refine ((firstKnown_reads hn hst.each).bind_value (d := True) ?_).congr (by simp)
  rintro _ rfl
  unfold learn
  cases hi : slots.findIdx? (Wants n) with
  | none =>
      refine (ignore_reads h).bind_map ?_
      intro p q hrest _
      exact .pure ⟨hst, hrest⟩
  | some i =>
      refine (value_reads h).bind_map ?_
      intro p q hrest _
      exact .pure ⟨hst.learn hi hrest.1, hrest.2⟩

/-! ## One round of the loop -/

theorem name_eq {l : List UInt8} :
    name l = (rawName l).bind fun p => (decode p.1).map fun n => (n, p.2) := by
  rw [name]
  cases rawName l with
  | none => rfl
  | some p => cases h : decode p.1 <;> simp [h]

/-- The slots after one header, and the octets behind it. -/
def header (slots : Slots) (l : List UInt8) : Option (Slots × List UInt8) :=
  (name l).bind fun p => (value p.2).map fun q => (learn p.1 q.1 slots, q.2)

theorem parseHeadersRound_reads {st : Headers} {slots : Slots} {octets : Octets}
    {l : List UInt8} (hst : HeadersAt mem st slots) (h : At mem octets l) :
    Reads mem (Rest mem (HeadersAt mem)) (parseHeadersRound mem octets st) (header slots l)
      (∀ n rest, name l = some (n, rest) → NameFits n slots) := by
  have hround : ∀ {a : HeaderName CharRange} {raw n : HeaderName (List UInt8)} {octets : Octets}
      {rest : List UInt8}, NameAt mem a n → decode raw = some n → At mem octets rest →
        Reads mem (Rest mem (HeadersAt mem))
          (parseHeaderValue mem octets (Headers.namePred mem) Headers.valuePred a
              { st with nameId := st.slots.length, pageShift := false } >>=
            fun p => do require (!p.1.pageShift); pure (p.1, p.2))
          (((decode raw).map fun n => (n, rest)).bind fun p =>
            (value p.2).map fun q => (learn p.1 q.1 slots, q.2))
          (∀ n, decode raw = some n → NameFits n slots) := by
    intro a raw n octets rest hn hraw hrest
    have hstart : HeadersAt mem
        { st with nameId := st.slots.length, pageShift := false } slots :=
      ⟨hst.each, hst.foundCount, rfl⟩
    have hvalue := parseHeaderValue_reads hn hstart hrest
    rw [hraw]
    refine .of_eq ((hvalue.congr (by simp)).bind_map (k := fun b => b) ?_) Option.map_id'
    intro ⟨st, octets⟩ b hb _
    dsimp only
    rw [hb.1.pageShift]
    exact .pure hb
  rw [parseHeadersRound, parseHeader, bind_assoc, header, name_eq, Option.bind_assoc]
  refine .congr (Traced.Follows.bind (rawName_reads h)
    (d := fun b => ∀ n, decode b.1 = some n → NameFits n slots) ?_) ?_
  · intro ⟨a, octets⟩ ⟨raw, rest⟩ ⟨hname, hrest⟩ _
    dsimp only at hname hrest ⊢
    cases hname with
    | text ht => exact hround (.text ht) rfl hrest
    | uint8 n =>
        dsimp only
        by_cases h0 : n = 0
        · rw [if_neg (by rw [h0]; decide)]
          exact hround (.uint8 n) (by rw [decode, if_pos h0, h0]) hrest
        · rw [if_pos (UInt8.pos_iff_ne_zero.2 h0)]
          by_cases hle : n ≤ pageShift
          · -- A page shift: nothing is compared, and the round fails.
            have hfail : decode (.uint8 n) = none := by rw [decode, if_neg h0, if_pos hle]
            refine .congr (c := True) ?_ (iff_of_true trivial fun m hm => ?_)
            · rw [hfail]
              by_cases hlt : n < pageShift
              · rw [if_pos hlt]
                exact .fail
              · rw [if_neg hlt, if_pos (UInt8.le_antisymm hle (UInt8.not_lt.1 hlt)), bind_assoc]
                exact (next_reads hrest).bind_none fun p q _ _ => .fail
            · rw [hfail] at hm
              cases hm
          · have hdecode : decode (.uint8 n) = some (.uint8 (n &&& 0x7F)) := by
              rw [decode, if_neg h0, if_neg hle]
            rw [if_neg fun hlt => hle (UInt8.le_of_lt hlt),
              if_neg fun heq : n = pageShift => hle (by rw [heq]; exact UInt8.le_refl _)]
            exact hround (.uint8 _) hdecode hrest
  · constructor
    · intro ⟨_, hfits⟩ n rest hn
      obtain ⟨p, hp, hn⟩ := Option.bind_eq_some_iff.1 hn
      obtain ⟨m, hm, heq⟩ := Option.map_eq_some_iff.1 hn
      cases heq
      exact hfits p hp n hm
    · intro hfits
      refine ⟨trivial, fun p hp n hn => hfits n p.2 ?_⟩
      rw [hp, Option.bind_some, hn]
      rfl

/-! ## The loop and the whole block -/

theorem block_nil : block [] = .done := by
  rw [block, if_pos rfl]

theorem block_cons {l : List UInt8} (h : l ≠ []) :
    block l =
      match name l with
      | none => .broken
      | some p =>
          match value p.2 with
          | none => .cut p.1
          | some q => .field p.1 q.1 (block q.2) := by
  rw [block, if_neg h]
  split
  · rename_i hname
    rw [hname]
  · rename_i n afterName hname
    rw [hname]
    dsimp only
    split
    · rename_i hvalue
      rw [hvalue]
    · rename_i v rest hvalue
      rw [hvalue]

theorem scan_block {slots : Slots} {l : List UInt8} (h : l ≠ []) :
    scan slots (block l) =
      (header slots l).bind fun p => if Complete p.1 then some p.1 else scan p.1 (block p.2) := by
  rw [block_cons h, header]
  cases name l with
  | none => rfl
  | some p =>
      cases hvalue : value p.2 with
      | none => simp [hvalue, scan]
      | some q => simp [hvalue, scan]

theorem blockFits_block {slots : Slots} {l : List UInt8} (h : l ≠ []) :
    BlockFits slots (block l) ↔
      (∀ n rest, name l = some (n, rest) → NameFits n slots) ∧
        ∀ p, header slots l = some p → ¬ Complete p.1 → BlockFits p.1 (block p.2) := by
  rw [block_cons h, header]
  cases name l with
  | none => simp [BlockFits]
  | some p =>
      obtain ⟨n, afterName⟩ := p
      cases hvalue : value afterName with
      | none => simp [hvalue, BlockFits]
      | some q => simp [hvalue, BlockFits]

theorem header_lt {slots slots' : Slots} {l rest : List UInt8}
    (h : header slots l = some (slots', rest)) : rest.length < l.length := by
  obtain ⟨p, hname, h⟩ := Option.bind_eq_some_iff.1 h
  obtain ⟨q, hvalue, heq⟩ := Option.map_eq_some_iff.1 h
  cases heq
  exact Nat.lt_trans (value_lt hvalue) (name_lt hname)

theorem headersComplete_iff {st : Headers} {slots : Slots} (h : HeadersAt mem st slots) :
    st.foundCount = st.slots.length ↔ Complete slots := by
  rw [h.foundCount, h.each.length_eq, List.countP_eq_length]
  rfl

theorem parseHeadersLoop_reads : ∀ {fuel : Nat} {st : Headers} {slots : Slots}
    {octets : Octets} {l : List UInt8}, HeadersAt mem st slots → At mem octets l →
      l.length ≤ fuel →
        Reads mem (fun a b => List.Forall₂ (SlotAt mem) a.1.slots b)
          (parseHeadersLoop mem fuel octets st) (scan slots (block l))
          (BlockFits slots (block l)) := by
  intro fuel
  induction fuel with
  | zero =>
      intro st slots octets l hst h hfuel
      obtain rfl := List.length_eq_zero_iff.1 (Nat.le_zero.1 hfuel)
      rw [parseHeadersLoop, if_pos (h.isEmpty.2 rfl), block_nil]
      exact .pure hst.each
  | succ fuel ih =>
      intro st slots octets l hst h hfuel
      by_cases hl : l = []
      · rw [parseHeadersLoop, if_pos (h.isEmpty.2 hl), hl, block_nil]
        exact .pure hst.each
      · rw [parseHeadersLoop, if_neg fun hempty => hl (h.isEmpty.1 hempty)]
        rw [scan_block hl]
        refine .congr (Traced.Follows.bind (parseHeadersRound_reads hst h)
          (d := fun p => ¬ Complete p.1 → BlockFits p.1 (block p.2)) ?_) (blockFits_block hl).symm
        intro ⟨st, octets⟩ ⟨slots, rest⟩ ⟨hst, hrest⟩ hheader
        dsimp only at hst hrest ⊢
        by_cases hcomplete : Complete slots
        · rw [if_pos ((headersComplete_iff hst).2 hcomplete), if_pos hcomplete]
          refine Traced.Follows.congr (c := True) (.pure hst.each) ?_
          simp [hcomplete]
        · rw [if_neg fun heq => hcomplete ((headersComplete_iff hst).1 heq), if_neg hcomplete]
          have hlt := header_lt hheader
          exact (ih hst hrest (by omega)).congr (by simp [hcomplete])

theorem wanted_at {headers : List KnownHeader} :
    HeadersAt mem { slots := headers.map fun header => { header := header } } (wanted headers) := by
  refine ⟨?_, ?_, rfl⟩
  · rw [wanted, List.forall₂_map_left_iff, List.forall₂_map_right_iff, List.forall₂_same]
    exact fun header _ => ⟨rfl, rfl, .uint8 0⟩
  · induction headers with
    | nil => rfl
    | cons header headers ih => simpa [wanted] using ih

theorem parseHeaders_reads {octets : Octets} {l : List UInt8} (h : At mem octets l)
    {headers : List KnownHeader} :
    Reads mem (List.Forall₂ (ValueAt mem)) (parseHeaders mem octets headers)
      (search headers l) (BlockFits (wanted headers) (block l)) := by
  rw [parseHeaders, h.size, search]
  refine (parseHeadersLoop_reads wanted_at h (Nat.le_refl _)).bind_map ?_
  intro p slots hslots _
  refine .pure ?_
  rw [List.forall₂_map_left_iff, List.forall₂_map_right_iff]
  exact hslots.imp fun _ _ hslot => hslot.value

/-! ## The message -/

theorem str_reads : ∀ {t : List UInt8} {rng : CharRange}, At mem rng t →
    Reads mem Eq (rng.str mem) (some t) True := by
  intro t
  induction t with
  | nil =>
      intro rng h
      rw [CharRange.str, h.size]
      exact .pure rfl
  | cons c t ih =>
      intro rng h
      have hrest := ih h.tail
      rw [CharRange.str, h.tail.size] at hrest
      rw [CharRange.str, h.size, List.length_cons, List.range'_succ, List.mapM_cons]
      refine (load_reads (a := .message _) h.inBounds h.read).bind_some ?_
      rintro _ rfl
      refine hrest.bind_some ?_
      rintro _ rfl
      exact .pure rfl

theorem default_at : At mem {} [] := At.empty (Nat.zero_le _)

theorem addressOf_reads {v : HeaderValue CharRange} {w : HeaderValue (List UInt8)}
    (h : ValueAt mem v w) : Reads mem (At mem) (addressOf mem v) (address w) True := by
  cases h with
  | uint8 n => exact .pure default_at
  | text h => exact .pure default_at
  | octets h =>
      rw [addressOf, address]
      refine (next_reads h).bind_true ?_
      rintro _ ⟨token, rest⟩ ⟨rfl, hrest⟩ _
      dsimp only at hrest ⊢
      split
      · rw [hrest.size]
        refine .of_eq ((parseTextN_reads hrest).bind_map (k := fun b => b) ?_) Option.map_id'
        intro p t ht _
        exact .pure ht
      · exact .pure default_at

theorem locationOf_at {v : HeaderValue CharRange} {w : HeaderValue (List UInt8)}
    (h : ValueAt mem v w) : At mem (locationOf v) (location w) := by
  cases h with
  | uint8 n => exact default_at
  | text h => exact h.1
  | octets h => exact default_at

theorem getD_valueAt {l : List (HeaderValue CharRange)} {l' : List (HeaderValue (List UInt8))}
    (h : List.Forall₂ (ValueAt mem) l l') (i : Nat) :
    ValueAt mem (l.getD i (.uint8 0)) (l'.getD i (.uint8 0)) := by
  induction h generalizing i with
  | nil => exact .uint8 0
  | cons hv _ ih =>
      cases i with
      | zero => exact hv
      | succ i => exact ih i

/-- A value that has to be the known one. -/
theorem require_reads_known {β γ : Type} {R : β → γ → Prop} {v : DefaultValue CharRange}
    {w : DefaultValue (List UInt8)} {known : KnownHeader} {x : Traced Access β} {y : Option γ}
    {c : Prop} (hv : ValueAt mem v w) (hx : Reads mem R x y c) :
    Reads mem R (do require (← isKnown mem v known); x)
      (do guard (known.names w); y) (known.Covers w ∧ (known.names w → c)) := by
  refine (isKnown_reads hv).bind_value ?_
  rintro _ rfl
  cases known.names w with
  | true => exact (hx.congr (by simp))
  | false => exact Traced.Follows.fail.congr (by simp)

theorem parsePush_reads (mode : ConnectionMode) :
    Reads mem (fun a b => At mem a.1 b.1 ∧ At mem a.2 b.2) (parsePush mem mode)
      (pdu mode mem.message) True := by
  have hid : Reads mem (fun a b => At mem a.2 b.2)
      (Pdu.commonId mem mode ⟨0, mem.message.length⟩) (Grammar.commonId mode mem.message) True := by
    cases mode with
    | connectionless => exact (next_reads At.whole).mono fun _ _ h => h.2
    | connectionmode => exact .pure At.whole
  rw [parsePush, pdu]
  refine hid.bind_true ?_
  intro a b h _
  refine (next_reads h).bind_true ?_
  rintro _ ⟨type, rest⟩ ⟨rfl, hrest⟩ _
  refine require_reads.bind_true ?_
  intro _ _ _ _
  refine (parseUintvar_reads hrest).bind_true ?_
  rintro ⟨n, octets⟩ ⟨_, rest⟩ ⟨rfl, hrest⟩ _
  exact .pure (subOctets_at hrest _)

/-- `parse` gives what the grammar says, whatever lies behind the literals, and
stays in bounds exactly when every text of the message fits. -/
theorem parse_reads (mode : ConnectionMode) :
    Reads mem Eq (parse mem mode) (notification mode mem.message)
      (TextsFit mode mem.message) := by
  rw [parse, notification]
  refine .congr (Traced.Follows.bind (parsePush_reads mode)
    (d := fun p => ∀ contentType rest, value p.1 = some (contentType, rest) →
      applicationVndWapMmsMessage.Covers contentType ∧
        (applicationVndWapMmsMessage.names contentType → HeadersFit rest p.2)) ?_)
    (by simp [TextsFit])
  intro ⟨headersOctets, octets⟩ ⟨headers, content⟩ ⟨hheaders, hcontent⟩ _
  refine .congr (Traced.Follows.bind (value_reads hheaders)
    (d := fun p => applicationVndWapMmsMessage.Covers p.1 ∧
      (applicationVndWapMmsMessage.names p.1 → HeadersFit p.2 content)) ?_) (by simp)
  intro ⟨contentTypeA, headersOctets⟩ ⟨contentType, headers⟩ ⟨hcontentType, hheaders⟩ _
  refine require_reads_known hcontentType ?_
  refine (parseHeaders_reads hheaders).bind ?_
  intro pushA pushValues hpush _
  refine require_reads_known (getD_valueAt hpush 0) ?_
  refine .congr (Traced.Follows.bind (parseHeaders_reads hcontent)
    (d := fun values => mmsMNotificationInd.Covers (values.getD 0 (.uint8 0))) ?_) Iff.rfl
  intro mmsA mmsValues hmms _
  refine .congr (require_reads_known (c := True) (getD_valueAt hmms 0) ?_) (by simp)
  refine (addressOf_reads (getD_valueAt hmms 1)).bind_true ?_
  intro addressA address haddress _
  refine (str_reads haddress).bind_some ?_
  rintro _ rfl
  refine (str_reads (locationOf_at (getD_valueAt hmms 2))).bind_some ?_
  rintro _ rfl
  exact .pure rfl

/-- The parser comes to its end within the message and the literals exactly
when no text of the message is compared with a shorter one. -/
theorem parse_in_bounds_iff (mem : Memory) (mode : ConnectionMode) :
    (parse mem mode).Every (Access.InBounds mem.message) ↔ TextsFit mode mem.message :=
  (parse_reads mode).every

/-- A notification with the header `X-Extra`, which is longer than `From`. -/
def extraHeader : List UInt8 :=
  [0x00, 0x06, 0x03, 0xBE, 0xAF, 0x84, 0x8C, 0x82, 0x58, 0x2D, 0x45, 0x78, 0x74, 0x72, 0x61,
    0x00, 0x61, 0x00, 0x89, 0x05, 0x80, 0x2B, 0x34, 0x38, 0x00, 0x83, 0x68, 0x00]

theorem extraHeader_past_from :
    ¬ (parse ⟨extraHeader, fun _ _ => 0⟩ .connectionless).Every
      (Access.InBounds extraHeader) := by
  decide +kernel

end MuditaOS.Cellular.Pdu
