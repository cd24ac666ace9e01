import Mathlib.Data.Nat.Digits.Lemmas
import MuditaOS.Lib.Cut
import MuditaOS.Lib.Run
import MuditaOS.Proofs.ParserText

/-!
# Runs of the desktop parser

Two facts about whole runs. However a stream of framed messages is cut into
chunks, the payloads come out one by one: what was read so far is some whole
messages and the beginning of the next, and reading on from a beginning is reading
the two together. And the timer runs in every unfinished message, unless a chunk
that completes an accepted message also begins another: accepting a payload stops
the timer that the chunk started, and nothing starts it again.
-/

namespace MuditaOS.Desktop

open MuditaOS.Lib

/-! ## The header of a message -/

def decimalDigit (d : Nat) : UInt8 := UInt8.ofNat (0x30 + d)

theorem writes_decimalDigit : Writes 10 decimalDigit :=
  ⟨by decide, by decide, by decide, by decide⟩

/-- The digits of `n`, most significant first, with leading zeros to nine. -/
def lengthDigits (n : Nat) : List Nat :=
  List.replicate (sizeLength - (toDecimal n).length) 0 ++
    if n = 0 then [0] else (Nat.digits 10 n).reverse

def messageHeader (n : Nat) : List UInt8 :=
  endpointChar :: (lengthDigits n).map decimalDigit

theorem buildResponse_eq {payload : List UInt8} :
    buildResponse payload = messageHeader payload.length ++ payload := by
  rw [buildResponse, messageHeader, lengthDigits, List.map_append, List.map_replicate,
    toDecimal]
  split
  · rfl
  · rfl

theorem length_messageHeader {n : Nat} (h : n < 10 ^ 9) :
    (messageHeader n).length = sizeHeader := by
  have hdigits := (Nat.digits_length_le_iff (show 1 < 10 by decide) n).2 h
  rw [messageHeader, lengthDigits, List.length_cons, List.length_map,
    List.length_append, List.length_replicate, toDecimal, sizeHeader, sizeLength]
  split
  · rfl
  · rw [List.length_map, List.length_reverse]
    omega

theorem lengthDigits_eq {n : Nat} : lengthDigits n =
    List.replicate (sizeLength - (toDecimal n).length) 0 ++ decimalDigits n := rfl

theorem lengthDigits_lt {n : Nat} : ∀ d ∈ lengthDigits n, d < 10 := by
  intro d hd
  rw [lengthDigits_eq] at hd
  rcases List.mem_append.1 hd with hzero | hd
  · rw [List.eq_of_mem_replicate hzero]
    omega
  · exact decimalDigits_lt d hd

theorem foldl_lengthDigits {n : Nat} :
    (lengthDigits n).foldl (fun a d => a * 10 + d) 0 = n := by
  have hzeros : ∀ k : Nat,
      (List.replicate k 0).foldl (fun a d => a * 10 + d) 0 = 0 := by
    intro k
    induction k with
    | zero => rfl
    | succ k ih => rw [List.replicate_succ, List.foldl_cons, Nat.zero_mul, ih]
  rw [lengthDigits_eq, List.foldl_append, hzeros, foldl_decimalDigits]

theorem calcPayloadLength_messageHeader {n : Nat} (h : n < 10 ^ 9) :
    calcPayloadLength (messageHeader n) = n := by
  have hne : lengthDigits n ≠ [] := fun hnil =>
    decimalDigits_ne_nil (List.append_eq_nil_iff.1 hnil).2
  obtain ⟨d, ds, hds⟩ := List.exists_cons_of_ne_nil hne
  have hread : strtol 10 ((lengthDigits n).map decimalDigit) = some (n : Int) := by
    have hfold := @foldl_lengthDigits n
    have hlt := @lengthDigits_lt n
    rw [hds] at hfold hlt ⊢
    rw [writes_decimalDigit.strtol_map hlt, hfold]
  have hsubstr : substr (messageHeader n) 1 none = (lengthDigits n).map decimalDigit := by
    rw [substr, messageHeader, List.drop_one, List.tail_cons]
    exact List.take_of_length_le (Nat.le_succ _)
  rw [calcPayloadLength, hsubstr, stoSigned, hread, Option.filter_some, if_pos]
  · simp only []
    omega
  · simp
    omega

/-! ## Framed messages -/

/-- A payload that the format can frame. -/
def Framable (payload : List UInt8) : Prop := payload ≠ [] ∧ payload.length < 10 ^ 9

theorem Framable.length_ne {payload : List UInt8} (h : Framable payload) :
    payload.length ≠ 0 := fun hzero => h.1 (List.eq_nil_of_length_eq_zero hzero)

theorem Framable.length {payload : List UInt8} (h : Framable payload) :
    (buildResponse payload).length = sizeHeader + payload.length := by
  rw [buildResponse_eq, List.length_append, length_messageHeader h.2]

/-- Ten bytes of a text that starts with a frame are its header. -/
theorem Framable.take_header {payload text rest : List UInt8} (h : Framable payload)
    (htext : text ++ rest = buildResponse payload)
    (hlen : sizeHeader ≤ text.length) :
    text.take sizeHeader = messageHeader payload.length ∧
      text.drop sizeHeader ++ rest = payload := by
  rw [buildResponse_eq] at htext
  have hheader := length_messageHeader h.2
  have htake := congrArg (List.take sizeHeader) htext
  have hdrop := congrArg (List.drop sizeHeader) htext
  rw [List.take_append_of_le_length hlen, List.take_left' hheader] at htake
  rw [List.drop_append_of_le_length hlen, List.drop_left' hheader] at hdrop
  exact ⟨htake, hdrop⟩

theorem mem_of_prefix_frame {payload text rest : List UInt8}
    (htext : text ++ rest = buildResponse payload) (hne : text ≠ []) :
    endpointChar ∈ text := by
  obtain ⟨c, cs, rfl⟩ := List.exists_cons_of_ne_nil hne
  rw [buildResponse, List.cons_append] at htext
  rw [(List.cons.inj htext).1]
  exact List.mem_cons_self

/-- Whole messages and the beginning of another start with the header of the
first. -/
theorem exists_header {done todo : List (List UInt8)} {s : List UInt8}
    (hgood : ∀ p ∈ done ++ todo, Framable p)
    (hs : Unfinished (todo.map buildResponse) s)
    (hlen : sizeHeader ≤ ((done.map buildResponse).flatten ++ s).length) :
    ∃ payload, Framable payload ∧
      ((done.map buildResponse).flatten ++ s).take sizeHeader =
        messageHeader payload.length := by
  cases done with
  | nil =>
      have hne : s ≠ [] := fun h => by
        rw [h] at hlen
        exact absurd hlen (by decide)
      obtain ⟨b, rest, t, htodo, _, hb⟩ := hs.resolve_left hne
      obtain ⟨payload, payloads, rfl, rfl, _⟩ := List.map_eq_cons_iff.1 htodo
      have hpayload := hgood payload List.mem_cons_self
      exact ⟨payload, hpayload, (hpayload.take_header hb hlen).1⟩
  | cons payload done =>
      have hpayload := hgood payload List.mem_cons_self
      refine ⟨payload, hpayload, ?_⟩
      rw [List.map_cons, List.flatten_cons, buildResponse_eq, List.append_assoc,
        List.append_assoc, List.take_left' (length_messageHeader hpayload.2)]

/-- Whole messages and the beginning of another. -/
theorem readAll_frames {todo : List (List UInt8)} {r : List UInt8}
    (htodo : ∀ p ∈ todo, Framable p) (hr : Unfinished (todo.map buildResponse) r) :
    ∀ {done : List (List UInt8)}, (∀ p ∈ done, Framable p) →
      readAll ((done.map buildResponse).flatten ++ r) = (done, r) := by
  intro done
  induction done with
  | nil =>
      intro _
      rw [List.map_nil, List.flatten_nil, List.nil_append]
      by_cases hne : r = []
      · rw [hne, readAll_nil]
      · obtain ⟨b, rest, t, htodo', ht, hb⟩ := hr.resolve_left hne
        obtain ⟨payload, payloads, rfl, rfl, _⟩ := List.map_eq_cons_iff.1 htodo'
        have hgood := htodo payload List.mem_cons_self
        have hmem := mem_of_prefix_frame hb hne
        by_cases hshort : r.length < sizeHeader
        · rw [readAll, readText, if_neg (not_not_intro hmem), if_pos hshort]
        · obtain ⟨hheader, hrest⟩ := hgood.take_header hb (Nat.not_lt.1 hshort)
          have hcalc := calcPayloadLength_messageHeader hgood.2
          have hlen := congrArg List.length hrest
          have htpos := List.length_pos_of_ne_nil ht
          rw [List.length_append] at hlen
          rw [readAll_long hmem (Nat.not_lt.1 hshort)
            (by rw [hheader, hcalc]; exact hgood.length_ne), readBody, hheader, hcalc,
            if_pos (by omega), ← hheader, List.take_append_drop]
  | cons payload done ih =>
      intro hdone
      have hgood := hdone payload List.mem_cons_self
      have hheader := length_messageHeader hgood.2
      have hcalc := calcPayloadLength_messageHeader hgood.2
      have htext : ((payload :: done).map buildResponse).flatten ++ r =
          messageHeader payload.length ++
            (payload ++ ((done.map buildResponse).flatten ++ r)) := by
        rw [List.map_cons, List.flatten_cons, buildResponse_eq, List.append_assoc,
          List.append_assoc]
      have hmem : endpointChar ∈ messageHeader payload.length := List.mem_cons_self
      rw [htext, readAll_long (List.mem_append_left _ hmem)
        (by rw [List.length_append]; omega)
        (by rw [List.take_left' hheader, hcalc]; exact hgood.length_ne), readBody,
        List.take_left' hheader, List.drop_left' hheader, hcalc,
        if_neg (by rw [List.length_append]; omega), List.take_left, List.drop_left,
        ih fun p hp => hdone p (List.mem_cons_of_mem payload hp)]

/-- Reading on from the beginning of a message is reading both. -/
theorem readOn_frames {done todo : List (List UInt8)} {r text s : List UInt8}
    (hgood : ∀ p ∈ done ++ todo, Framable p)
    (hr : Unfinished ((done ++ todo).map buildResponse) r)
    (htext : r ++ text = (done.map buildResponse).flatten ++ s)
    (hs : Unfinished (todo.map buildResponse) s) :
    readOn r text = (done, s) := by
  have hread := readAll_frames (fun p hp => hgood p (List.mem_append_right done hp)) hs
    fun p hp => hgood p (List.mem_append_left todo hp)
  rw [← htext] at hread
  rw [← hread, readOn]
  by_cases hne : r = []
  · rw [if_pos hne, hne, List.nil_append]
  · rw [if_neg hne]
    obtain ⟨b, rest, t, hblocks, ht, hb⟩ := hr.resolve_left hne
    have hmem : endpointChar ∈ r ++ text := by
      obtain ⟨payload, _, _, rfl, _⟩ := List.map_eq_cons_iff.1 hblocks
      exact List.mem_append_left text (mem_of_prefix_frame hb hne)
    by_cases hshort : (r ++ text).length < sizeHeader
    · rw [if_pos hshort, readAll, readText, if_neg (not_not_intro hmem), if_pos hshort]
    · have hlen := Nat.not_lt.1 hshort
      -- the header is the one of the message that was begun
      have hcalc : calcPayloadLength ((r ++ text).take sizeHeader) ≠ 0 := by
        rw [htext] at hlen ⊢
        obtain ⟨payload, hpayload, hheader⟩ := exists_header hgood hs hlen
        rw [hheader, calcPayloadLength_messageHeader hpayload.2]
        exact hpayload.length_ne
      rw [if_neg hshort, if_neg hcalc, readAll_long hmem hlen hcalc]

theorem Pending.state_eq {r : List UInt8} {m : StateMachine} (h : Pending r m) :
    m.state = .noMsg ↔ r = [] := by
  cases h with
  | between hstate hr => exact iff_of_true hstate hr
  | header hstate _ hne => exact iff_of_false (by rw [hstate]; decide) hne
  | payload hstate hr hheader =>
      refine iff_of_false (by rw [hstate]; decide) fun h => ?_
      rw [(List.append_eq_nil_iff.1 (hr.trans h)).1] at hheader
      exact absurd hheader (by decide)

theorem foldl_take_parsed {json : JsonParse} : ∀ {payloads : List (List UInt8)}
    {e : Effect}, (payloads.foldl (Effect.take json) e).parsed =
      e.parsed ++ payloads := by
  intro payloads
  induction payloads with
  | nil => intro e; exact (List.append_nil _).symm
  | cons payload rest ih =>
      intro e
      rw [List.foldl_cons, ih, Effect.take, List.append_assoc, List.singleton_append]

/-- The chunks of a stream of framed messages give their payloads, in order. -/
theorem processMessage_frames {json : JsonParse} {m : StateMachine}
    {payloads chunks : List (List UInt8)} (hm : m.state = .noMsg)
    (hgood : ∀ p ∈ payloads, p ≠ [] ∧ p.length < 10 ^ 9)
    (hcut : chunks.flatten = (payloads.map buildResponse).flatten) :
    (chunks.foldl (StateMachine.processMessage json) m).parsed = m.parsed ++ payloads ∧
      (chunks.foldl (StateMachine.processMessage json) m).state = .noMsg := by
  have hblocks : ∀ b ∈ payloads.map buildResponse, b ≠ [] := by
    intro b hb
    obtain ⟨payload, _, rfl⟩ := List.mem_map.1 hb
    exact List.cons_ne_nil _ _
  have hrun := @foldl_of_flatten _ _ (fun read m' =>
      ∃ done todo r, payloads = done ++ todo ∧
        read = (done.map buildResponse).flatten ++ r ∧
        Unfinished (todo.map buildResponse) r ∧
        m'.parsed = m.parsed ++ done ∧ Pending r m')
    (StateMachine.processMessage json) chunks _ m
    ⟨[], payloads, [], rfl, rfl, .inl rfl, (List.append_nil _).symm, .between hm rfl⟩
    ?_ hcut
  · obtain ⟨done, todo, r, rfl, hstream, hr, hparsed, hpending⟩ := hrun
    -- all of the stream was read, so nothing is left
    rw [List.map_append, List.flatten_append] at hstream
    have hrest := List.append_cancel_left hstream
    have hnil : r = [] := hr.eq_nil
      ⟨(todo.map buildResponse).length, by rw [List.take_length, hrest]⟩
    subst hnil
    have htodo : todo = [] := by
      cases todo with
      | nil => rfl
      | cons p todo => exact absurd hrest (List.cons_ne_nil _ _)
    rw [htodo, List.append_nil]
    exact ⟨hparsed, hpending.state_eq.2 rfl⟩
  · intro p c t m' _ hprefix ⟨done, todo, r, hpayloads, hp, hr, hparsed, hpending⟩
    subst hpayloads
    rw [hp, List.map_append, List.flatten_append, List.append_assoc,
      List.append_assoc] at hprefix
    have hmore := List.append_cancel_left hprefix
    rw [← List.append_assoc] at hmore
    obtain ⟨mid, rest, s, htodo, hs, hunfinished⟩ := prefix_flatten_cases hmore
    obtain ⟨mids, rests, rfl, rfl, rfl⟩ := List.map_eq_append_iff.1 htodo
    have hread := readOn_frames (fun q hq => hgood q (List.mem_append_right done hq)) hr hs
      hunfinished
    have hspec := @processMessage_spec json m' r c hpending
    rw [hread] at hspec
    refine ⟨done ++ mids, rests, s, (List.append_assoc _ _ _).symm, ?_, hunfinished, ?_,
      hspec.pending⟩
    · rw [hp, List.append_assoc, hs, List.map_append, List.flatten_append,
        List.append_assoc]
    · have hlog := congrArg Effect.parsed hspec.effect
      rw [foldl_take_parsed] at hlog
      exact hlog.trans (by rw [← List.append_assoc, ← hparsed]; rfl)

/-- `#000000001a#000000001#`, cut in the header, the payload being a `#`. -/
theorem processMessage_frames_cut :
    ([[0x23, 0x30, 0x30], [0x30, 0x30, 0x30, 0x30, 0x30, 0x30, 0x31, 0x61, 0x23],
      [0x30, 0x30, 0x30, 0x30, 0x30, 0x30, 0x30, 0x30, 0x31], [0x23]].foldl
        (StateMachine.processMessage fun _ => (true, none)) {}).parsed =
      [[0x61], [0x23]] :=
  (@processMessage_frames (fun _ => (true, none)) {} [[0x61], [0x23]] _ rfl
    (by decide) (by decide)).1

/-! ## The timer -/

/-- What the machine has read of an unfinished message. -/
def unread (m : StateMachine) : List UInt8 :=
  match m.state with
  | .noMsg => []
  | .receivedPartialHeader => m.header
  | .receivedPartialPayload => m.header ++ m.payload

theorem Pending.unread {r : List UInt8} {m : StateMachine} (h : Pending r m) :
    unread m = r := by
  rw [Desktop.unread]
  cases h with
  | between hstate hr => rw [hstate, hr]
  | header hstate hheader => rw [hstate, hheader]
  | payload hstate hr => rw [hstate, hr]

/-- One of the payloads is passed on to `processMessage`. -/
def acceptsAny (json : JsonParse) : MessageHandler → List (List UInt8) → Bool
  | _, [] => false
  | h, payload :: rest =>
      accepts (h.parseMessage json payload) ||
        acceptsAny json (h.parseMessage json payload) rest

theorem foldl_take_timer {json : JsonParse} : ∀ {payloads : List (List UInt8)}
    {e : Effect}, (payloads.foldl (Effect.take json) e).timer =
      (e.timer && !acceptsAny json e.handler payloads) := by
  intro payloads
  induction payloads with
  | nil => intro e; exact (Bool.and_true _).symm
  | cons payload rest ih =>
      intro e
      rw [List.foldl_cons, ih, acceptsAny, Bool.not_or, ← Bool.and_assoc]
      rfl

/-- An unfinished message has a running timer. -/
def Guarded (m : StateMachine) : Prop := m.state ≠ .noMsg → m.timerActive = true

/-- No chunk ends inside a message behind an accepted one. -/
def Single (json : JsonParse) (m : StateMachine) : ParserEvent → Prop
  | .message msg _ => (readOn (unread m) msg).2 ≠ [] →
      acceptsAny json m.messageHandler (readOn (unread m) msg).1 = false
  | _ => True

theorem guarded_processMessage {json : JsonParse} {m : StateMachine}
    {r msg : List UInt8} (h : Pending r m) :
    Guarded (m.processMessage json msg) ↔ ((readOn r msg).2 ≠ [] →
      acceptsAny json m.messageHandler (readOn r msg).1 = false) := by
  have hspec := @processMessage_spec json m r msg h
  have htimer : (m.processMessage json msg).timerActive =
      !acceptsAny json m.messageHandler (readOn r msg).1 :=
    (congrArg Effect.timer hspec.effect).trans
      (foldl_take_timer.trans (Bool.true_and _))
  rw [Guarded, Ne, hspec.pending.state_eq, htimer, Bool.not_eq_true_eq_eq_false]

theorem guarded_step {json : JsonParse} {m : StateMachine} {e : ParserEvent}
    (h : (∃ r, Pending r m) ∧ Guarded m) :
    (Guarded (m.step json e) ↔ Single json m e) ∧
      (Single json m e → (∃ r, Pending r (m.step json e)) ∧ Guarded (m.step json e)) := by
  obtain ⟨⟨r, hr⟩, hguarded⟩ := h
  cases e with
  | message msg nonempty =>
      have hiff : Guarded (m.step json (.message msg nonempty)) ↔
          Single json m (.message msg nonempty) := by
        rw [Single, hr.unread]
        exact guarded_processMessage hr
      exact ⟨hiff, fun hsingle => ⟨⟨_, (processMessage_spec hr).pending⟩, hiff.2 hsingle⟩⟩
  | expiry =>
      have hidle : Guarded (m.step json .expiry) := fun h => absurd rfl h
      exact ⟨iff_of_true hidle trivial, fun _ => ⟨⟨[], .between rfl rfl⟩, hidle⟩⟩
  | handler handler =>
      have hpending : Pending r (m.step json (.handler handler)) := by
        cases hr with
        | between hstate hr => exact .between hstate hr
        | header hstate hheader hne hlen => exact .header hstate hheader hne hlen
        | payload hstate hr hheader hlength hlt =>
            exact .payload hstate hr hheader hlength hlt
      exact ⟨iff_of_true hguarded trivial, fun _ => ⟨⟨r, hpending⟩, hguarded⟩⟩

/-- The timer runs in every unfinished message of a run exactly when no chunk of
it ends inside a message behind an accepted one. -/
theorem guarded_iff {json : JsonParse} {handler : MessageHandler}
    {events : List ParserEvent} :
    EveryStep (fun m e => Guarded (m.step json e)) (StateMachine.step json)
      { messageHandler := handler } events ↔
    EveryStep (Single json) (StateMachine.step json)
      { messageHandler := handler } events :=
  @everyStep_congr _ _ (fun m => (∃ r, Pending r m) ∧ Guarded m) _ _ _
    (fun _ _ h => (guarded_step h).1) (fun _ _ h => (guarded_step h).2) events _
    ⟨⟨[], .between rfl rfl⟩, fun h => absurd rfl h⟩

/-- A parser of the texts `{}` and nothing else. -/
def emptyObject : JsonParse := fun text =>
  if text = [0x7B, 0x7D] then (false, none) else (true, some [0x3F])

/-- `#000000002{}#0` in one chunk. -/
theorem guarded_lost :
    ¬ Guarded (StateMachine.step emptyObject {} (.message
      [0x23, 0x30, 0x30, 0x30, 0x30, 0x30, 0x30, 0x30, 0x30, 0x32, 0x7B, 0x7D, 0x23, 0x30]
      (List.cons_ne_nil _ _))) :=
  fun h => absurd (h (by decide)) (by decide)

end MuditaOS.Desktop
