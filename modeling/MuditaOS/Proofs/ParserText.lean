import MuditaOS.Desktop.ParserFsm

/-!
# What a text holds

The desktop parser without its state: `readAll` splits a text that starts between
two messages into the payloads it completes and the beginning of a message it
leaves, and `readOn` does the same behind such a beginning. The state machine
computes exactly this; its state is the unfinished beginning, spread over the
header, the payload and the length.
-/

namespace MuditaOS.Desktop

open MuditaOS.Lib

/-! ## Texts -/

abbrev Read := List (List UInt8) × List UInt8

/-- The text behind a header. -/
def readBody (next : List UInt8 → Read) (header text : List UInt8) : Read :=
  let n := calcPayloadLength header
  if text.length < n then ([], header ++ text)
  else (text.take n :: (next (text.drop n)).1, (next (text.drop n)).2)

/-- A text from the beginning of a message on. -/
def readText : Nat → List UInt8 → Read
  | 0, _ => ([], [])
  | fuel + 1, text =>
      if endpointChar ∉ text then ([], [])
      else if text.length < sizeHeader then ([], text)
      else if calcPayloadLength (text.take sizeHeader) = 0 then ([], [])
      else readBody (readText fuel) (text.take sizeHeader) (text.drop sizeHeader)

def readAll (text : List UInt8) : Read := readText (text.length + 1) text

/-- A text behind the beginning `r` of a message; a damaged header that was cut
is only skipped, one that was not ends the text. -/
def readOn (r text : List UInt8) : Read :=
  let whole := r ++ text
  if r = [] then readAll text
  else if whole.length < sizeHeader then ([], whole)
  else if calcPayloadLength (whole.take sizeHeader) = 0 then
    readAll (whole.drop sizeHeader)
  else readBody readAll (whole.take sizeHeader) (whole.drop sizeHeader)

theorem readBody_congr {f g : List UInt8 → Read} {header text : List UInt8}
    (h : ∀ s, s.length ≤ text.length → f s = g s) :
    readBody f header text = readBody g header text := by
  have hdrop := h (text.drop (calcPayloadLength header))
    (by rw [List.length_drop]; exact Nat.sub_le _ _)
  rw [readBody, readBody, hdrop]

theorem readText_fuel : ∀ {f g : Nat} {text : List UInt8}, text.length < f →
    text.length < g → readText f text = readText g text := by
  intro f
  induction f with
  | zero => intro g text hf; exact absurd hf (Nat.not_lt_zero _)
  | succ f ih =>
      intro g text hf hg
      obtain ⟨g, rfl⟩ : ∃ k, g = k + 1 := ⟨g - 1, by omega⟩
      rw [readText, readText]
      split
      · rfl
      split
      · rfl
      split
      · rfl
      · next hlong _ =>
          refine readBody_congr fun s hs => ih ?_ ?_
          all_goals
            rw [List.length_drop] at hs
            rw [sizeHeader, sizeLength] at hlong hs
            omega

theorem readAll_eq {fuel : Nat} {text : List UInt8} (h : text.length < fuel) :
    readText fuel text = readAll text :=
  readText_fuel h (Nat.lt_succ_self _)

theorem readAll_nil : readAll [] = ([], []) := by
  rw [readAll, readText, if_pos List.not_mem_nil]

theorem readAll_long {text : List UInt8} (hmem : endpointChar ∈ text)
    (hlen : sizeHeader ≤ text.length)
    (hn : calcPayloadLength (text.take sizeHeader) ≠ 0) :
    readAll text = readBody readAll (text.take sizeHeader) (text.drop sizeHeader) := by
  rw [readAll, readText, if_neg (not_not_intro hmem), if_neg (Nat.not_lt.2 hlen),
    if_neg hn]
  refine readBody_congr fun s hs => readAll_eq ?_
  rw [List.length_drop] at hs
  rw [sizeHeader, sizeLength] at hlen hs
  omega

/-! ## The machine -/

/-- The machine has read the beginning `r` of a message. -/
inductive Pending (r : List UInt8) (m : StateMachine) : Prop
  | between : m.state = .noMsg → r = [] → Pending r m
  | header : m.state = .receivedPartialHeader → m.header = r → r ≠ [] →
      r.length < sizeHeader → Pending r m
  | payload : m.state = .receivedPartialPayload → m.header ++ m.payload = r →
      m.header.length = sizeHeader → m.payloadLength = calcPayloadLength m.header →
      m.payload.length < m.payloadLength → Pending r m

/-- What a payload changes: the handler, the log and the timer. -/
structure Effect where
  handler : MessageHandler
  parsed : List (List UInt8)
  timer : Bool

def StateMachine.effect (m : StateMachine) : Effect :=
  ⟨m.messageHandler, m.parsed, m.timerActive⟩

/-- The payload is passed on to `processMessage`. -/
def accepts (h : MessageHandler) : Bool := h.isValid && !h.isJSONNull

def Effect.take (json : JsonParse) (e : Effect) (payload : List UInt8) : Effect :=
  let h := e.handler.parseMessage json payload
  ⟨h, e.parsed ++ [payload], e.timer && !accepts h⟩

theorem Effect.take_refused {json : JsonParse} {e : Effect} {payload : List UInt8}
    (h : accepts (e.handler.parseMessage json payload) = false) :
    e.take json payload =
      ⟨e.handler.parseMessage json payload, e.parsed ++ [payload], e.timer⟩ := by
  rw [Effect.take, h, Bool.not_false, Bool.and_true]

theorem Effect.take_accepted {json : JsonParse} {e : Effect} {payload : List UInt8}
    (h : accepts (e.handler.parseMessage json payload) = true) :
    e.take json payload =
      ⟨e.handler.parseMessage json payload, e.parsed ++ [payload], false⟩ := by
  rw [Effect.take, h, Bool.not_true, Bool.and_false]

/-- The machine behind a text that reads as `out`, where `e` held before. -/
structure Reads (json : JsonParse) (e : Effect) (m : StateMachine) (out : Read) :
    Prop where
  pending : Pending out.2 m
  effect : m.effect = out.1.foldl (Effect.take json) e

section

variable {json : JsonParse} {m : StateMachine}

theorem parsePayload_spec (hne : m.payload ≠ []) :
    (m.parsePayload json).state = .noMsg ∧
      (m.parsePayload json).effect = m.effect.take json m.payload := by
  rw [StateMachine.parsePayload, if_neg hne]
  simp only []
  split
  · next h =>
      have hrefused :
          accepts (m.effect.handler.parseMessage json m.payload) = false := by
        rw [accepts, Bool.and_eq_false_iff, Bool.not_eq_false_eq_eq_true,
          ← Bool.not_eq_true]
        exact h
      exact ⟨rfl, (Effect.take_refused hrefused).symm⟩
  · next h =>
      have haccepted :
          accepts (m.effect.handler.parseMessage json m.payload) = true := by
        rw [not_or, not_not, Bool.not_eq_true] at h
        rw [accepts, Bool.and_eq_true, Bool.not_eq_true_eq_eq_false]
        exact h
      exact ⟨rfl, (Effect.take_accepted haccepted).symm⟩

theorem extractPayload_eq {text : List UInt8} {n : Nat} :
    extractPayload text n = text.take n := by
  rw [extractPayload, substr]
  split
  · rfl
  · next h => rw [List.take_of_length_le (Nat.not_lt.1 h)]

/-- A payload never touches the text nor the length. -/
theorem parsePayload_frame :
    (m.parsePayload json).receivedMsg = m.receivedMsg ∧
      (m.parsePayload json).payloadLength = m.payloadLength := by
  rw [StateMachine.parsePayload]
  split
  · exact ⟨rfl, rfl⟩
  · simp only []
    split
    · exact ⟨rfl, rfl⟩
    · exact ⟨rfl, rfl⟩

/-- What follows a payload: the text behind it, if there is any. -/
theorem finish_spec {f : StateMachine → StateMachine} {m' : StateMachine}
    {payload : List UInt8} {k : Nat} {next : List UInt8 → Read}
    (hnil : next [] = ([], [])) (hstate : m'.state = .noMsg)
    (heffect : m'.effect = m.effect.take json payload)
    (hf : ∀ m'' : StateMachine, m''.state = .noMsg →
      m''.receivedMsg = m'.receivedMsg.drop k →
      Reads json m''.effect (f m'') (next m''.receivedMsg)) :
    Reads json m.effect
      (if m'.receivedMsg.length > k then
        f { m' with receivedMsg := eraseFront m'.receivedMsg k } else m')
      (payload :: (next (m'.receivedMsg.drop k)).1,
        (next (m'.receivedMsg.drop k)).2) := by
  split
  · have hrest := hf { m' with receivedMsg := eraseFront m'.receivedMsg k } hstate rfl
    refine ⟨hrest.pending, hrest.effect.trans ?_⟩
    exact congrArg (fun e => List.foldl (Effect.take json) e _) heffect
  · next hend =>
      rw [List.drop_eq_nil_of_le (Nat.not_lt.1 hend), hnil]
      exact ⟨.between hstate rfl, heffect⟩

theorem parseNewMessage_spec {f : StateMachine → StateMachine}
    {next : List UInt8 → Read} (hnil : next [] = ([], []))
    (hheader : m.header.length = sizeHeader)
    (hlength : m.payloadLength = calcPayloadLength m.header)
    (hne : m.payloadLength ≠ 0)
    (hf : ∀ m' : StateMachine, m'.state = .noMsg →
      m'.receivedMsg = m.receivedMsg.drop m.payloadLength →
      Reads json m'.effect (f m') (next m'.receivedMsg)) :
    Reads json m.effect (m.parseNewMessage json f)
      (readBody next m.header m.receivedMsg) := by
  rw [StateMachine.parseNewMessage, readBody, ← hlength]
  by_cases hwhole : m.receivedMsg.length ≥ m.payloadLength
  · have hpayload : m.receivedMsg.take m.payloadLength ≠ [] := by
      rw [Ne, ← List.length_eq_zero_iff, List.length_take]
      omega
    rw [if_pos hwhole, if_neg (Nat.not_lt.2 hwhole), extractPayload_eq]
    obtain ⟨hstate, heffect⟩ := @parsePayload_spec json
      { m with payload := m.receivedMsg.take m.payloadLength } hpayload
    obtain ⟨hreceived, hsame⟩ := @parsePayload_frame json
      { m with payload := m.receivedMsg.take m.payloadLength }
    generalize StateMachine.parsePayload json
      { m with payload := m.receivedMsg.take m.payloadLength } = m' at *
    have hdrop : m.receivedMsg.drop m.payloadLength =
        m'.receivedMsg.drop m'.payloadLength := by rw [hreceived, hsame]
    rw [hdrop] at hf ⊢
    exact finish_spec hnil hstate heffect hf
  · rw [if_neg hwhole, if_pos (Nat.not_le.1 hwhole)]
    exact ⟨.payload rfl rfl hheader hlength (Nat.not_le.1 hwhole), rfl⟩

/-- A length of zero behind a header that was cut: the header is skipped. -/
theorem parseNewMessage_zero {f : StateMachine → StateMachine}
    {next : List UInt8 → Read} (hnil : next [] = ([], []))
    (hzero : m.payloadLength = 0)
    (hf : ∀ m' : StateMachine, m'.state = .noMsg → m'.receivedMsg = m.receivedMsg →
      Reads json m'.effect (f m') (next m'.receivedMsg)) :
    Reads json m.effect (m.parseNewMessage json f) (next m.receivedMsg) := by
  rw [StateMachine.parseNewMessage, hzero, if_pos (Nat.zero_le _), extractPayload_eq,
    List.take_zero, StateMachine.parsePayload, if_pos rfl]
  simp only []
  split
  · exact hf { m with payload := [], state := .noMsg, payloadLength := 0 } rfl rfl
  · next hend =>
      have hempty : m.receivedMsg = [] :=
        List.eq_nil_of_length_eq_zero (Nat.le_zero.1 (Nat.not_lt.1 hend))
      rw [hempty, hnil]
      exact ⟨.between rfl rfl, rfl⟩

theorem parseHeader_spec : ∀ {fuel : Nat} {m : StateMachine},
    m.receivedMsg.length < fuel → m.state = .noMsg →
    Reads json m.effect (m.parseHeader json fuel) (readAll m.receivedMsg) := by
  intro fuel
  induction fuel with
  | zero => intro m hfuel; exact absurd hfuel (Nat.not_lt_zero _)
  | succ fuel ih =>
      intro m hfuel hstate
      rw [StateMachine.parseHeader]
      simp only []
      by_cases hmem : endpointChar ∈ m.receivedMsg
      · rw [if_neg (not_not_intro hmem)]
        by_cases hshort : m.receivedMsg.length < sizeHeader
        · have hread : readAll m.receivedMsg = ([], m.receivedMsg) := by
            rw [readAll, readText, if_neg (not_not_intro hmem), if_pos hshort]
          rw [if_pos hshort, hread]
          exact ⟨.header rfl rfl (List.ne_nil_of_mem hmem) hshort, rfl⟩
        · have hlen : sizeHeader ≤ m.receivedMsg.length := Nat.not_lt.1 hshort
          have hheader : getHeader m.receivedMsg = m.receivedMsg.take sizeHeader := rfl
          rw [if_neg hshort]
          by_cases hzero : calcPayloadLength (m.receivedMsg.take sizeHeader) = 0
          · have hread : readAll m.receivedMsg = ([], []) := by
              rw [readAll, readText, if_neg (not_not_intro hmem), if_neg hshort,
                if_pos hzero]
            rw [hheader, if_pos hzero, hread]
            exact ⟨.between rfl rfl, rfl⟩
          · rw [hheader, if_neg hzero, readAll_long hmem hlen hzero]
            refine @parseNewMessage_spec json { m with
                payload := []
                header := m.receivedMsg.take sizeHeader
                payloadLength := calcPayloadLength (m.receivedMsg.take sizeHeader)
                receivedMsg := removeHeader m.receivedMsg }
              _ readAll readAll_nil ?_ rfl hzero fun m' hm' hrest => ih ?_ hm'
            · exact List.length_take_of_le hlen
            · rw [hrest]
              simp only [removeHeader, List.length_drop]
              rw [sizeHeader, sizeLength] at hlen ⊢
              omega
      · have hread : readAll m.receivedMsg = ([], []) := by
          rw [readAll, readText, if_pos hmem]
        rw [if_pos hmem, hread]
        exact ⟨.between hstate rfl, rfl⟩

theorem parsePartialHeader_spec (hne : m.header ≠ [])
    (hlen : m.header.length < sizeHeader)
    (hstate : m.state = .receivedPartialHeader) :
    Reads json m.effect (m.parsePartialHeader json) (readOn m.header m.receivedMsg) := by
  have htake : (m.header ++ m.receivedMsg).take sizeHeader =
      m.header ++ m.receivedMsg.take (sizeHeader - m.header.length) := by
    rw [List.take_append, List.take_of_length_le (Nat.le_of_lt hlen)]
  have hdrop : (m.header ++ m.receivedMsg).drop sizeHeader =
      m.receivedMsg.drop (sizeHeader - m.header.length) := by
    rw [List.drop_append, List.drop_eq_nil_of_le (Nat.le_of_lt hlen), List.nil_append]
  rw [StateMachine.parsePartialHeader, readOn, if_neg hne, htake, hdrop,
    List.length_append]
  simp only []
  by_cases hfull : m.receivedMsg.length ≥ sizeHeader - m.header.length
  · rw [if_pos hfull, if_neg (by omega)]
    by_cases hzero : calcPayloadLength
        (m.header ++ m.receivedMsg.take (sizeHeader - m.header.length)) = 0
    · rw [if_pos hzero]
      exact @parseNewMessage_zero json { m with
          header := m.header ++ m.receivedMsg.take (sizeHeader - m.header.length)
          payloadLength := calcPayloadLength
            (m.header ++ m.receivedMsg.take (sizeHeader - m.header.length))
          receivedMsg := m.receivedMsg.drop (sizeHeader - m.header.length) }
        _ readAll readAll_nil hzero fun m' hm' hrest =>
          parseHeader_spec (by rw [hrest]; exact Nat.lt_succ_self _) hm'
    · rw [if_neg hzero]
      refine @parseNewMessage_spec json { m with
          header := m.header ++ m.receivedMsg.take (sizeHeader - m.header.length)
          payloadLength := calcPayloadLength
            (m.header ++ m.receivedMsg.take (sizeHeader - m.header.length))
          receivedMsg := m.receivedMsg.drop (sizeHeader - m.header.length) }
        _ readAll readAll_nil ?_ rfl hzero fun m' hm' hrest => parseHeader_spec ?_ hm'
      · rw [List.length_append, List.length_take]
        omega
      · rw [hrest, List.length_drop]
        exact Nat.lt_succ_of_le (Nat.sub_le _ _)
  · rw [if_neg hfull, if_pos (by omega)]
    refine ⟨.header hstate rfl ?_ ?_, rfl⟩
    · exact fun h => hne (List.append_eq_nil_iff.1 h).1
    · rw [List.length_append]
      omega

theorem parsePartialMessage_spec (hstate : m.state = .receivedPartialPayload)
    (hheader : m.header.length = sizeHeader)
    (hlength : m.payloadLength = calcPayloadLength m.header)
    (hlt : m.payload.length < m.payloadLength) :
    Reads json m.effect (m.parsePartialMessage json)
      (readOn (m.header ++ m.payload) m.receivedMsg) := by
  have htake : (m.header ++ m.payload ++ m.receivedMsg).take sizeHeader = m.header := by
    rw [List.append_assoc, List.take_left' hheader]
  have hdrop : (m.header ++ m.payload ++ m.receivedMsg).drop sizeHeader =
      m.payload ++ m.receivedMsg := by
    rw [List.append_assoc, List.drop_left' hheader]
  have hne : m.header ++ m.payload ≠ [] := fun h => by
    rw [(List.append_eq_nil_iff.1 h).1] at hheader
    exact absurd hheader (by decide)
  have hshort : ¬ (m.header ++ m.payload ++ m.receivedMsg).length < sizeHeader := by
    rw [List.length_append, List.length_append]
    omega
  rw [readOn, if_neg hne, if_neg hshort, htake, hdrop, if_neg (by omega),
    StateMachine.parsePartialMessage, readBody, ← hlength, List.length_append]
  simp only []
  by_cases hfull : m.receivedMsg.length ≥ m.payloadLength - m.payload.length
  · have hpayload : m.payload ++
        m.receivedMsg.take (m.payloadLength - m.payload.length) ≠ [] := by
      rw [Ne, ← List.length_eq_zero_iff, List.length_append, List.length_take]
      omega
    have hwhole : ¬ m.payload.length + m.receivedMsg.length < m.payloadLength := by
      omega
    rw [if_pos hfull, if_neg hwhole, extractPayload_eq, List.take_append,
      List.take_of_length_le (Nat.le_of_lt hlt), List.drop_append,
      List.drop_eq_nil_of_le (Nat.le_of_lt hlt), List.nil_append]
    obtain ⟨hend, heffect⟩ := @parsePayload_spec json
      { m with payload := m.payload ++
          m.receivedMsg.take (m.payloadLength - m.payload.length) } hpayload
    obtain ⟨hreceived, _⟩ := @parsePayload_frame json
      { m with payload := m.payload ++
          m.receivedMsg.take (m.payloadLength - m.payload.length) }
    generalize StateMachine.parsePayload json
      { m with payload := m.payload ++
          m.receivedMsg.take (m.payloadLength - m.payload.length) } = m' at *
    have hfinish := @finish_spec json m
      (fun m'' => m''.parseHeader json (m''.receivedMsg.length + 1)) m' _
      (m.payloadLength - m.payload.length) readAll readAll_nil hend heffect
      fun m'' hm'' _ => parseHeader_spec (Nat.lt_succ_self _) hm''
    rw [hreceived] at hfinish ⊢
    exact hfinish
  · rw [if_neg hfull, if_pos (by omega)]
    have hmore : (m.payload ++ m.receivedMsg).length < m.payloadLength := by
      rw [List.length_append]
      omega
    exact ⟨.payload hstate rfl hheader hlength hmore, rfl⟩

/-- A received text, behind what was read before. -/
theorem processMessage_spec {r msg : List UInt8} (h : Pending r m) :
    Reads json { m.effect with timer := true } (m.processMessage json msg)
      (readOn r msg) := by
  rw [StateMachine.processMessage]
  simp only []
  cases h with
  | between hstate hr =>
      split
      · rw [readOn, if_pos hr]
        exact @parseHeader_spec json (msg.length + 1)
          { m with receivedMsg := msg, timerActive := true } (Nat.lt_succ_self _) hstate
      · next h => exact absurd (hstate.symm.trans h) (by decide)
      · next h => exact absurd (hstate.symm.trans h) (by decide)
  | header hstate hheader hne hlen =>
      subst hheader
      split
      · next h => exact absurd (hstate.symm.trans h) (by decide)
      · exact @parsePartialHeader_spec json
          { m with receivedMsg := msg, timerActive := true } hne hlen hstate
      · next h => exact absurd (hstate.symm.trans h) (by decide)
  | payload hstate hr hheader hlength hlt =>
      split
      · next h => exact absurd (hstate.symm.trans h) (by decide)
      · next h => exact absurd (hstate.symm.trans h) (by decide)
      · rw [← hr]
        exact @parsePartialMessage_spec json
          { m with receivedMsg := msg, timerActive := true } hstate hheader hlength hlt

end

end MuditaOS.Desktop
