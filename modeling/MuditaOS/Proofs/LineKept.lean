import MuditaOS.Log.LineBuffer

/-!
# When a log line stays in its buffer

A part of the header is cut where the buffer ends, and the message two bytes before that.
So the message leaves room for the line end if the header does. A header that leaves less
than two bytes makes the subtraction wrap, or the assertion fail.
-/

namespace MuditaOS.Log

/-- The assertion holds, what is written is in the buffer, the subtraction does not wrap. -/
def LineEvent.Fine : LineEvent → Prop
  | .sizeLeft left => left ≠ 0
  | .write pos count => pos < lineBufferSize ∧ pos.toNat + count ≤ lineBufferSize.toNat
  | .room left => lineTerminationLength ≤ left

instance : DecidablePred LineEvent.Fine
  | .sizeLeft _ => inferInstanceAs (Decidable (_ ≠ _))
  | .write _ _ => inferInstanceAs (Decidable (_ ∧ _))
  | .room _ => inferInstanceAs (Decidable (_ ≤ _))

/-- The line never leaves the buffer, and what is stored ends with a line end. -/
structure LineKept (logged : Int × Option (List UInt8) × Line) : Prop where
  fine : ∀ event ∈ logged.2.2.events, event.Fine
  newline : ∀ text, logged.2.1 = some text → text.getLast? = some newline

namespace Line

variable {line : Line} {text : List UInt8} {message : Option (List UInt8)} {n : Nat}
  {event : LineEvent} {size count : UInt32}

def Fine (line : Line) : Prop := ∀ event ∈ line.events, event.Fine

/-- The number of characters that a text comes to, none if it cannot be formatted. -/
def textLength (text : List UInt8) : Nat := (formattedLength (some text)).toNat

/-- The position behind the header. -/
def headerLength (context : LogContext) (level : LoggerLevel) (file : List UInt8) (line : Int)
    (function : List UInt8) : Nat :=
  textLength (timeText context.milliseconds) +
    textLength (callerText context level file line function)

/-! ## Sizes -/

theorem toNat_ofInt (h : n < 2 ^ 32) : (UInt32.ofInt n).toNat = n := by
  have hmod : ((n : Int) % 2 ^ 32).toNat = n := by omega
  rw [UInt32.ofInt, hmod, UInt32.toNat_ofNat', Nat.mod_eq_of_lt h]

theorem toNat_min {a b : UInt32} : (min a b).toNat = min a.toNat b.toNat := by
  have hmin : min a b = if a ≤ b then a else b := rfl
  rw [hmin]
  split
  · next hle => exact (Nat.min_eq_left (UInt32.le_iff_toNat_le.1 hle)).symm
  · next hle =>
      rw [UInt32.le_iff_toNat_le] at hle
      exact (Nat.min_eq_right (Nat.le_of_not_le hle)).symm

theorem formattedLength_cases :
    formattedLength message = -1 ∨ ∃ n : Nat, n < 2 ^ 31 ∧ formattedLength message = n := by
  cases message with
  | none => exact .inl rfl
  | some text =>
      rw [formattedLength]
      split
      · next hlt => exact .inr ⟨_, hlt, rfl⟩
      · exact .inl rfl

theorem toNat_sizeLeft (h : line.lineBufferCurrentPos.toNat ≤ 2048) :
    (lineBufferSize - line.lineBufferCurrentPos).toNat =
      2048 - line.lineBufferCurrentPos.toNat :=
  UInt32.toNat_sub_of_le _ _ (UInt32.le_iff_toNat_le.2 h)

theorem toNat_advance (h : line.lineBufferCurrentPos.toNat + count.toNat < 2 ^ 32) :
    (line.advance count).lineBufferCurrentPos.toNat =
      line.lineBufferCurrentPos.toNat + count.toNat := by
  rw [advance, UInt32.toNat_add, Nat.mod_eq_of_lt h]

/-! ## Events -/

theorem fine_note : (line.note event).Fine ↔ line.Fine ∧ event.Fine := by
  rw [Fine, note, List.forall_mem_append, List.forall_mem_singleton, Fine]

theorem fine_advance : (line.advance count).Fine ↔ line.Fine := Iff.rfl

theorem fine_sizeLeft (h : line.lineBufferCurrentPos.toNat ≤ 2048) :
    line.lineBufferSizeLeft.2.Fine ↔ line.Fine ∧ line.lineBufferCurrentPos.toNat < 2048 := by
  rw [lineBufferSizeLeft, fine_note, LineEvent.Fine, ne_eq, ← UInt32.toNat_inj,
    toNat_sizeLeft h]
  refine and_congr_right fun _ => ?_
  change ¬ 2048 - line.lineBufferCurrentPos.toNat = 0 ↔ _
  omega

/-- What is written with the size that is left is in the buffer. -/
theorem fine_snprintf (h : line.lineBufferCurrentPos.toNat < 2048)
    (hsize : size.toNat = 2048 - line.lineBufferCurrentPos.toNat) :
    (line.snprintf size message).2.Fine ↔ line.Fine := by
  rw [Fine, snprintf, List.forall_mem_append, List.forall_mem_singleton, Fine]
  refine and_iff_left ⟨UInt32.lt_iff_toNat_lt.2 h, ?_⟩
  have hne : size ≠ 0 := by
    rintro rfl
    change 0 = _ at hsize
    omega
  rw [if_neg hne, List.length_append, List.length_take, List.length_singleton, hsize]
  change _ ≤ 2048
  omega

/-- The text that is asked to fit into what is left of the buffer. -/
theorem fine_printed (h : line.lineBufferCurrentPos.toNat ≤ 2048) :
    (line.lineBufferSizeLeft.2.snprintf line.lineBufferSizeLeft.1 message).2.Fine ↔
      line.Fine ∧ line.lineBufferCurrentPos.toNat < 2048 := by
  rw [← fine_sizeLeft h]
  constructor
  · exact fun hfine event hin => hfine event (List.mem_append_left _ hin)
  · intro hfine
    have hroom := ((fine_sizeLeft h).1 hfine).2
    have hwrite : (line.lineBufferSizeLeft.2.snprintf line.lineBufferSizeLeft.1
        message).2.Fine ↔ line.lineBufferSizeLeft.2.Fine :=
      fine_snprintf hroom (toNat_sizeLeft h)
    exact hwrite.2 hfine

/-! ## The parts of a line -/

theorem addPart_eq : line.addPart text =
    if 0 ≤ formattedLength (some text) then
      (line.lineBufferSizeLeft.2.snprintf line.lineBufferSizeLeft.1 (some text)).2.advance
        (min line.lineBufferSizeLeft.1 (.ofInt (formattedLength (some text))))
    else (line.lineBufferSizeLeft.2.snprintf line.lineBufferSizeLeft.1 (some text)).2 := rfl

/-- A part of the header is cut where the buffer ends. -/
theorem pos_addPart (h : line.lineBufferCurrentPos.toNat ≤ 2048) :
    (line.addPart text).lineBufferCurrentPos.toNat =
      min 2048 (line.lineBufferCurrentPos.toNat + textLength text) := by
  have hleft := toNat_sizeLeft h
  have hsize : line.lineBufferSizeLeft.1 = lineBufferSize - line.lineBufferCurrentPos := rfl
  have hpos : (line.lineBufferSizeLeft.2.snprintf line.lineBufferSizeLeft.1
      (some text)).2.lineBufferCurrentPos = line.lineBufferCurrentPos := rfl
  rw [addPart_eq, textLength]
  rcases @formattedLength_cases (some text) with hneg | ⟨n, hn, hlen⟩
  · rw [hneg, if_neg (by decide), hpos]
    change _ = min 2048 (_ + 0)
    omega
  · have hcount : (min line.lineBufferSizeLeft.1 (.ofInt n)).toNat =
        min (2048 - line.lineBufferCurrentPos.toNat) n := by
      rw [toNat_min, hsize, hleft, toNat_ofInt (by omega)]
    rw [hlen, if_pos (Int.natCast_nonneg n), toNat_advance (by rw [hcount, hpos]; omega), hcount,
      hpos, Int.toNat_natCast]
    omega

theorem fine_addPart (h : line.lineBufferCurrentPos.toNat ≤ 2048) :
    (line.addPart text).Fine ↔ line.Fine ∧ line.lineBufferCurrentPos.toNat < 2048 := by
  rw [← @fine_printed line (some text) h, addPart_eq]
  split
  · exact fine_advance
  · exact Iff.rfl

/-- The message as far as there is room for it, and for the line end. -/
def ended (line : Line) (message : Option (List UInt8)) : Line :=
  ((line.lineBufferSizeLeft.2.snprintf line.lineBufferSizeLeft.1 message).2.note
    (.room line.lineBufferSizeLeft.1)).advance
      (min (line.lineBufferSizeLeft.1 - lineTerminationLength)
        (.ofInt (formattedLength message)))

theorem writeLog_failed (h : formattedLength message < 0) :
    line.writeLog message = (-1, none,
      (line.lineBufferSizeLeft.2.snprintf line.lineBufferSizeLeft.1 message).2) :=
  if_neg (not_le.2 h)

/-- The position of the line end: it is where the message ends, if that is cut. -/
theorem pos_ended (h : line.lineBufferCurrentPos.toNat ≤ 2046)
    (hlen : formattedLength message = n) (hn : n < 2 ^ 31) :
    (line.ended message).lineBufferCurrentPos.toNat =
      min 2046 (line.lineBufferCurrentPos.toNat + n) := by
  have hleft := @toNat_sizeLeft line (by omega)
  have hroom : (lineBufferSize - line.lineBufferCurrentPos - lineTerminationLength).toNat =
      2046 - line.lineBufferCurrentPos.toNat := by
    have htwo : lineTerminationLength.toNat = 2 := rfl
    rw [UInt32.toNat_sub_of_le _ _ (UInt32.le_iff_toNat_le.2 (by omega)), hleft, htwo]
    omega
  have hcount : (min (lineBufferSize - line.lineBufferCurrentPos - lineTerminationLength)
      (.ofInt (formattedLength message))).toNat =
      min (2046 - line.lineBufferCurrentPos.toNat) n := by
    rw [toNat_min, hroom, hlen, toNat_ofInt (by omega)]
  have hpos : ((line.lineBufferSizeLeft.2.snprintf line.lineBufferSizeLeft.1 message).2.note
      (.room line.lineBufferSizeLeft.1)).lineBufferCurrentPos = line.lineBufferCurrentPos := rfl
  have hsize : line.lineBufferSizeLeft.1 = lineBufferSize - line.lineBufferCurrentPos := rfl
  rw [ended, hsize, toNat_advance (by rw [hcount, ← hsize, hpos]; omega), hcount, ← hsize, hpos]
  omega

/-- The line end is put behind the message. -/
def terminated (line : Line) : Line :=
  (line.lineBufferSizeLeft.2.snprintf line.lineBufferSizeLeft.1 (some [newline])).2.advance 1

theorem writeLog_formatted (h : 0 ≤ formattedLength message) :
    line.writeLog message =
      (((line.ended message).terminated.lineBufferCurrentPos.toNat : Int),
        some ((List.range (line.ended message).terminated.lineBufferCurrentPos.toNat).map
          (line.ended message).terminated.lineBuffer),
        (line.ended message).terminated) :=
  if_pos h

theorem fine_ended (h : line.lineBufferCurrentPos.toNat ≤ 2048) :
    (line.ended message).Fine ↔ line.Fine ∧ line.lineBufferCurrentPos.toNat ≤ 2046 := by
  have hleft := toNat_sizeLeft h
  -- the room for the line end is taken from what was left before the message
  have hroom : (LineEvent.room line.lineBufferSizeLeft.1).Fine ↔
      2 ≤ 2048 - line.lineBufferCurrentPos.toNat := by
    rw [LineEvent.Fine, UInt32.le_iff_toNat_le, ← hleft]
    rfl
  rw [ended, fine_advance, fine_note, fine_printed h, hroom, and_assoc]
  refine and_congr_right fun _ => ?_
  omega

theorem fine_terminated (h : line.lineBufferCurrentPos.toNat ≤ 2048) :
    line.terminated.Fine ↔ line.Fine ∧ line.lineBufferCurrentPos.toNat < 2048 := by
  rw [terminated, fine_advance, fine_printed h]

/-- The last character of a line that is ended in time. -/
theorem getLast?_terminated (h : line.lineBufferCurrentPos.toNat ≤ 2046) :
    ((List.range line.terminated.lineBufferCurrentPos.toNat).map
      line.terminated.lineBuffer).getLast? = some newline := by
  have hleft := @toNat_sizeLeft line (by omega)
  have hpos : line.terminated.lineBufferCurrentPos.toNat =
      line.lineBufferCurrentPos.toNat + 1 := by
    rw [terminated, toNat_advance]
    · rfl
    · change line.lineBufferCurrentPos.toNat + 1 < _
      omega
  have hne : lineBufferSize - line.lineBufferCurrentPos ≠ 0 := by
    intro hzero
    rw [hzero] at hleft
    change 0 = _ at hleft
    omega
  have hone : 1 ≤ (lineBufferSize - line.lineBufferCurrentPos).toNat - 1 := by omega
  rw [hpos, List.range_succ, List.map_append, List.map_singleton, List.getLast?_concat]
  have hsize : line.lineBufferSizeLeft.1 = lineBufferSize - line.lineBufferCurrentPos := rfl
  have hsame : line.lineBufferSizeLeft.2.lineBufferCurrentPos = line.lineBufferCurrentPos := rfl
  rw [terminated, advance, snprintf, hsize, hsame, if_neg hne]
  dsimp only
  rw [if_neg (Nat.lt_irrefl _), Nat.sub_self, Option.getD_some, List.take_of_length_le]
  · rfl
  · exact hone

/-- A line is kept if the header leaves room for the line end, or leaves something and the
message is not formatted. -/
theorem lineKept_writeLog (h : line.lineBufferCurrentPos.toNat ≤ 2048) :
    LineKept (line.writeLog message) ↔ line.Fine ∧ (line.lineBufferCurrentPos.toNat ≤ 2046 ∨
      line.lineBufferCurrentPos.toNat = 2047 ∧ formattedLength message < 0) := by
  rcases @formattedLength_cases message with hneg | ⟨n, hn, hlen⟩
  · have hfailed : formattedLength message < 0 := by
      rw [hneg]
      decide
    rw [writeLog_failed hfailed, and_iff_left hfailed]
    constructor
    · intro hkept
      obtain ⟨hfine, hroom⟩ := (fine_printed h).1 hkept.fine
      exact ⟨hfine, by omega⟩
    · intro ⟨hfine, hroom⟩
      exact ⟨(fine_printed h).2 ⟨hfine, by omega⟩, fun text htext => absurd htext (by simp)⟩
  · have hformatted : ¬ formattedLength message < 0 := by
      rw [hlen]
      exact not_lt.2 (Int.natCast_nonneg n)
    rw [writeLog_formatted (not_lt.1 hformatted), or_iff_left fun hand => hformatted hand.2]
    constructor
    · intro hkept
      have hended : (line.ended message).Fine := fun event hin =>
        hkept.fine event (List.mem_append_left _ (List.mem_append_left _ hin))
      exact (fine_ended h).1 hended
    · intro hroom
      have hpos := pos_ended hroom.2 hlen hn
      refine ⟨(fine_terminated (by omega)).2 ⟨(fine_ended h).2 hroom, by omega⟩, ?_⟩
      intro text htext
      obtain rfl := Option.some.inj htext
      exact getLast?_terminated (by omega)

/-! ## Whole lines -/

theorem fine_restart {lineBuffer : Nat → UInt8} : (restart lineBuffer).Fine :=
  fun _ hin => absurd hin List.not_mem_nil

/-- A header keeps within the buffer as long as it is shorter. -/
theorem header_spec {lineBuffer : Nat → UInt8} {context : LogContext} {level : LoggerLevel}
    {file function : List UInt8} {lineNumber : Int} :
    ((restart lineBuffer).addLogHeader context level file lineNumber
        function).lineBufferCurrentPos.toNat =
      min 2048 (headerLength context level file lineNumber function) ∧
    (((restart lineBuffer).addLogHeader context level file lineNumber function).Fine ↔
      textLength (timeText context.milliseconds) < 2048) := by
  have hstart : (restart lineBuffer).lineBufferCurrentPos.toNat = 0 := rfl
  have htime := @pos_addPart (restart lineBuffer) (timeText context.milliseconds) (by omega)
  rw [hstart, Nat.zero_add] at htime
  have hle : ((restart lineBuffer).addPart
      (timeText context.milliseconds)).lineBufferCurrentPos.toNat ≤ 2048 := by omega
  rw [addLogHeader, pos_addPart hle, fine_addPart hle, fine_addPart (by omega), htime,
    headerLength]
  refine ⟨by omega, ?_⟩
  rw [and_iff_right ⟨fine_restart, by omega⟩]
  omega

end Line

/-- A line for a level is kept exactly if it is filtered out, or its header leaves room for
the line end, or for the zero alone and the message is not formatted; one for a device is
always kept. -/
theorem log_kept_iff {lineBuffer : Nat → UInt8} {context : LogContext} {level : LoggerLevel}
    {file function : List UInt8} {line : Int} {message : Option (List UInt8)} :
    (LineKept (logLevel lineBuffer context level file line function message) ↔
      filterLogs context level = false ∨
        Line.headerLength context level file line function ≤ 2046 ∨
        Line.headerLength context level file line function = 2047 ∧
          Line.formattedLength message < 0) ∧
    LineKept (logDevice lineBuffer message) := by
  constructor
  · cases hfilter : filterLogs context level with
    | false =>
        rw [logLevel, hfilter, Bool.not_false, if_pos rfl]
        refine iff_of_true ⟨Line.fine_restart, fun text htext => ?_⟩ (.inl rfl)
        exact absurd htext (by simp)
    | true =>
        obtain ⟨hpos, hfine⟩ := @Line.header_spec lineBuffer context level file function line
        rw [logLevel, hfilter, Bool.not_true, if_neg Bool.false_ne_true,
          or_iff_right (by simp), Line.lineKept_writeLog (by omega), hpos, hfine]
        have hlen : Line.textLength (Line.timeText context.milliseconds) ≤
            Line.headerLength context level file line function := Nat.le_add_right _ _
        constructor
        · rintro ⟨-, hroom | ⟨hlast, hfailed⟩⟩
          · exact .inl (by omega)
          · exact .inr ⟨by omega, hfailed⟩
        · rintro (hroom | ⟨hlast, hfailed⟩)
          · exact ⟨by omega, .inl (by omega)⟩
          · exact ⟨by omega, .inr ⟨by omega, hfailed⟩⟩
  · exact (Line.lineKept_writeLog (Nat.zero_le _)).2 ⟨Line.fine_restart, .inl (Nat.zero_le _)⟩

/-- The task `t`, without colours. -/
def plainContext : LogContext := ⟨logColorsOff, false, [0x74], 0⟩

/-- The name of a function as long as the buffer. -/
theorem header_fills_buffer :
    ¬ LineKept (logLevel (fun _ => 0) plainContext .logFatal [0x66] 1
      (List.replicate 2048 0x61) (some [])) := by
  have hfilter : filterLogs plainContext .logFatal = true := by
    rw [filterLogs, decide_eq_true_iff]
    cases getLogLevel plainContext <;> decide
  have hlen : (Line.callerText plainContext .logFatal [0x66] 1
      (List.replicate 2048 0x61)).length = 2064 := by
    simp only [Line.callerText, List.length_append, List.length_replicate]
    rfl
  have hheader : 2048 ≤ Line.headerLength plainContext .logFatal [0x66] 1
      (List.replicate 2048 0x61) := by
    rw [Line.headerLength, Line.textLength, Line.textLength, Line.formattedLength,
      Line.formattedLength, hlen]
    exact Nat.le_add_left_of_le (by decide)
  obtain ⟨hpos, -⟩ := @Line.header_spec (fun _ => 0) plainContext .logFatal [0x66]
    (List.replicate 2048 0x61) 1
  rw [logLevel, hfilter, Bool.not_true, if_neg Bool.false_ne_true,
    Line.lineKept_writeLog (by omega), hpos]
  omega

end MuditaOS.Log
