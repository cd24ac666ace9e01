import MuditaOS.Lib.Run
import MuditaOS.Log.Logger
import MuditaOS.Proofs.LogBuffer

/-!
# Log files are in order

The buffer that is flushed holds the older messages, the current one the newer, until they
change places: that is right only if there is nothing in one of them. A switch before the flush
leaves the older messages to be flushed after the newer. None is lost without being counted.
-/

namespace MuditaOS.Log

open Lib

/-! ## Two buffers -/

namespace LoggerBufferContainer

variable {c : LoggerBufferContainer} {message : LogMessage}

theorem other_ne (i : Fin numberOfBuffers) : i + 1 ≠ i := by
  decide +revert

theorem other_other (i : Fin numberOfBuffers) : i + 1 + 1 = i := by
  decide +revert

def older (c : LoggerBufferContainer) : List LogMessage := c.otherBuffer.contents

def newer (c : LoggerBufferContainer) : List LogMessage := c.getCurrentBuffer.contents

structure Shape (c : LoggerBufferContainer) : Prop where
  index : c.currentBuffer = c.currentIndex
  ok : ∀ i, (c.buffer i).Ok
  capacity : ∀ i, (c.buffer i).capacity = c.circularBufferSize
  /-- Before the first switch there is only one buffer in use. -/
  flush : c.flushBuffer = c.currentIndex + 1 ∨ c.flushBuffer = c.currentIndex ∧ c.older = []

theorem Shape.current (h : c.Shape) : c.getCurrentBuffer.Ok := h.ok _

theorem shape_create {size : ℕ+} : (create size).Shape where
  index := rfl
  ok _ := StringCircularBuffer.ok_create size.pos
  capacity _ := rfl
  flush := .inr ⟨rfl, rfl⟩

/-- The two buffers, by their use and by their place. -/
theorem buffers_cases (h : c.Shape) :
    c.otherBuffer = c.buffer 0 ∧ c.getCurrentBuffer = c.buffer 1 ∨
      c.otherBuffer = c.buffer 1 ∧ c.getCurrentBuffer = c.buffer 0 := by
  have hindex : c.currentIndex = 0 ∨ c.currentIndex = 1 := by
    generalize c.currentIndex = i
    decide +revert
  rw [otherBuffer, getCurrentBuffer, h.index]
  rcases hindex with hzero | hone
  · rw [hzero]
    exact .inr ⟨rfl, rfl⟩
  · rw [hone]
    exact .inl ⟨rfl, rfl⟩

theorem buffers_perm (h : c.Shape) :
    (c.older ++ c.newer).Perm ((c.buffer 0).contents ++ (c.buffer 1).contents) := by
  rw [older, newer]
  rcases buffers_cases h with ⟨hother, hcurrent⟩ | ⟨hother, hcurrent⟩
  · rw [hother, hcurrent]
  · rw [hother, hcurrent]
    exact List.perm_append_comm

theorem numOfLostBytes_eq (h : c.Shape) :
    c.otherBuffer.numOfLostBytes + c.getCurrentBuffer.numOfLostBytes =
      (c.buffer 0).numOfLostBytes + (c.buffer 1).numOfLostBytes := by
  rcases buffers_cases h with ⟨hother, hcurrent⟩ | ⟨hother, hcurrent⟩
  · rw [hother, hcurrent]
  · rw [hother, hcurrent]
    exact UInt32.add_comm _ _

/-! ### A switch -/

theorem shape_nextBuffer (h : c.Shape) : c.nextBuffer.Shape where
  index := rfl
  ok := h.ok
  capacity := h.capacity
  flush := by
    refine .inl ?_
    rw [nextBuffer, h.index]
    exact (other_other _).symm

theorem older_nextBuffer (h : c.Shape) : c.nextBuffer.older = c.newer := by
  rw [older, newer, otherBuffer, getCurrentBuffer, h.index, nextBuffer, other_other]

theorem newer_nextBuffer : c.nextBuffer.newer = c.older := rfl

/-! ### A buffer replaced -/

theorem getCurrentBuffer_replace {buffer : LoggerBuffer} :
    (c.replace c.currentBuffer buffer).getCurrentBuffer = buffer := if_pos rfl

theorem otherBuffer_replace {buffer : LoggerBuffer} (h : c.Shape) :
    (c.replace c.currentBuffer buffer).otherBuffer = c.otherBuffer := by
  refine if_neg ?_
  rw [h.index]
  exact other_ne _

theorem ok_replace {i : Fin numberOfBuffers} {buffer : LoggerBuffer} (h : c.Shape)
    (hok : buffer.Ok) (hcapacity : buffer.capacity = c.circularBufferSize)
    (j : Fin numberOfBuffers) :
    ((c.replace i buffer).buffer j).Ok ∧
      ((c.replace i buffer).buffer j).capacity = c.circularBufferSize := by
  simp only [replace]
  split
  · exact ⟨hok, hcapacity⟩
  · exact ⟨h.ok j, h.capacity j⟩

/-! ### A message -/

/-- The container with the message put, before its state is checked. -/
def written (message : LogMessage) (c : LoggerBufferContainer) : LoggerBufferContainer :=
  c.replace c.currentBuffer (c.getCurrentBuffer.put message)

theorem written_spec (h : c.Shape) :
    (c.written message).Shape ∧
      (c.written message).older = c.older ∧
      (c.written message).newer = c.getCurrentBuffer.remaining ++ [message] ∧
      (c.written message).otherBuffer.numOfLostBytes = c.otherBuffer.numOfLostBytes ∧
      (c.written message).getCurrentBuffer.numOfLostBytes =
        c.getCurrentBuffer.numOfLostBytes +
          UInt32.ofNat (c.getCurrentBuffer.oldest.map LogMessage.length).sum := by
  obtain ⟨hok, hcapacity, hcontents, hlost⟩ :=
    @LoggerBuffer.put_spec c.getCurrentBuffer message (h.ok _)
  have hbuffers := @ok_replace c c.currentBuffer _ h hok (hcapacity.trans (h.capacity _))
  have holder : (c.written message).older = c.older := by
    rw [older, older, written, otherBuffer_replace h]
  refine ⟨⟨h.index, fun i => (hbuffers i).1, fun i => (hbuffers i).2, ?_⟩, holder, ?_, ?_, ?_⟩
  · rw [holder]
    exact h.flush
  · rw [newer, written, getCurrentBuffer_replace, hcontents]
  · rw [written, otherBuffer_replace h]
  · rw [written, getCurrentBuffer_replace, hlost]

/-- Whether the buffer is full after the message is known before. -/
theorem fills_iff (h : c.Shape) :
    Logger.fills c = true ↔
      (c.written message).circularBufferSize ≤ (c.written message).getCurrentBuffer.size := by
  have hok := h.current
  obtain ⟨hshape, _, hnewer, _, _⟩ := @written_spec c message h
  have hsize := congrArg List.length hnewer
  rw [newer, StringCircularBuffer.length_contents hshape.current, List.length_append,
    List.length_singleton, LoggerBuffer.remaining] at hsize
  have hcapacity : c.circularBufferSize = c.getCurrentBuffer.capacity := (h.capacity _).symm
  have hsame : (c.written message).circularBufferSize = c.circularBufferSize := rfl
  have hcontents := StringCircularBuffer.length_contents hok
  have hpositive := hok.positive
  rw [hsame, hsize, Logger.fills, decide_eq_true_eq]
  split
  case isTrue hfull =>
      have hall : c.getCurrentBuffer.size = c.getCurrentBuffer.capacity := hok.full.1 hfull
      rw [List.length_tail, hcontents]
      omega
  case isFalse => rw [hcontents]

theorem log_eq (h : c.Shape) :
    Logger.log message c =
      if Logger.fills c then (c.written message).nextBuffer else c.written message := by
  rw [Logger.log, Logger.checkBufferState]
  exact if_congr (fills_iff h).symm rfl rfl

/-! ### Logs taken -/

/-- The worker takes the older messages, or before the first switch all there are. -/
theorem getLogs_spec (h : c.Shape) :
    (Logger.getLogs c).2.Shape ∧
      (Logger.getLogs c).2.older = [] ∧
      (Logger.getLogs c).1.map LogEntry.message ++ (Logger.getLogs c).2.newer =
        c.older ++ c.newer ∧
      ((Logger.getLogs c).1.map LogEntry.lost).sum +
          ((Logger.getLogs c).2.otherBuffer.numOfLostBytes +
            (Logger.getLogs c).2.getCurrentBuffer.numOfLostBytes) =
        c.otherBuffer.numOfLostBytes + c.getCurrentBuffer.numOfLostBytes := by
  obtain ⟨htaken, hok, hcapacity, hnone, hlost⟩ :=
    @LoggerBuffer.takeAll_spec c.getFlushBuffer.size c.getFlushBuffer (h.ok _) (Nat.le_refl _)
  have hbuffers := @ok_replace c c.flushBuffer _ h hok (hcapacity.trans (h.capacity _))
  generalize hemptied : (LoggerBuffer.takeAll c.getFlushBuffer.size c.getFlushBuffer).2 = emptied
    at hok hcapacity hnone hlost hbuffers
  have hlogs : Logger.getLogs c =
      ((LoggerBuffer.takeAll c.getFlushBuffer.size c.getFlushBuffer).1,
        c.replace c.flushBuffer emptied) := by
    rw [← hemptied]
    rfl
  rw [hlogs]
  simp only []
  rw [htaken]
  rcases h.flush with hother | ⟨hcurrent, holder⟩
  · have hflush : c.getFlushBuffer = c.otherBuffer := by
      rw [getFlushBuffer, hother, otherBuffer]
    have hnew : (c.replace c.flushBuffer emptied).otherBuffer = emptied := if_pos hother.symm
    have hsame : (c.replace c.flushBuffer emptied).getCurrentBuffer = c.getCurrentBuffer := by
      refine if_neg ?_
      show ¬ c.currentBuffer = c.flushBuffer
      rw [hother, h.index]
      exact (other_ne _).symm
    have hempty : (c.replace c.flushBuffer emptied).older = [] := by rw [older, hnew, hnone]
    refine ⟨⟨h.index, fun i => (hbuffers i).1, fun i => (hbuffers i).2, .inl hother⟩, hempty,
      ?_, ?_⟩
    · rw [newer, hsame, hflush]
      rfl
    · rw [hnew, hsame, ← UInt32.add_assoc, hlost, hflush]
  · have hflush : c.getFlushBuffer = c.getCurrentBuffer := by
      rw [getFlushBuffer, hcurrent, getCurrentBuffer, h.index]
    have hnew : (c.replace c.flushBuffer emptied).getCurrentBuffer = emptied :=
      if_pos (h.index.trans hcurrent.symm)
    have hsame : (c.replace c.flushBuffer emptied).otherBuffer = c.otherBuffer := by
      refine if_neg ?_
      rw [hcurrent]
      exact other_ne _
    have hempty : (c.replace c.flushBuffer emptied).older = [] := by
      rw [older, hsame]
      exact holder
    refine ⟨⟨h.index, fun i => (hbuffers i).1, fun i => (hbuffers i).2,
      .inr ⟨hcurrent, hempty⟩⟩, hempty, ?_, ?_⟩
    · rw [newer, hnew, hnone, holder, hflush, List.append_nil]
      rfl
    · rw [hnew, hsame, UInt32.add_comm c.otherBuffer.numOfLostBytes, ← UInt32.add_assoc, hlost,
        hflush, UInt32.add_comm]

/-- After a switch it is the other buffer that is emptied. -/
theorem newer_getLogs (h : c.Shape) (hother : c.flushBuffer = c.currentIndex + 1) :
    (Logger.getLogs c).2.newer = c.newer := by
  have hsame : (Logger.getLogs c).2.getCurrentBuffer = c.getCurrentBuffer := by
    refine if_neg ?_
    show ¬ c.currentBuffer = c.flushBuffer
    rw [hother, h.index]
    exact (other_ne _).symm
  rw [newer, newer, hsame]

end LoggerBufferContainer

/-! ## Sessions -/

namespace LogSession

open LoggerBufferContainer

variable {s : LogSession} {text : String} {call : LogCall} {calls : List LogCall} {size : ℕ+}

theorem messages_eq {buffer : LoggerBuffer} (h : buffer.Ok) :
    messages buffer = buffer.contents :=
  (LoggerBuffer.takeAll_spec h (Nat.le_refl _)).1

theorem toList_givenUp {buffer : LoggerBuffer} (h : buffer.Ok) :
    (givenUp buffer).toList = buffer.oldest := by
  rw [givenUp, LoggerBuffer.oldest]
  cases hfull : buffer.isFull with
  | false => rfl
  | true =>
      have hsome : buffer.isEmpty = false := by
        rw [StringCircularBuffer.isEmpty, beq_eq_false_iff_ne, h.full.1 hfull]
        exact Nat.ne_of_gt h.positive
      obtain ⟨message, rest, hget, _, _, _, _, hcontents⟩ :=
        StringCircularBuffer.get_cons h hsome
      rw [if_pos rfl, if_pos rfl, hget, hcontents]
      rfl

/-- What has been returned, with what is in the buffers behind it, the older first. -/
def whole (s : LogSession) : List LogMessage :=
  s.returned.map LogEntry.message ++ (s.container.older ++ s.container.newer)

/-- What holds of the books in every run. -/
structure Sound (s : LogSession) : Prop where
  shape : s.container.Shape
  messages : (s.whole ++ s.lost).Perm s.logged
  bytes : UInt32.ofNat (s.lost.map LogMessage.length).sum =
    (s.returned.map LogEntry.lost).sum + (s.container.otherBuffer.numOfLostBytes +
      s.container.getCurrentBuffer.numOfLostBytes)
  numbers : ∀ message ∈ s.logged, message.number < s.logged.length

theorem Sound.accounted (h : s.Sound) : s.Accounted where
  messages := by
    rw [messages_eq (h.shape.ok 0), messages_eq (h.shape.ok 1),
      List.append_assoc (s.returned.map _)]
    exact (((buffers_perm h.shape).symm.append_left _).append_right _).trans h.messages
  bytes := by
    rw [h.bytes, numOfLostBytes_eq h.shape, UInt32.add_assoc]

theorem start_sound : (start size).Sound where
  shape := shape_create
  messages := List.Perm.refl _
  bytes := rfl
  numbers := by
    intro message hmessage
    cases hmessage

/-! ### One call -/

theorem whole_switch (h : s.Sound) :
    ({ s with container := s.container.nextBuffer } : LogSession).whole =
      s.returned.map LogEntry.message ++ (s.container.newer ++ s.container.older) := by
  rw [whole, older_nextBuffer h.shape, newer_nextBuffer]

theorem switch_sound (h : s.Sound) :
    ({ s with container := s.container.nextBuffer } : LogSession).Sound where
  shape := shape_nextBuffer h.shape
  messages := by
    rw [whole_switch h]
    exact ((List.perm_append_comm.append_left _).append_right _).trans h.messages
  bytes := by
    have hold := numOfLostBytes_eq h.shape
    have hnew := numOfLostBytes_eq (shape_nextBuffer h.shape)
    exact h.bytes.trans (congrArg _ (hold.trans hnew.symm))
  numbers := h.numbers

/-- The session with a message put, before the state of the buffers is checked. -/
def written (text : String) (s : LogSession) : LogSession :=
  { s with
    container := s.container.written ⟨s.logged.length, text⟩
    logged := s.logged ++ [⟨s.logged.length, text⟩]
    lost := s.lost ++ (givenUp s.container.getCurrentBuffer).toList }

theorem step_log (h : s.Sound) :
    s.step (.log text) =
      if Logger.fills s.container then
        { s.written text with container := (s.written text).container.nextBuffer }
      else s.written text := by
  rw [step, log_eq h.shape]
  split <;> rfl

theorem whole_written (h : s.Sound) :
    (s.written text).whole = s.returned.map LogEntry.message ++
      (s.container.older ++
        (s.container.getCurrentBuffer.remaining ++ [⟨s.logged.length, text⟩])) := by
  obtain ⟨_, holder, hnewer, _, _⟩ := @written_spec s.container ⟨s.logged.length, text⟩ h.shape
  rw [whole, written, holder, hnewer]

theorem written_sound (h : s.Sound) : (s.written text).Sound := by
  obtain ⟨hshape, holder, hnewer, hother, hlost⟩ :=
    @written_spec s.container ⟨s.logged.length, text⟩ h.shape
  have hgiven := toList_givenUp h.shape.current
  refine ⟨hshape, ?_, ?_, ?_⟩
  · -- The message that is given up goes from the buffer to the lost.
    have hsplit : s.container.getCurrentBuffer.oldest ++
        s.container.getCurrentBuffer.remaining = s.container.newer :=
      LoggerBuffer.oldest_append_remaining
    have hmessages := h.messages
    rw [whole, ← hsplit] at hmessages
    rw [whole_written h, written, hgiven]
    refine List.Perm.trans ?_ (hmessages.append_right [⟨s.logged.length, text⟩])
    rw [List.perm_iff_count]
    intro message
    simp only [List.count_append]
    omega
  · rw [written, hgiven]
    simp only []
    rw [List.map_append, List.sum_append, UInt32.ofNat_add, h.bytes, hother, hlost,
      UInt32.add_assoc, UInt32.add_assoc]
  · intro message hmessage
    rw [written, List.length_append, List.length_singleton]
    rcases List.mem_append.1 hmessage with hold | hnew
    · exact Nat.lt_succ_of_lt (h.numbers message hold)
    · rw [List.mem_singleton.1 hnew]
      exact Nat.lt_succ_self _

theorem whole_getLogs (h : s.Sound) : (s.step .getLogs).whole = s.whole := by
  obtain ⟨_, hnone, htaken, _⟩ := getLogs_spec h.shape
  rw [whole, whole, step, List.map_append, hnone, List.nil_append, List.append_assoc, htaken]

theorem getLogs_sound (h : s.Sound) : (s.step .getLogs).Sound where
  shape := (getLogs_spec h.shape).1
  messages := by
    rw [whole_getLogs h]
    exact h.messages
  bytes := by
    obtain ⟨_, _, _, hlost⟩ := getLogs_spec h.shape
    simp only [step]
    rw [List.map_append, List.sum_append, UInt32.add_assoc, hlost]
    exact h.bytes
  numbers := h.numbers

/-- Every message is accounted for, whatever the calls. -/
theorem step_sound (h : s.Sound) : (s.step call).Sound := by
  cases call with
  | log text =>
      rw [step_log h]
      split
      · exact switch_sound (written_sound h)
      · exact written_sound h
  | writeLogsTimer => exact switch_sound h
  | diagnosticDump => exact switch_sound h
  | getLogs => exact getLogs_sound h

/-! ### Order -/

/-- Both buffers written to the file, all is in it: the older messages come first. -/
theorem writtenOut_eq (h : s.Sound) : s.writtenOut = s.whole := by
  have hfirst := @step_sound s .getLogs h
  have hswitched := @step_sound _ .writeLogsTimer hfirst
  have hlast := @step_sound _ .getLogs hswitched
  have hfirstNone : (s.step .getLogs).container.older = [] := (getLogs_spec h.shape).2.1
  have hlastNone : (((s.step .getLogs).step .writeLogsTimer).step .getLogs).container.older = [] :=
    (getLogs_spec hswitched.shape).2.1
  have hflush : ((s.step .getLogs).step .writeLogsTimer).container.flushBuffer =
      ((s.step .getLogs).step .writeLogsTimer).container.currentIndex + 1 := by
    show (s.step .getLogs).container.currentBuffer =
      (s.step .getLogs).container.currentIndex + 1 + 1
    rw [hfirst.shape.index, other_other]
  have hlastNewer :
      (((s.step .getLogs).step .writeLogsTimer).step .getLogs).container.newer = [] :=
    (newer_getLogs hswitched.shape hflush).trans hfirstNone
  have hall := whole_getLogs hswitched
  rw [whole, hlastNone, hlastNewer, List.append_nil, List.append_nil] at hall
  have hswitch : ((s.step .getLogs).step .writeLogsTimer).whole = (s.step .getLogs).whole := by
    rw [step, whole_switch hfirst, whole, hfirstNone, List.append_nil, List.nil_append]
  rw [writtenOut, hall, hswitch, whole_getLogs h]

theorem kept_iff (h : s.Sound) : s.Kept ↔ InOrder LogMessage.number s.whole := by
  constructor
  · intro hkept
    rw [← writtenOut_eq h]
    exact hkept.writtenOut
  · intro horder
    refine ⟨h.accounted, horder.sublist (List.sublist_append_left _ _), ?_⟩
    rw [writtenOut_eq h]
    exact horder

/-- A message that is put is behind all others. -/
theorem inOrder_written (h : s.Sound) (horder : InOrder LogMessage.number s.whole) :
    InOrder LogMessage.number (s.returned.map LogEntry.message ++
      (s.container.older ++ (s.container.newer ++ [⟨s.logged.length, text⟩]))) := by
  rw [← List.append_assoc s.container.older, ← List.append_assoc]
  refine (inOrder_append_singleton fun message hmessage => ?_).2 horder
  exact h.numbers message (h.messages.subset (List.mem_append_left s.lost hmessage))

theorem isEmpty_other (h : s.Sound) :
    s.container.otherBuffer.isEmpty = true ↔ s.container.older = [] :=
  StringCircularBuffer.isEmpty_iff (h.shape.ok _)

theorem isEmpty_current (h : s.Sound) :
    s.container.getCurrentBuffer.isEmpty = true ↔ s.container.newer = [] :=
  StringCircularBuffer.isEmpty_iff h.shape.current

theorem kept_switch_iff (h : s.Sound) (horder : InOrder LogMessage.number s.whole) :
    ({ s with container := s.container.nextBuffer } : LogSession).Kept ↔
      s.container.otherBuffer.isEmpty ∨ s.container.getCurrentBuffer.isEmpty := by
  rw [kept_iff (switch_sound h), whole_switch h, isEmpty_other h, isEmpty_current h]
  exact @inOrder_swap _ _ _ _ _ [] _ _ horder

theorem kept_log_iff (h : s.Sound) (horder : InOrder LogMessage.number s.whole) :
    (s.step (.log text)).Kept ↔ s.Drained (.log text) := by
  have hsplit : s.container.getCurrentBuffer.oldest ++
      s.container.getCurrentBuffer.remaining = s.container.newer :=
    LoggerBuffer.oldest_append_remaining
  have hbehind := @inOrder_written s text h horder
  rw [← hsplit, List.append_assoc s.container.getCurrentBuffer.oldest] at hbehind
  have hwritten := @written_sound s text h
  have hput : InOrder LogMessage.number (s.written text).whole := by
    rw [whole_written h]
    refine hbehind.sublist (List.Sublist.append_left (List.Sublist.append_left ?_ _) _)
    exact List.sublist_append_right _ _
  rw [step_log h, Drained]
  split
  case isTrue hfills =>
      rw [kept_switch_iff hwritten hput, isEmpty_other hwritten, isEmpty_current hwritten,
        isEmpty_other h]
      obtain ⟨_, holder, hnewer, _, _⟩ :=
        @written_spec s.container ⟨s.logged.length, text⟩ h.shape
      have hsome : (s.written text).container.newer ≠ [] := by
        show (s.container.written ⟨s.logged.length, text⟩).newer ≠ []
        rw [hnewer]
        exact List.append_ne_nil_of_right_ne_nil _ (List.cons_ne_nil _ _)
      have hsame : (s.written text).container.older = s.container.older := holder
      rw [or_iff_left hsome, hsame]
      exact ⟨fun hempty _ => hempty, fun hrule => hrule hfills⟩
  case isFalse hroom =>
      exact iff_of_true ((kept_iff hwritten).2 hput) fun hfills => absurd hfills hroom

/-! ### Every run -/

/-- The books are right, and the older messages are those to be flushed. -/
def Ready (s : LogSession) : Prop := s.Sound ∧ InOrder LogMessage.number s.whole

theorem kept_step_iff (h : s.Ready) : (s.step call).Kept ↔ s.Drained call := by
  obtain ⟨hsound, horder⟩ := h
  cases call with
  | log text => exact kept_log_iff hsound horder
  | writeLogsTimer => exact kept_switch_iff hsound horder
  | diagnosticDump => exact kept_switch_iff hsound horder
  | getLogs =>
      refine iff_of_true ((kept_iff (getLogs_sound hsound)).2 ?_) trivial
      rw [whole_getLogs hsound]
      exact horder

theorem step_ready (h : s.Ready) (hrule : s.Drained call) : (s.step call).Ready := by
  have hsound := @step_sound s call h.1
  exact ⟨hsound, (kept_iff hsound).1 ((kept_step_iff h).2 hrule)⟩

theorem start_ready : (start size).Ready := ⟨start_sound, List.Pairwise.nil⟩

/-- In a run the logs are in order, returned and still to be returned, exactly when the buffers
change places only if one of them is empty. -/
theorem kept_iff_drained :
    EveryStep (fun s call => (s.step call).Kept) step (start size) calls ↔
      EveryStep Drained step (start size) calls :=
  @everyStep_congr _ _ Ready (fun s call => (s.step call).Kept) Drained step
    (fun _ _ h => kept_step_iff h) (fun _ _ h hrule => step_ready h hrule) calls (start size)
    start_ready

/-- A second dump is asked for before the worker has flushed the first: the second message is
returned before the first. -/
theorem newer_first :
    ¬ EveryStep (fun s call => (s.step call).Kept) step (start 8)
      [.log "booted", .diagnosticDump, .log "dumped", .diagnosticDump, .getLogs,
        .diagnosticDump, .getLogs] := by
  intro ⟨_, _, _, _, _, _, hkept, _⟩
  have hreturned := hkept.returned
  rw [InOrder] at hreturned
  revert hreturned
  decide

end LogSession

end MuditaOS.Log
