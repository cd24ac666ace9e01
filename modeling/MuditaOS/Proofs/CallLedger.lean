import MuditaOS.Proofs.CallEnds

/-!
# What a call leaves behind

A call is opened once, when its first handler writes the record and tells the
listeners, and closed once, by the handler of the row it leaves through. Every
row out of the call closes it but one: a phone that already rings and is set to
not disturb in the meantime rejects the caller as if it had never rung.
-/

namespace MuditaOS.Calls

open Lib

/-! ## The account of a call -/

/-- Nothing was started, written or said for the call yet. -/
structure Unopened (record : CalllogRecord) (l : Ledger) : Prop where
  noId : record.ID = DB_ID_NONE
  silent : l.audio = false
  created : l.created = 0
  ended : l.ended = []
  told : l.owed = false

/-- The call has its record, and the listeners were told of it. -/
structure Opened (record : CalllogRecord) (l : Ledger) : Prop where
  hasId : record.ID ≠ DB_ID_NONE
  created : l.created = 1
  ended : l.ended = []
  told : l.owed = true

/-- What both have in common: the record has an id once it was created. -/
structure Openable (record : CalllogRecord) (l : Ledger) : Prop where
  counted : record.ID = DB_ID_NONE ∧ l.created = 0 ∨ record.ID ≠ DB_ID_NONE ∧ l.created = 1
  ended : l.ended = []

/-- Nothing is left to do but to release the processor. -/
structure Closed (l : Ledger) : Prop where
  silent : l.audio = false
  created : l.created = 1
  ended : ∃ row, l.ended = [row] ∧ l.row = some row
  told : l.owed = false

theorem Closed.settled {l : Ledger} (h : Closed l) :
    (l.note .releaseMinimumFrequency).Settled where
  silent := h.silent
  released := rfl
  told := h.told
  atMostOne := Nat.le_of_eq h.created
  endedOnce := fun _ => h.ended

namespace StateMachine

/-- The ledger after what the event made the machine do so far. -/
def books (l : Ledger) (m : StateMachine) : Ledger := m.effects.foldl Ledger.note l

variable {w : Answers} {m : StateMachine} {l : Ledger}

@[simp] theorem books_emit {effect : Effect} :
    (m.emit effect).books l = (m.books l).note effect := by
  simp only [books, emit, List.foldl_append, List.foldl_cons, List.foldl_nil]

@[simp] theorem books_setRecord {record : CalllogRecord} :
    (m.setRecord record).books l = m.books l := rfl

@[simp] theorem books_timerStart : (m.timerStart w).books l = m.books l := rfl

@[simp] theorem books_timerStop : m.timerStop.books l = m.books l := rfl

@[simp] theorem call_emit {effect : Effect} : (m.emit effect).call = m.call := rfl

@[simp] theorem call_setRecord {record : CalllogRecord} :
    (m.setRecord record).call.record = record := rfl

@[simp] theorem call_timerStart : (m.timerStart w).call = m.call := rfl

@[simp] theorem call_timerStop : m.timerStop.call = m.call := rfl

@[simp] theorem call_play : m.play.call = m.call := by
  rw [play]
  split <;> rfl

@[simp] theorem call_stop : m.stop.call = m.call := rfl

@[simp] theorem call_endCall : m.endCall.call = m.call := by
  rw [endCall]
  split <;> rfl

/-- The ringtone changes nothing but what is heard. -/
theorem books_play : ∃ audio, m.play.books l = { m.books l with audio := audio } := by
  rw [play]
  split
  · exact ⟨(m.books l).audio, rfl⟩
  · exact ⟨true, by rw [books_emit]; rfl⟩

@[simp] theorem books_stop : m.stop.books l = { m.books l with audio := false } := by
  rw [stop, books_emit]
  rfl

@[simp] theorem books_endCall :
    m.endCall.books l = (m.books l).note (.endCall m.call.record) := by
  rw [endCall]
  split
  · rw [books_emit, books_emit]
    rfl
  · rw [books_emit]

/-- `startCall` creates the one record of a call, or writes the one it has. -/
theorem startCall_spec (h : Openable m.call.record (m.books l)) :
    (m.startCall w).call.record.ID ≠ DB_ID_NONE ∧
      ∃ row, (m.startCall w).books l = { m.books l with created := 1, row := some row } := by
  rw [startCall]
  rcases h.counted with ⟨hid, hcreated⟩ | ⟨hid, hcreated⟩
  · rw [if_pos hid]
    refine ⟨(w.CalllogAdd m.call.record).hasId, (w.CalllogAdd m.call.record).record, ?_⟩
    simp only [books_emit, books_setRecord, Ledger.note, hcreated]
  · rw [if_neg hid]
    refine ⟨hid, m.call.record, ?_⟩
    rw [books_emit, ← hcreated]
    rfl

/-! ## Handlers that open the call -/

theorem Opened.play (h : Opened m.call.record (m.books l)) :
    Opened m.play.call.record (m.play.books l) := by
  obtain ⟨audio, hbooks⟩ := books_play (m := m) (l := l)
  rw [call_play, hbooks]
  exact ⟨h.hasId, h.created, h.ended, h.told⟩

theorem handleClipCommon_opens {number : PhoneNumber}
    (h : Openable m.call.record (m.books l)) :
    Opened (m.handleClipCommon w number).call.record
      ((m.handleClipCommon w number).books l) := by
  rw [handleClipCommon]
  obtain ⟨caller, hcaller⟩ : ∃ caller, caller =
    (((m.setIncomingCall number).setDate w).emit (.guiCLIP number)).emit
      (.notifyIdentifiedCall number) := ⟨_, rfl⟩
  have hbooks : caller.books l = { m.books l with owed := true } := by
    rw [hcaller, books_emit, books_emit]
    rfl
  have hid : caller.call.record.ID = m.call.record.ID := by rw [hcaller]; rfl
  obtain ⟨hhas, row, hrow⟩ := startCall_spec (w := w) (m := caller) (l := l)
    ⟨by rw [hid, hbooks]; exact h.counted, by rw [hbooks]; exact h.ended⟩
  rw [← hcaller, call_emit, books_emit, hrow, hbooks]
  exact ⟨hhas, rfl, h.ended, rfl⟩

theorem handleRingTimeout_opens (h : Openable m.call.record (m.books l)) :
    Opened (m.handleRingTimeout w).call.record ((m.handleRingTimeout w).books l) := by
  rw [handleRingTimeout]
  have hbooks : (m.emit .notifyIncomingCall).books l = { m.books l with owed := true } :=
    books_emit
  obtain ⟨hhas, row, hrow⟩ := startCall_spec (w := w) (m := m.emit .notifyIncomingCall)
    (l := l) ⟨by rw [hbooks]; exact h.counted, by rw [hbooks]; exact h.ended⟩
  refine Opened.play ?_
  rw [call_emit, books_emit, hrow, hbooks]
  exact ⟨hhas, rfl, h.ended, rfl⟩

theorem handleStartCall_opens {type : CallType} {number : PhoneNumber}
    (h : Openable m.call.record (m.books l)) :
    Opened (m.handleStartCall w type number).call.record
      ((m.handleStartCall w type number).books l) := by
  obtain ⟨caller, hcaller⟩ : ∃ caller, caller =
    (m.setRecord
      { m.call.record with
        type := type
        isRead := true
        phoneNumber := number
        date := w.time }).emit .routingStart := ⟨_, rfl⟩
  have hbooks : caller.books l = { m.books l with audio := true } := by
    rw [hcaller, books_emit]
    rfl
  have hid : caller.call.record.ID = m.call.record.ID := by rw [hcaller]; rfl
  obtain ⟨hhas, row, hrow⟩ := startCall_spec (w := w) (m := caller) (l := l)
    ⟨by rw [hid, hbooks]; exact h.counted, by rw [hbooks]; exact h.ended⟩
  simp only [handleStartCall]
  rw [← hcaller, call_emit, call_emit, books_emit, books_emit, hrow, hbooks]
  exact ⟨hhas, rfl, h.ended, rfl⟩

/-! ## Handlers that close it -/

theorem handleEndCall_closes (h : Opened m.call.record (m.books l)) :
    Closed ((m.handleEndCall w).books l) := by
  simp only [handleEndCall, setRead, books_emit, books_timerStop, books_endCall,
    books_setRecord, books_stop, Ledger.note, h.ended]
  exact ⟨rfl, h.created, ⟨_, rfl, rfl⟩, rfl⟩

theorem handleRejectCall_closes (h : Opened m.call.record (m.books l)) :
    Closed (m.handleRejectCall.books l) := by
  simp only [handleRejectCall, setRead, setType, books_emit, books_endCall,
    books_setRecord, books_stop, Ledger.note, h.ended]
  exact ⟨rfl, h.created, ⟨_, rfl, rfl⟩, rfl⟩

theorem handleMissedCall_closes (h : Opened m.call.record (m.books l)) :
    Closed (m.handleMissedCall.books l) := by
  simp only [handleMissedCall, setRead, setType, books_emit, books_endCall,
    books_setRecord, books_stop, Ledger.note, h.ended]
  exact ⟨rfl, h.created, ⟨_, rfl, rfl⟩, rfl⟩

/-- What is due in a state, before the next event. -/
def Account : State → CalllogRecord → Ledger → Prop
  | .Idle => Unopened
  | .RingDelay => Unopened
  | _ => Opened

theorem Account.opened {state : State} {record : CalllogRecord}
    (h : Account state record l) (hidle : state ≠ .Idle) (hdelay : state ≠ .RingDelay) :
    Opened record l := by
  cases state with
  | Idle => exact absurd rfl hidle
  | RingDelay => exact absurd rfl hdelay
  | _ => exact h

/-- A hold of the processor is on no account. -/
theorem Account.hold {state : State} {record : CalllogRecord}
    (h : Account state record l) : Account state record (l.note .holdMinimumFrequency) := by
  have hunopened : Unopened record l → Unopened record (l.note .holdMinimumFrequency) :=
    fun h => ⟨h.noId, h.silent, h.created, h.ended, h.told⟩
  have hopened : Opened record l → Opened record (l.note .holdMinimumFrequency) :=
    fun h => ⟨h.hasId, h.created, h.ended, h.told⟩
  cases state with
  | Idle => exact hunopened h
  | RingDelay => exact hunopened h
  | _ => exact hopened h

inductive Opens (w : Answers) (m : StateMachine) : StateMachine → Prop
  | ringTimeout : Opens w m (m.handleRingTimeout w)
  | clip (number : PhoneNumber) : Opens w m (m.handleClipConnected w number)
  | clipRinging (number : PhoneNumber) : Opens w m (m.handleClipWithoutRing w number)
  | startCall (type : CallType) (number : PhoneNumber) :
      Opens w m (m.handleStartCall w type number)

inductive Keeps (w : Answers) (m : StateMachine) : StateMachine → Prop
  | audioRequest (event : AudioEvent) : Keeps w m (m.handleAudioRequest event)
  | startedCall : Keeps w m (m.handleStartedCall w)
  | answerCall : Keeps w m (m.handleAnswerCall w)
  | addID (number : PhoneNumber) : Keeps w m (m.handleAddID number)
  | callTimer : Keeps w m (m.handleCallTimer w)

inductive Closes (w : Answers) (m : StateMachine) : StateMachine → Prop
  | endCall : Closes w m (m.handleEndCall w)
  | rejectCall : Closes w m m.handleRejectCall
  | missedCall : Closes w m m.handleMissedCall

theorem Opens.opened {moved : StateMachine} (hopens : Opens w m moved)
    (h : Openable m.call.record (m.books l)) : Opened moved.call.record (moved.books l) := by
  cases hopens with
  | ringTimeout => exact handleRingTimeout_opens h
  | clip number => exact handleClipCommon_opens h
  | clipRinging number => exact Opened.play (handleClipCommon_opens h)
  | startCall type number => exact handleStartCall_opens h

theorem Keeps.opened {moved : StateMachine} (hkeeps : Keeps w m moved)
    (h : Opened m.call.record (m.books l)) : Opened moved.call.record (moved.books l) := by
  cases hkeeps <;>
    simp only [handleAudioRequest, handleStartedCall, handleAnswerCall, handleAddID,
      handleCallTimer, setNumber, books_emit, books_timerStart, books_setRecord, call_emit,
      call_timerStart, call_setRecord, Ledger.note] <;>
    exact ⟨h.hasId, h.created, h.ended, by first | exact h.told | rfl⟩

theorem Closes.closed {moved : StateMachine} (hcloses : Closes w m moved)
    (h : Opened m.call.record (m.books l)) : Closed (moved.books l) := by
  cases hcloses with
  | endCall => exact handleEndCall_closes h
  | rejectCall => exact handleRejectCall_closes h
  | missedCall => exact handleMissedCall_closes h

/-- The machine that the table gets to see: nothing done yet, but for the hold
that `RING` takes. -/
def Ready (m ready : StateMachine) : Prop :=
  ready.call = m.call ∧ (ready.effects = [] ∨ ready.effects = [.holdMinimumFrequency])

/-- The event selects no row and changes nothing of the call, or it runs the row it selects. -/
def RunsRow (w : Answers) (m ready : StateMachine) (event : Event) : Prop :=
  ready.transition w m.state event = none ∧
      (m.handle w event).1.state = m.state ∧
      (m.handle w event).1.call.record = m.call.record ∧
      (m.handle w event).1.effects = ready.effects ∨
    ∃ moved target, ready.transition w m.state event = some (moved, target) ∧
      (m.handle w event).1 = moved.enter w target

theorem handle_cases (event : Event) : ∃ ready, Ready m ready ∧ RunsRow w m ready event := by
  have hrow : ∀ ready : StateMachine, Ready m ready → ready.state = m.state →
      (m.handle w event).1 = (ready.processEvent w event).1 →
      ∃ ready, Ready m ready ∧ RunsRow w m ready event := by
    intro ready hready hstate hhandle
    refine ⟨ready, hready, ?_⟩
    rw [RunsRow, hhandle, processEvent, hstate]
    cases htransition : ready.transition w m.state event with
    | none => exact .inl ⟨rfl, hstate, by rw [hready.1], rfl⟩
    | some row => exact .inr ⟨row.1, row.2, rfl, rfl⟩
  cases event with
  | RING =>
      exact hrow ({ m with effects := [] }.emit .holdMinimumFrequency)
        ⟨rfl, .inr rfl⟩ rfl rfl
  | ModeChange mode =>
      refine ⟨{ m with effects := [] }, ⟨rfl, .inl rfl⟩, .inl ⟨?_, rfl, rfl, rfl⟩⟩
      cases m.state <;> rfl
  | TetheringChange tethering =>
      refine ⟨{ m with effects := [] }, ⟨rfl, .inl rfl⟩, .inl ⟨?_, rfl, rfl, rfl⟩⟩
      cases m.state <;> rfl
  | _ => exact hrow { m with effects := [] } ⟨rfl, .inl rfl⟩ rfl rfl

end StateMachine

namespace Line

open StateMachine

variable {s : Line} {input : Input}

end Line

end MuditaOS.Calls
