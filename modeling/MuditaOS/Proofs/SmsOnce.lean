import MuditaOS.Cellular.SmsService

/-!
# Messages that are sent twice

A record is passed to `onSend` when a search or a delay brought it. The update
that follows moves it out of the queue, and the database takes it before the
next search of the handler, so that search cannot find the record again. What
can is another copy of the record: `SimReady` makes a search of its own, and two
searches that are both answered before the update bring the record twice.
-/

namespace MuditaOS.Sms

open Lib Services

/-! ## The handler -/

/-- The moves of the handler. -/
inductive Reacts (w : Surroundings) :
    HandlerState → Option SMSRecord → HandlerState → List Effect → Prop
  | asks : Reacts w .Idle none .ProcessQuery [.onSendQuery .SMSSearchByType]
  | ignores (record : SMSRecord) : Reacts w .Idle (some record) .Idle []
  | waits : Reacts w .ProcessQuery none .ProcessQuery []
  | ends (record : SMSRecord) (hvalid : ¬record.isValid) :
      Reacts w .ProcessQuery (some record) .Idle []
  | skips (record : SMSRecord) (hvalid : record.isValid)
      (hreset : w.modemResetInProgress = true) :
      Reacts w .ProcessQuery (some record) .ProcessQuery []
  | fails (record : SMSRecord) (hvalid : record.isValid)
      (hreset : w.modemResetInProgress = false) :
      Reacts w .ProcessQuery (some record) .Idle
        [.onSendQuery (.SMSUpdate { record with type := .FAILED })]
  | sends (record : SMSRecord) (hvalid : record.isValid)
      (hreset : w.modemResetInProgress = false) (honline : w.offlineMode = false)
      (hsim : w.simInitialized = true) :
      Reacts w .ProcessQuery (some record) .ProcessQuery
        [.onSend record, .onSendQuery .SMSSearchByType]

theorem handle_reacts {w : Surroundings} {state : HandlerState} {record : Option SMSRecord} :
    Reacts w state record ((state.handle w record).1.getD state)
      (state.handle w record).2 := by
  cases state with
  | Idle =>
      cases record with
      | none => exact .asks
      | some record => exact .ignores record
  | ProcessQuery =>
      cases record with
      | none => exact .waits
      | some record =>
          simp only [HandlerState.handle, HandlerState.handleProcessQuery]
          by_cases hvalid : record.isValid
          · rw [if_neg (not_not.mpr hvalid)]
            split
            next hreset => exact .skips record hvalid hreset
            next hreset =>
              split
              next hoff => exact .fails record hvalid (eq_false_of_ne_true hreset)
              next hon =>
                obtain ⟨honline, hsim⟩ := not_or.mp hon
                exact .sends record hvalid (eq_false_of_ne_true hreset)
                  (eq_false_of_ne_true honline) (not_not.mp hsim)
          · rw [if_pos hvalid]
            exact .ends record hvalid

theorem SMSSendHandler.handleStateChange_reacts {w : Surroundings} {h : SMSSendHandler}
    {record : Option SMSRecord} :
    Reacts w h.currentState record (h.handleStateChange w record).1.currentState
      (h.handleStateChange w record).2 := handle_reacts

/-- What is sent is the record at hand, by a handler that waits for it, over a
modem that works. -/
theorem Reacts.sent {w : Surroundings} {state next : HandlerState} {result : Option SMSRecord}
    {effects : List Effect} {record : SMSRecord}
    (hreacts : Reacts w state result next effects) (h : .onSend record ∈ effects) :
    result = some record ∧ record.isValid ∧ state = .ProcessQuery ∧
      w.modemResetInProgress = false ∧ w.offlineMode = false ∧ w.simInitialized = true := by
  cases hreacts with
  | sends sent hvalid hreset honline hsim =>
      have hsame : sent = record := by simpa [eq_comm] using h
      exact ⟨congrArg some hsame, hsame ▸ hvalid, rfl, hreset, honline, hsim⟩
  | _ => simp at h

/-! ## Updates ahead of searches -/

theorem covered_append {id : Nat} {queries more : List Query} (h : Covered id queries) :
    Covered id (queries ++ more) := by
  induction queries with
  | nil => cases h
  | cons query rest ih =>
      cases query with
      | SMSSearchByType => cases h
      | SMSUpdate record => exact h.imp (fun hid => hid) ih

/-- An update behind queries that hold no search covers its record. -/
theorem covered_of_not_exposed {record : SMSRecord} {queries more : List Query}
    (h : ¬Exposed record.ID queries) :
    Covered record.ID (queries ++ .SMSUpdate record :: more) := by
  induction queries with
  | nil => exact .inl rfl
  | cons query rest ih =>
      cases query with
      | SMSSearchByType => exact absurd trivial h
      | SMSUpdate other =>
          by_cases hid : other.ID = record.ID
          · exact .inl hid
          · exact .inr (ih fun hexposed => h ⟨hid, hexposed⟩)

/-! ## The table -/

namespace SmsTable

variable {table : SmsTable} {id : Nat}

theorem queues_of_update {record : SMSRecord} (h : (table.update record).Queues id) :
    record.ID = id ∧ record.type = .QUEUED ∨ record.ID ≠ id ∧ table.Queues id := by
  obtain ⟨row, hrow, hid, htype⟩ := h
  obtain ⟨old, hold, rfl⟩ := List.mem_map.mp hrow
  rw [updateRow_ID] at hid
  rw [updateRow] at htype
  by_cases hsame : old.ID = record.ID
  · rw [if_pos hsame] at htype
    exact .inl ⟨hsame.symm.trans hid, htype⟩
  · rw [if_neg hsame] at htype
    exact .inr ⟨fun h => hsame (hid.trans h.symm), old, hold, hid, htype⟩

theorem queues_of_add {record : SMSRecord} (h : (table.add record).Queues id) :
    table.nextId = id ∨ table.Queues id := by
  obtain ⟨row, hrow, hid, htype⟩ := h
  rcases List.mem_append.mp hrow with hold | hnew
  · exact .inr ⟨row, hold, hid, htype⟩
  · rw [List.mem_singleton.mp hnew] at hid
    exact .inl hid

theorem queues_of_remove {other : Nat} (h : (table.removeById other).Queues id) :
    table.Queues id := by
  obtain ⟨row, hrow, hid, htype⟩ := h
  exact ⟨row, (List.mem_filter.mp hrow).1, hid, htype⟩

theorem mem_search {record : SMSRecord}
    (h : (table.getManyByType .QUEUED 0 1).head? = some record) :
    record ∈ table.rows ∧ record.type = .QUEUED := by
  have hmem := List.mem_of_mem_take (List.mem_of_mem_head? h)
  have hsorted := (List.perm_insertionSort _ _).mem_iff.mp (List.mem_of_mem_drop hmem)
  have hfilter := List.mem_filter.mp hsorted
  exact ⟨hfilter.1, of_decide_eq_true hfilter.2⟩

theorem queues_search {record : SMSRecord}
    (h : (table.getManyByType .QUEUED 0 1).head? = some record) : table.Queues record.ID :=
  ⟨record, (mem_search h).1, rfl, (mem_search h).2⟩

end SmsTable

/-! ## What every run keeps -/

/-- A record that was passed to `onSend` waits nowhere, and no search finds it
once more. -/
structure Once (passed : List Nat) (waiting : List SMSRecord) (table : SmsTable)
    (toDb : List Query) : Prop where
  settles : ∀ record, .SMSUpdate record ∈ toDb → record.type ≠ .QUEUED
  apart : ∀ id ∈ passed, ∀ record ∈ waiting, record.ID ≠ id
  covered : ∀ id ∈ passed, table.Queues id → Covered id toDb

namespace Once

variable {passed : List Nat} {waiting : List SMSRecord} {table : SmsTable}
  {toDb : List Query}

theorem mono {fewer : List SMSRecord} (h : Once passed waiting table toDb)
    (hsub : ∀ record ∈ fewer, record ∈ waiting) : Once passed fewer table toDb where
  settles := h.settles
  apart := fun id hid record hrecord => h.apart id hid record (hsub record hrecord)
  covered := h.covered

theorem ask (h : Once passed waiting table toDb) :
    Once passed waiting table (toDb ++ [.SMSSearchByType]) where
  settles := by
    intro record hrecord
    rcases List.mem_append.mp hrecord with hold | hnew
    · exact h.settles record hold
    · cases List.mem_singleton.mp hnew
  apart := h.apart
  covered := fun id hid hqueues => covered_append (h.covered id hid hqueues)

theorem put {record : SMSRecord} (h : Once passed waiting table toDb)
    (htype : record.type ≠ .QUEUED) :
    Once passed waiting table (toDb ++ [.SMSUpdate record]) where
  settles := by
    intro other hother
    rcases List.mem_append.mp hother with hold | hnew
    · exact h.settles other hold
    · cases List.mem_singleton.mp hnew
      exact htype
  apart := h.apart
  covered := fun id hid hqueues => covered_append (h.covered id hid hqueues)

/-- Passing the sole copy of a record to `onSend`. -/
theorem send {record : SMSRecord} (h : Once passed waiting table toDb)
    (htype : record.type ≠ .QUEUED)
    (hsole : ∀ other ∈ waiting, other.ID ≠ record.ID)
    (hexposed : ¬(table.Queues record.ID ∧ Exposed record.ID toDb)) :
    Once (record.ID :: passed) waiting table (toDb ++ [.SMSUpdate record]) where
  settles := (h.put htype).settles
  apart := by
    intro id hid
    rcases List.mem_cons.mp hid with rfl | hold
    · exact hsole
    · exact h.apart id hold
  covered := by
    intro id hid hqueues
    rcases List.mem_cons.mp hid with rfl | hold
    · exact covered_of_not_exposed fun h => hexposed ⟨hqueues, h⟩
    · exact (h.put htype).covered id hold hqueues

theorem serveSearch (h : Once passed waiting table (.SMSSearchByType :: toDb)) :
    Once passed (waiting ++ (table.getManyByType .QUEUED 0 1).head?.toList) table toDb where
  settles := fun record hrecord => h.settles record (List.mem_cons_of_mem _ hrecord)
  apart := by
    intro id hid record hrecord
    rcases List.mem_append.mp hrecord with hold | hnew
    · exact h.apart id hid record hold
    · -- a record the search finds is queued, and the search was not covered
      intro hsame
      have hqueues := SmsTable.queues_search (Option.mem_toList.mp hnew)
      exact h.covered id hid (hsame ▸ hqueues)
  covered := fun id hid hqueues => (h.covered id hid hqueues).elim

theorem serveUpdate {record : SMSRecord}
    (h : Once passed waiting table (.SMSUpdate record :: toDb)) :
    Once passed waiting (table.update record) toDb where
  settles := fun other hother => h.settles other (List.mem_cons_of_mem _ hother)
  apart := h.apart
  covered := by
    intro id hid hqueues
    rcases SmsTable.queues_of_update hqueues with ⟨_, htype⟩ | ⟨hne, hold⟩
    · exact absurd htype (h.settles record List.mem_cons_self)
    · exact (h.covered id hid hold).resolve_left hne

theorem write {other : SmsTable} {written : Nat} (h : Once passed waiting table toDb)
    (hqueues : ∀ id, other.Queues id → written = id ∨ table.Queues id) :
    Once (if other.Queues written then passed.filter (· ≠ written) else passed) waiting
      other toDb where
  settles := h.settles
  apart := by
    intro id hid
    split at hid
    · exact h.apart id (List.mem_filter.mp hid).1
    · exact h.apart id hid
  covered := by
    intro id hid hother
    split at hid
    next hwritten =>
      obtain ⟨hold, hne⟩ := List.mem_filter.mp hid
      have htable := (hqueues id hother).resolve_left fun h => of_decide_eq_true hne h.symm
      exact h.covered id hold htable
    next hwritten =>
      have htable := (hqueues id hother).resolve_left fun h => hwritten (h ▸ hother)
      exact h.covered id hid htable

end Once

namespace Services

variable {s : Services} {input : Input} {accepted : Bool}

/-- The records on their way to the handler. -/
def waiting (s : Services) : List SMSRecord := answers s.toCellular ++ s.delayed

def Safe (s : Services) : Prop := Once s.passed s.waiting s.table s.toDb

/-! ## What the handler does to both services -/

/-- Both outcomes of sending a message move it out of the queue. -/
theorem onSendSMS_spec {record : SMSRecord} : ∃ type, type ≠ SMSType.QUEUED ∧
    (s.onSendSMS accepted record).toDb =
      s.toDb ++ [.SMSUpdate { record with type := type }] := by
  rw [onSendSMS]
  split
  · exact ⟨.OUTBOX, by decide, rfl⟩
  · exact ⟨.FAILED, by decide, rfl⟩

@[simp] theorem onSendSMS_passed {record : SMSRecord} :
    (s.onSendSMS accepted record).passed = record.ID :: s.passed := by
  rw [onSendSMS]
  split <;> rfl

@[simp] theorem onSendSMS_waiting {record : SMSRecord} :
    (s.onSendSMS accepted record).waiting = s.waiting := by
  rw [onSendSMS]
  split <;> rfl

@[simp] theorem onSendSMS_handler {record : SMSRecord} :
    (s.onSendSMS accepted record).handler = s.handler := by
  rw [onSendSMS]
  split <;> rfl

@[simp] theorem onSendSMS_table {record : SMSRecord} :
    (s.onSendSMS accepted record).table = s.table := by
  rw [onSendSMS]
  split <;> rfl

/-- What the handler asks for keeps the services safe, given that a record it
sends has no other copy. -/
theorem run_safe {w : Surroundings} {handler : SMSSendHandler} {effects : List Effect}
    {state next : HandlerState} {record : Option SMSRecord}
    (hreacts : Reacts w state record next effects)
    (h : { s with handler := handler }.Safe)
    (hsole : ∀ sent, .onSend sent ∈ effects →
      (∀ other ∈ { s with handler := handler }.waiting, other.ID ≠ sent.ID) ∧
      ¬(s.table.Queues sent.ID ∧ Exposed sent.ID s.toDb)) :
    (s.run accepted (handler, effects)).Safe := by
  have hsafe : Once s.passed { s with handler := handler }.waiting s.table s.toDb := h
  cases hreacts with
  | asks => exact hsafe.ask
  | ignores record => exact hsafe
  | waits => exact hsafe
  | ends record hvalid => exact hsafe
  | skips record hvalid hreset => exact hsafe
  | fails record hvalid hreset => exact hsafe.put (by simp)
  | sends record hvalid hreset honline hsim =>
      obtain ⟨hother, hexposed⟩ := hsole record List.mem_cons_self
      obtain ⟨type, htype, htoDb⟩ := @onSendSMS_spec { s with handler := handler } accepted record
      have hsent : Once (record.ID :: s.passed) { s with handler := handler }.waiting s.table
          (s.toDb ++ [.SMSUpdate { record with type := type }] ++ [.SMSSearchByType]) :=
        (@Once.send _ _ _ _ { record with type := type } hsafe htype hother hexposed).ask
      change Once (Services.onSendSMS _ accepted record).passed
        (Services.onSendSMS _ accepted record).waiting
        (Services.onSendSMS _ accepted record).table
        ((Services.onSendSMS _ accepted record).toDb ++ [.SMSSearchByType])
      rw [onSendSMS_passed, onSendSMS_waiting, onSendSMS_table, htoDb]
      exact hsent

/-! ## What reaches the handler -/

/-- An answer is dropped, put off, or handled: an empty one as an invalid
record. -/
theorem answered_cases (s : Services) (result : Option SMSRecord) (onDelay : Bool) :
    s.answered result onDelay = (s.handler, []) ∧
      (s.modem.ready = false ∨ ∃ record, result = some record ∧ record.type ≠ .QUEUED) ∨
    s.modem.ready = true ∧ onDelay = true ∧ (∃ record, result = some record ∧
      s.answered result onDelay =
        ({ s.handler with delayedMessage := true, actionOnDelay := record }, [])) ∨
    s.modem.ready = true ∧ (result = none ∨ onDelay = false) ∧
      s.answered result onDelay =
        s.handler.handleStateChange s.modem.surroundings (some (result.getD {})) := by
  simp only [answered]
  by_cases hready : s.modem.ready = true
  · rw [if_neg (not_not.mpr hready)]
    cases result with
    | none => exact .inr (.inr ⟨hready, .inl rfl, rfl⟩)
    | some record =>
        by_cases htype : record.type = .QUEUED
        · simp only [if_pos htype, SMSSendHandler.handleIncomingDbRecord]
          cases onDelay with
          | false => exact .inr (.inr ⟨hready, .inr rfl, rfl⟩)
          | true => exact .inr (.inl ⟨hready, rfl, record, rfl, rfl⟩)
        · simp only [if_neg htype]
          exact .inl ⟨trivial, .inr ⟨record, rfl, htype⟩⟩
  · rw [if_pos hready]
    exact .inl ⟨rfl, .inl (eq_false_of_ne_true hready)⟩

/-- A record that is sent is the one that was brought. -/
theorem reaction_sends {record : SMSRecord}
    (h : .onSend record ∈ (s.reaction input).2) :
    record ∈ s.brought input ∧ record.isValid ∧ s.Sends := by
  have hchange : ∀ (handler : SMSSendHandler) (result : Option SMSRecord),
      handler.currentState = s.handler.currentState →
      .onSend record ∈ (handler.handleStateChange s.modem.surroundings result).2 →
      result = some record ∧ record.isValid ∧ s.Sends := by
    intro handler result hstate hmem
    obtain ⟨hresult, hvalid, hcurrent, hmodem⟩ :=
      SMSSendHandler.handleStateChange_reacts.sent hmem
    exact ⟨hresult, hvalid, hstate ▸ hcurrent, hmodem⟩
  cases input with
  | deliver onDelay accepted =>
      simp only [reaction] at h
      cases hmail : s.toCellular with
      | nil =>
          rw [hmail] at h
          cases h
      | cons message rest =>
          rw [hmail] at h
          cases message with
          | notification =>
              obtain ⟨hresult, _⟩ := hchange s.handler none rfl h
              cases hresult
          | answer result =>
              simp only [receive] at h
              rcases answered_cases s result onDelay with ⟨heq, _⟩ | ⟨_, _, _, _, heq⟩ |
                ⟨hready, hnow, heq⟩ <;> rw [heq] at h
              · cases h
              · cases h
              · obtain ⟨hresult, hvalid, hsends⟩ := hchange s.handler _ rfl h
                refine ⟨?_, hvalid, hsends⟩
                cases result with
                | none =>
                    cases hresult
                    exact absurd rfl hvalid
                | some found =>
                    have hdelay := hnow.resolve_left (Option.some_ne_none found)
                    simp only [brought, hdelay, hmail, if_pos hready]
                    exact hresult
  | callEndedRecently accepted =>
      simp only [reaction, SMSSendHandler.sendMessageIfDelayed] at h
      split at h
      next hdelayed =>
        obtain ⟨hresult, hvalid, hsends⟩ :=
          hchange { s.handler with delayedMessage := false } _ rfl h
        refine ⟨?_, hvalid, hsends⟩
        simp only [brought, if_pos hdelayed]
        exact hresult
      next hdelayed => cases h
  | simReady functionalityResetNeeded =>
      cases functionalityResetNeeded with
      | true => cases h
      | false =>
          simp only [reaction, SMSSendHandler.requestNotSendMessage] at h
          split at h
          · simp at h
          · cases h
  | _ => cases h

theorem answers_append {messages more : List Message} :
    answers (messages ++ more) = answers messages ++ answers more := List.filterMap_append

theorem mem_answers_cons {record : SMSRecord} {rest : List Message} (message : Message)
    (h : record ∈ answers rest) : record ∈ answers (message :: rest) := by
  obtain ⟨found, hfound, hrecord⟩ := List.mem_filterMap.mp h
  exact List.mem_filterMap.mpr ⟨found, List.mem_cons_of_mem _ hfound, hrecord⟩

theorem notify_waiting : s.notify.waiting = s.waiting := by
  have hanswers : answers (s.toCellular ++ [Message.notification]) = answers s.toCellular := by
    rw [answers_append]
    exact List.append_nil _
  exact congrArg (· ++ s.delayed) hanswers

/-- An answer adds to the waiting records what it brings. -/
theorem mem_waiting_answer {rest : List Query} {result : Option SMSRecord}
    {record : SMSRecord}
    (h : record ∈ Services.waiting
      { s with
        toDb := rest
        toCellular := s.toCellular ++ [.answer result] }) :
    record ∈ s.waiting ∨ result = some record := by
  rw [waiting, answers_append, List.append_assoc, List.mem_append, List.mem_append] at h
  rcases h with hold | hnew | hdelayed
  · exact .inl (List.mem_append_left _ hold)
  · exact .inr (by simpa [answers, eq_comm] using hnew)
  · exact .inl (List.mem_append_right _ hdelayed)

theorem serve_safe (h : s.Safe) : s.serve.Safe := by
  have hsafe : Once s.passed s.waiting s.table s.toDb := h
  rw [serve]
  split
  next hnil => exact h
  next rest hqueries =>
    rw [hqueries] at hsafe
    refine hsafe.serveSearch.mono ?_
    intro record hrecord
    refine List.mem_append.mpr ((mem_waiting_answer hrecord).imp_right ?_)
    exact Option.mem_toList.mpr
  next record rest hqueries =>
    rw [hqueries] at hsafe
    rw [Safe, notify_waiting]
    exact hsafe.serveUpdate

theorem write_safe {table : SmsTable} {written : Nat} (h : s.Safe)
    (hqueues : ∀ id, table.Queues id → written = id ∨ s.table.Queues id) :
    (s.write table written).Safe := by
  rw [Safe, write, notify_waiting]
  exact Once.write h hqueues

/-- Taking a message or a delayed record, and handling it. -/
theorem react_safe {base : Services} {result : Option SMSRecord} {handler : SMSSendHandler}
    (hsole : s.SoleCopy input)
    (hbase : Once base.passed { base with handler := handler }.waiting base.table base.toDb)
    (hreaction : s.reaction input = handler.handleStateChange s.modem.surroundings result)
    (helsewhere : { base with handler := handler }.waiting = s.elsewhere input)
    (htable : base.table = s.table) (htoDb : base.toDb = s.toDb) :
    (base.run accepted (s.reaction input)).Safe := by
  rw [hreaction]
  refine run_safe SMSSendHandler.handleStateChange_reacts hbase ?_
  intro sent hsent
  have hmem : .onSend sent ∈ (handler.handleStateChange s.modem.surroundings result).2 := hsent
  rw [← hreaction] at hmem
  obtain ⟨hbrought, hvalid, hsends⟩ := reaction_sends hmem
  obtain ⟨hother, hexposed⟩ := hsole sent hbrought hvalid hsends
  rw [htable, htoDb]
  exact ⟨fun other h => hother other (helsewhere ▸ h), hexposed⟩

theorem deliver_safe {onDelay : Bool} (h : s.Safe)
    (hsole : s.SoleCopy (.deliver onDelay accepted)) : (s.deliver onDelay accepted).Safe := by
  have hsafe : Once s.passed s.waiting s.table s.toDb := h
  rw [deliver]
  cases hmail : s.toCellular with
  | nil => exact h
  | cons message rest =>
      have helsewhere : s.elsewhere (.deliver onDelay accepted) = answers rest ++ s.delayed := by
        rw [elsewhere, hmail, List.tail_cons]
      have hrest : Once s.passed (answers rest ++ s.delayed) s.table s.toDb := by
        refine hsafe.mono ?_
        intro record hrecord
        rw [waiting, hmail]
        exact List.mem_append.mpr ((List.mem_append.mp hrecord).imp_left (mem_answers_cons _))
      have hreaction : s.reaction (.deliver onDelay accepted) = s.receive message onDelay := by
        simp only [reaction, hmail]
      cases message with
      | notification =>
          exact react_safe hsole hrest hreaction helsewhere.symm rfl rfl
      | answer result =>
          rcases answered_cases s result onDelay with
            ⟨heq, _⟩ | ⟨_, _, record, rfl, heq⟩ | ⟨_, _, heq⟩ <;>
            have hanswered := hreaction.trans heq
          · rw [hanswered]
            exact hrest
          · rw [hanswered]
            refine hsafe.mono ?_
            intro other hother
            rw [waiting, hmail]
            refine List.mem_append_left _ ?_
            rcases List.mem_append.mp hother with hold | hnew
            · exact mem_answers_cons _ hold
            · exact List.mem_cons.mpr (.inl (List.mem_singleton.mp hnew))
          · exact react_safe hsole hrest hanswered helsewhere.symm rfl rfl

theorem step_safe (h : s.Safe) (hsole : s.SoleCopy input) : (s.step input).Safe := by
  cases input with
  | serve => exact serve_safe h
  | deliver onDelay accepted => exact deliver_safe h hsole
  | callEndedRecently accepted =>
      have hsafe : Once s.passed s.waiting s.table s.toDb := h
      by_cases hdelayed : s.handler.delayedMessage = true
      · have hreaction : s.reaction (.callEndedRecently accepted) =
            SMSSendHandler.handleStateChange s.modem.surroundings
              { s.handler with delayedMessage := false } (some s.handler.actionOnDelay) := by
          simp only [reaction, SMSSendHandler.sendMessageIfDelayed, if_pos hdelayed]
        have hwaiting : answers s.toCellular ++ [] = s.elsewhere (.callEndedRecently accepted) :=
          List.append_nil _
        refine react_safe hsole (hsafe.mono ?_) hreaction hwaiting rfl rfl
        intro record hrecord
        have hmem : record ∈ answers s.toCellular ++ [] := hrecord
        rw [List.append_nil] at hmem
        exact List.mem_append_left _ hmem
      · have hreaction : s.reaction (.callEndedRecently accepted) = (s.handler, []) := by
          simp only [reaction, SMSSendHandler.sendMessageIfDelayed, if_neg hdelayed]
        rw [step, callEndedRecently, hreaction]
        exact h
  | simReady functionalityResetNeeded =>
      have hsafe : Once s.passed s.waiting s.table s.toDb := h
      cases functionalityResetNeeded with
      | true => exact h
      | false =>
          rw [step, simReady, if_neg Bool.false_ne_true, reaction]
          split
          · exact hsafe.ask
          · exact h
  | modem modem => exact h
  | create record =>
      exact write_safe h fun id hqueues => SmsTable.queues_of_add hqueues
  | update record =>
      refine write_safe h ?_
      intro id hqueues
      exact (SmsTable.queues_of_update hqueues).imp And.left And.right
  | remove id =>
      have hsafe : Once s.passed s.waiting s.table s.toDb := h
      exact ⟨hsafe.settles, hsafe.apart,
        fun id hid hqueues => hsafe.covered id hid (SmsTable.queues_of_remove hqueues)⟩

/-- What is brought was waiting, so it was not passed to `onSend`. -/
theorem sendsOnce_of_safe (h : s.Safe) : s.SendsOnce input := by
  have hsafe : Once s.passed s.waiting s.table s.toDb := h
  intro record hrecord hpassed
  obtain ⟨hbrought, _⟩ := reaction_sends hrecord
  have hwaiting : record ∈ s.waiting := by
    cases input with
    | deliver onDelay accepted =>
        cases onDelay with
        | true => cases hbrought
        | false =>
            simp only [brought] at hbrought
            split at hbrought
            next result rest hmail =>
              split at hbrought
              · rw [waiting, hmail]
                refine List.mem_append_left _ ?_
                exact List.mem_filterMap.mpr ⟨_, List.mem_cons_self, hbrought⟩
              · cases hbrought
            next => cases hbrought
    | callEndedRecently accepted =>
        simp only [brought] at hbrought
        split at hbrought
        next hdelayed =>
          cases hbrought
          refine List.mem_append_right _ ?_
          rw [delayed, if_pos hdelayed]
          exact List.mem_singleton_self _
        next => cases hbrought
    | _ => cases hbrought
  exact hsafe.apart record.ID hpassed record hwaiting rfl

/-! ## Whole runs -/

theorem start_safe (modem : Modem) (table : SmsTable) : (start modem table).Safe where
  settles := fun record hrecord => by cases hrecord
  apart := fun id hid => by cases hid
  covered := fun id hid => by cases hid

/-- In a run where each record that is passed to `onSend` is the only copy that
can reach the handler, none is passed twice. -/
theorem queued_sent_once (modem : Modem) (table : SmsTable) (inputs : List Input)
    (h : EveryStep SoleCopy step (start modem table) inputs) :
    EveryStep SendsOnce step (start modem table) inputs := by
  have hgood : ∀ (s : Services) (input : Input), s.Safe → s.SoleCopy input →
      s.SendsOnce input := fun s input hsafe _ => sendsOnce_of_safe hsafe
  have hinv : ∀ (s : Services) (input : Input), s.Safe → s.SoleCopy input →
      (s.step input).Safe := fun s input => step_safe
  exact (everyStep_of_rule hgood hinv (start_safe modem table) h).1

/-- A modem that works, on a phone that is online. -/
def workingModem : Modem where
  surroundings :=
    { offlineMode := false
      simInitialized := true
      modemResetInProgress := false }
  ready := true

def emptyTable : SmsTable where
  rows := []
  valid := fun row hrow => by cases hrow

/-- A queued message is found, sent and moved to the outbox. -/
theorem queued_sent_once_alone : EveryStep SendsOnce step (start workingModem emptyTable)
    [.create { type := .QUEUED }, .deliver false true, .serve, .deliver false true, .serve,
      .serve, .deliver false true, .deliver false true] :=
  queued_sent_once workingModem emptyTable _ (by decide)

/-- The SIM becomes ready while the search for a queued message is under way:
the second search finds it too, and it is sent twice. -/
theorem queued_sent_twice : ¬EveryStep SendsOnce step (start workingModem emptyTable)
    [.create { type := .QUEUED }, .deliver false true, .simReady false, .serve, .serve,
      .deliver false true, .deliver false true] := by
  intro h
  obtain ⟨_, _, _, _, _, _, htwice, _⟩ := h
  refine htwice { ID := 1, type := .QUEUED } ?_ ?_
  · decide
  · decide

end Services

end MuditaOS.Sms
