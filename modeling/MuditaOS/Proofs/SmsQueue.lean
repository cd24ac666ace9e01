import MuditaOS.Proofs.SmsOnce

/-!
# Messages that stay in the queue

In `Idle` the handler asks for a record when it is notified, in `ProcessQuery`
when it has handled the last. So while a record is queued, a notification must
be on its way to a handler in `Idle`, and an answer to one in `ProcessQuery`. A
modem reset breaks this: the record at hand is skipped, and no answer follows.
`SimReady` repairs it with a search of its own, but only in `ProcessQuery`, and a
notification does not.
-/

namespace MuditaOS.Sms

open Lib Services

namespace SmsTable

variable {table : SmsTable}

/-- A search comes back empty only when nothing is queued. -/
theorem search_none (h : (table.getManyByType .QUEUED 0 1).head? = none) : ¬table.Waits := by
  intro hwaits
  obtain ⟨row, hrow, htype⟩ := hwaits
  have hmem : row ∈ (table.rows.filter (·.type = .QUEUED)).insertionSort (·.date ≤ ·.date) := by
    refine (List.perm_insertionSort _ _).mem_iff.mpr (List.mem_filter.mpr ⟨hrow, ?_⟩)
    exact decide_eq_true htype
  rw [getManyByType, List.head?_eq_none_iff, List.drop_zero] at h
  cases hsorted : (table.rows.filter (·.type = .QUEUED)).insertionSort (·.date ≤ ·.date) with
  | nil =>
      rw [hsorted] at hmem
      cases hmem
  | cons first rest =>
      rw [hsorted] at h
      cases h

theorem waits_of_remove {id : Nat} (h : (table.removeById id).Waits) : table.Waits := by
  obtain ⟨row, hrow, htype⟩ := h
  exact ⟨row, (List.mem_filter.mp hrow).1, htype⟩

end SmsTable

/-- A handler that asks for nothing on a notification waits for an answer. -/
theorem Reacts.quiet_none {w : Surroundings} {state next : HandlerState}
    {effects : List Effect} (h : Reacts w state none next effects) (hquiet : effects = []) :
    state = .ProcessQuery ∧ next = .ProcessQuery := by
  cases h with
  | asks => cases hquiet
  | waits => exact ⟨rfl, rfl⟩

/-- A handler that asks for nothing on a record is in `Idle`, is told that there
are no more, or waits for a reset to end. -/
theorem Reacts.quiet_some {w : Surroundings} {state next : HandlerState}
    {record : SMSRecord} {effects : List Effect}
    (h : Reacts w state (some record) next effects) (hquiet : effects = []) :
    state = .Idle ∧ next = .Idle ∨ ¬record.isValid ∧ next = .Idle ∨
      w.modemResetInProgress = true := by
  cases h with
  | ignores => exact .inl ⟨rfl, rfl⟩
  | ends _ hvalid => exact .inr (.inl ⟨hvalid, rfl⟩)
  | skips _ _ hreset => exact .inr (.inr hreset)
  | fails => cases hquiet
  | sends => cases hquiet

namespace Services

variable {s : Services} {input : Input} {accepted : Bool}

/-! ## What every run keeps -/

/-- Behind an answer that found nothing, what was queued since is announced. -/
def Followed (messages : List Message) (table : SmsTable) : Prop :=
  ∀ rest, .answer none :: rest <:+ messages → table.Waits → .notification ∈ rest

structure Alive (s : Services) : Prop where
  asked : s.heard = true → ¬s.Abandoned
  followed : Followed s.toCellular s.table
  fresh : s.heard = true → s.modem.surroundings.modemResetInProgress = false
  found : ∀ record ∈ s.waiting, record.isValid ∧ record.type = .QUEUED

theorem followed_snoc_notification {messages : List Message} {table : SmsTable} :
    Followed (messages ++ [.notification]) table := by
  intro rest hsuffix _
  rcases List.suffix_concat_iff.mp hsuffix with hnil | ⟨front, heq, _⟩
  · cases hnil
  · cases front with
    | nil => cases heq
    | cons message front =>
        rw [(List.cons.inj heq).2]
        exact List.mem_append_right _ (List.mem_singleton_self _)

theorem followed_snoc_answer {messages : List Message} {table : SmsTable}
    (h : Followed messages table) :
    Followed (messages ++ [.answer (table.getManyByType .QUEUED 0 1).head?]) table := by
  intro rest hsuffix hwaits
  rcases List.suffix_concat_iff.mp hsuffix with hnil | ⟨front, heq, hfront⟩
  · cases hnil
  · cases front with
    | nil =>
        have hnone := Message.answer.inj (List.cons.inj heq).1
        exact absurd hwaits (SmsTable.search_none hnone.symm)
    | cons message front =>
        obtain ⟨hmessage, hrest⟩ := List.cons.inj heq
        rw [hrest]
        rw [← hmessage] at hfront
        exact List.mem_append_left _ (h front hfront hwaits)

theorem followed_tail {message : Message} {rest : List Message} {table : SmsTable}
    (h : Followed (message :: rest) table) : Followed rest table :=
  fun post hsuffix => h post (hsuffix.trans (List.suffix_cons _ _))

/-! ## What the handler asks for -/

/-- Sending and asking leave the table, the messages and the handler. -/
theorem perform_frame {effect : Effect} : (perform accepted s effect).table = s.table ∧
    (perform accepted s effect).toCellular = s.toCellular ∧
    (perform accepted s effect).handler = s.handler := by
  cases effect with
  | onSendQuery query => exact ⟨rfl, rfl, rfl⟩
  | onSend record =>
      simp only [perform, onSendSMS]
      split <;> exact ⟨rfl, rfl, rfl⟩

/-- A reset that sending starts is no news. -/
theorem perform_fresh {effect : Effect}
    (h : s.heard = true → s.modem.surroundings.modemResetInProgress = false) :
    (perform accepted s effect).heard = true →
      (perform accepted s effect).modem.surroundings.modemResetInProgress = false := by
  cases effect with
  | onSendQuery query => exact h
  | onSend record =>
      simp only [perform, onSendSMS]
      split
      · exact h
      · exact fun hheard => Bool.noConfusion hheard

theorem run_frame {result : SMSSendHandler × List Effect} :
    (s.run accepted result).table = s.table ∧
      (s.run accepted result).toCellular = s.toCellular ∧
      (s.run accepted result).handler = result.1 := by
  have hfold : ∀ (effects : List Effect) (base : Services),
      (effects.foldl (perform accepted) base).table = base.table ∧
        (effects.foldl (perform accepted) base).toCellular = base.toCellular ∧
        (effects.foldl (perform accepted) base).handler = base.handler := by
    intro effects
    induction effects with
    | nil => exact fun base => ⟨rfl, rfl, rfl⟩
    | cons effect rest ih =>
        intro base
        obtain ⟨htable, hmessages, hhandler⟩ := ih (perform accepted base effect)
        obtain ⟨htable', hmessages', hhandler'⟩ := perform_frame (s := base)
        exact ⟨htable.trans htable', hmessages.trans hmessages', hhandler.trans hhandler'⟩
  exact hfold result.2 { s with handler := result.1 }

theorem run_fresh {result : SMSSendHandler × List Effect}
    (h : s.heard = true → s.modem.surroundings.modemResetInProgress = false) :
    (s.run accepted result).heard = true →
      (s.run accepted result).modem.surroundings.modemResetInProgress = false := by
  have hfold : ∀ (effects : List Effect) (base : Services),
      (base.heard = true → base.modem.surroundings.modemResetInProgress = false) →
      (effects.foldl (perform accepted) base).heard = true →
        (effects.foldl (perform accepted) base).modem.surroundings.modemResetInProgress =
          false := by
    intro effects
    induction effects with
    | nil => exact fun base hbase => hbase
    | cons effect rest ih => exact fun base hbase => ih _ (perform_fresh hbase)
  exact hfold result.2 { s with handler := result.1 } h

/-- A handler that asks for anything leaves no record abandoned: in
`ProcessQuery` the search is outstanding, in `Idle` the update will be
announced. -/
theorem run_asked {w : Surroundings} {handler : SMSSendHandler} {effects : List Effect}
    {state next : HandlerState} {result : Option SMSRecord}
    (hreacts : Reacts w state result next effects) (hnext : handler.currentState = next)
    (hquiet : effects = [] → s.heard = true → ¬{ s with handler := handler }.Abandoned) :
    (s.run accepted (handler, effects)).heard = true →
      ¬(s.run accepted (handler, effects)).Abandoned := by
  have hsearch : ∀ base : Services, base.handler.currentState = .ProcessQuery →
      ¬(base.request .SMSSearchByType).Abandoned := by
    intro base hstate habandoned
    exact habandoned.2.2 hstate (.inl (List.mem_append_right _ (List.mem_singleton_self _)))
  cases hreacts with
  | asks => exact fun _ => hsearch { s with handler := handler } hnext
  | ignores record => exact hquiet rfl
  | waits => exact hquiet rfl
  | ends record hvalid => exact hquiet rfl
  | skips record hvalid hreset => exact hquiet rfl
  | fails record hvalid hreset =>
      intro _ habandoned
      refine habandoned.2.1 (.inr ?_)
      exact List.any_eq_true.mpr ⟨_, List.mem_append_right _ (List.mem_singleton_self _), rfl⟩
  | sends record hvalid hreset honline hsim =>
      intro _
      refine hsearch (Services.onSendSMS { s with handler := handler } accepted record) ?_
      rw [onSendSMS_handler]
      exact hnext

theorem run_waiting {result : SMSSendHandler × List Effect} :
    (s.run accepted result).waiting = { s with handler := result.1 }.waiting := by
  obtain ⟨_, hmessages, hhandler⟩ := @run_frame s accepted result
  rw [waiting, waiting, delayed, delayed, hmessages, hhandler]

theorem run_alive {w : Surroundings} {handler : SMSSendHandler} {effects : List Effect}
    {state next : HandlerState} {result : Option SMSRecord}
    (hreacts : Reacts w state result next effects) (hnext : handler.currentState = next)
    (hquiet : effects = [] → s.heard = true → ¬{ s with handler := handler }.Abandoned)
    (hfollowed : Followed s.toCellular s.table)
    (hfresh : s.heard = true → s.modem.surroundings.modemResetInProgress = false)
    (hfound : ∀ record ∈ { s with handler := handler }.waiting,
      record.isValid ∧ record.type = .QUEUED) :
    (s.run accepted (handler, effects)).Alive where
  asked := run_asked hreacts hnext hquiet
  followed := by
    obtain ⟨htable, hmessages, _⟩ := run_frame (s := s)
    rw [htable, hmessages]
    exact hfollowed
  fresh := run_fresh hfresh
  found := by
    rw [run_waiting]
    exact hfound

/-! ## One input -/

theorem serve_alive (h : s.Alive) : s.serve.Alive := by
  rw [serve]
  split
  next => exact h
  next rest hqueries =>
    refine ⟨?_, followed_snoc_answer h.followed, h.fresh, ?_⟩
    · intro hheard habandoned
      obtain ⟨hwaits, hannounced, hasked⟩ := habandoned
      have hanswer : (s.toCellular ++
          [Message.answer (s.table.getManyByType .QUEUED 0 1).head?]).any isAnswer = true := by
        rw [List.any_append]
        exact Bool.or_true _
      -- the answer is outstanding, so the handler is in `Idle`
      refine h.asked hheard ⟨hwaits, ?_, fun hstate => absurd (.inr (.inl hanswer)) (hasked hstate)⟩
      intro hold
      refine hannounced (hold.imp (List.mem_append_left _) ?_)
      rw [hqueries]
      exact fun hupdate => hupdate
    · intro record hrecord
      rcases mem_waiting_answer hrecord with hold | hnew
      · exact h.found record hold
      · obtain ⟨hrow, htype⟩ := SmsTable.mem_search hnew
        exact ⟨s.table.valid record hrow, htype⟩
  next record rest hqueries =>
    refine ⟨?_, followed_snoc_notification, h.fresh, ?_⟩
    · intro _ habandoned
      exact habandoned.2.1 (.inl (List.mem_append_right _ (List.mem_singleton_self _)))
    · rw [notify_waiting]
      exact h.found

/-- What the message taken from the mailbox was worth to a handler in `Idle`. -/
theorem announced_tail {result : Option SMSRecord} {rest : List Message}
    (hmail : s.toCellular = .answer result :: rest) (h : s.Announced) :
    { s with toCellular := rest }.Announced := by
  refine h.imp_left ?_
  intro hmem
  rw [hmail] at hmem
  exact (List.mem_cons.mp hmem).resolve_left Message.noConfusion

/-- In `Idle` a queued record is announced, or nothing was heard yet. -/
theorem Alive.announced (h : s.Alive) (hidle : s.handler.currentState = .Idle)
    (hheard : s.heard = true) (hwaits : s.table.Waits) : s.Announced := by
  refine Classical.byContradiction fun hannounced => ?_
  refine h.asked hheard ⟨hwaits, hannounced, fun hprocess => ?_⟩
  rw [hidle] at hprocess
  cases hprocess

theorem notified_alive {rest : List Message} {onDelay : Bool} (h : s.Alive)
    (hmail : s.toCellular = .notification :: rest)
    (hheeded : s.Heeded (.deliver onDelay accepted)) :
    (({ s with toCellular := rest }.heed .notification).run accepted
      (s.receive .notification onDelay)).Alive := by
  refine run_alive SMSSendHandler.handleStateChange_reacts rfl ?_
    (followed_tail (hmail ▸ h.followed)) ?_ ?_
  · intro hquiet hheard habandoned
    have hreset : s.modem.surroundings.modemResetInProgress = false := by
      simpa [heed, hear] using hheard
    obtain ⟨hstate, hnext⟩ :=
      (SMSSendHandler.handleStateChange_reacts (h := s.handler)).quiet_none hquiet
    have hnot := (hheeded hreset).1
    simp only [taken, hmail, List.head?_cons, List.tail_cons] at hnot
    exact hnot trivial hstate ⟨habandoned.1, habandoned.2.1, fun _ => habandoned.2.2 hnext⟩
  · intro hheard
    simpa [heed, hear] using hheard
  · intro record hrecord
    refine h.found record ?_
    rw [waiting, hmail]
    exact List.mem_append.mpr ((List.mem_append.mp hrecord).imp_left (mem_answers_cons _))

theorem answered_alive {rest : List Message} {result : Option SMSRecord} {onDelay : Bool}
    (h : s.Alive) (hmail : s.toCellular = .answer result :: rest)
    (hheeded : s.Heeded (.deliver onDelay accepted)) :
    (({ s with toCellular := rest }.heed (.answer result)).run accepted
      (s.receive (.answer result) onDelay)).Alive := by
  have hfollowed : Followed (.answer result :: rest) s.table := hmail ▸ h.followed
  have hfound : ∀ record ∈ answers rest ++ s.delayed,
      record.isValid ∧ record.type = .QUEUED := by
    intro record hrecord
    refine h.found record ?_
    rw [waiting, hmail]
    exact List.mem_append.mpr ((List.mem_append.mp hrecord).imp_left (mem_answers_cons _))
  have hresult : ∀ record, result = some record → record.isValid ∧ record.type = .QUEUED := by
    intro record hrecord
    refine h.found record ?_
    rw [waiting, hmail]
    refine List.mem_append_left _ (List.mem_filterMap.mpr ⟨_, List.mem_cons_self, ?_⟩)
    exact hrecord
  have hannounced : s.handler.currentState = .Idle → s.heard = true → s.table.Waits →
      { s with toCellular := rest }.Announced :=
    fun hidle hheard hwaits => announced_tail hmail (h.announced hidle hheard hwaits)
  simp only [heed, receive]
  rcases answered_cases s result onDelay with
    ⟨heq, hdropped⟩ | ⟨_, _, record, hrecord, heq⟩ | ⟨_, _, heq⟩
  · rw [heq]
    refine ⟨?_, followed_tail hfollowed, h.fresh, hfound⟩
    rcases hdropped with hready | ⟨record, hrecord, htype⟩
    · intro hheard
      have hnot := (hheeded (h.fresh hheard)).2
      simp only [taken, hmail, List.head?_cons, List.tail_cons] at hnot
      exact hnot rfl hready hheard
    · exact absurd (hresult record hrecord).2 htype
  · rw [heq]
    refine ⟨?_, followed_tail hfollowed, h.fresh, ?_⟩
    · intro hheard habandoned
      cases hstate : s.handler.currentState with
      | Idle => exact habandoned.2.1 (hannounced hstate hheard habandoned.1)
      | ProcessQuery => exact habandoned.2.2 hstate (.inr (.inr rfl))
    · intro other hother
      rcases List.mem_append.mp hother with hold | hnew
      · exact hfound other (List.mem_append_left _ hold)
      · rw [List.mem_singleton.mp hnew]
        exact hresult record hrecord
  · rw [heq]
    refine run_alive SMSSendHandler.handleStateChange_reacts rfl ?_ (followed_tail hfollowed)
      h.fresh hfound
    intro hquiet hheard habandoned
    rcases (SMSSendHandler.handleStateChange_reacts (h := s.handler)).quiet_some hquiet with
      ⟨hidle, _⟩ | ⟨hvalid, hnext⟩ | hreset
    · exact habandoned.2.1 (hannounced hidle hheard habandoned.1)
    · -- an invalid record stands for an empty answer
      cases result with
      | none => exact habandoned.2.1 (.inl (hfollowed rest (List.suffix_refl _) habandoned.1))
      | some record => exact absurd (hresult record rfl).1 hvalid
    · rw [h.fresh hheard] at hreset
      cases hreset

theorem deliver_alive {onDelay : Bool} (h : s.Alive)
    (hheeded : s.Heeded (.deliver onDelay accepted)) :
    (s.deliver onDelay accepted).Alive := by
  rw [deliver]
  cases hmail : s.toCellular with
  | nil => exact h
  | cons message rest =>
      have hreaction : s.reaction (.deliver onDelay accepted) = s.receive message onDelay := by
        simp only [reaction, hmail]
      simp only [hreaction]
      cases message with
      | notification => exact notified_alive h hmail hheeded
      | answer result => exact answered_alive h hmail hheeded

theorem callEndedRecently_alive (h : s.Alive) : (s.callEndedRecently accepted).Alive := by
  rw [callEndedRecently, reaction, SMSSendHandler.sendMessageIfDelayed]
  split
  next hdelayed =>
    have hmem : s.handler.actionOnDelay ∈ s.waiting := by
      refine List.mem_append_right _ ?_
      rw [delayed, if_pos hdelayed]
      exact List.mem_singleton_self _
    have hreacts := @SMSSendHandler.handleStateChange_reacts s.modem.surroundings
      { s.handler with delayedMessage := false } (some s.handler.actionOnDelay)
    refine run_alive hreacts rfl ?_ h.followed h.fresh ?_
    · intro hquiet hheard habandoned
      rcases hreacts.quiet_some hquiet with ⟨hidle, _⟩ | ⟨hvalid, _⟩ | hreset
      · exact habandoned.2.1 (h.announced hidle hheard habandoned.1)
      · exact hvalid (h.found _ hmem).1
      · rw [h.fresh hheard] at hreset
        cases hreset
    · intro record hrecord
      have hanswers : record ∈ answers s.toCellular ++ [] := hrecord
      rw [List.append_nil] at hanswers
      exact h.found record (List.mem_append_left _ hanswers)
  next hdelayed => exact h

theorem simReady_alive {functionalityResetNeeded : Bool} (h : s.Alive)
    (hheeded : s.Heeded (.simReady functionalityResetNeeded)) :
    (s.simReady functionalityResetNeeded).Alive := by
  have hhear : s.hear.heard = true → s.modem.surroundings.modemResetInProgress = false := by
    intro hheard
    simpa [hear] using hheard
  cases functionalityResetNeeded with
  | true => exact ⟨fun hheard => Bool.noConfusion hheard, h.followed,
      fun hheard => Bool.noConfusion hheard, h.found⟩
  | false =>
      rw [simReady, if_neg Bool.false_ne_true, reaction]
      by_cases hready : s.modem.ready = true
      · rw [if_pos hready]
        refine ⟨?_, h.followed, hhear, h.found⟩
        intro hheard habandoned
        obtain ⟨hwaits, hannounced, hasked⟩ := habandoned
        cases hstate : s.handler.currentState with
        | Idle =>
            refine hheeded (hhear hheard) (.inl hstate) ⟨hwaits, ?_, ?_⟩
            · intro hold
              refine hannounced (hold.imp_right fun hany => ?_)
              exact List.any_append.trans (Bool.or_eq_true_iff.mpr (.inl hany))
            · intro hprocess
              rw [hstate] at hprocess
              cases hprocess
        | ProcessQuery =>
            exact hasked hstate
              (.inl (List.mem_append_right _ (List.mem_singleton_self _)))
      · rw [if_neg hready]
        refine ⟨?_, h.followed, hhear, h.found⟩
        exact fun hheard => hheeded (hhear hheard) (.inr (eq_false_of_ne_true hready))

theorem write_alive {table : SmsTable} {written : Nat} (h : s.Alive) :
    (s.write table written).Alive := by
  refine ⟨?_, followed_snoc_notification, h.fresh, ?_⟩
  · intro _ habandoned
    exact habandoned.2.1 (.inl (List.mem_append_right _ (List.mem_singleton_self _)))
  · rw [write, notify_waiting]
    exact h.found

theorem step_alive (h : s.Alive) (hheeded : s.Heeded input) : (s.step input).Alive := by
  cases input with
  | serve => exact serve_alive h
  | deliver onDelay accepted => exact deliver_alive h hheeded
  | callEndedRecently accepted => exact callEndedRecently_alive h
  | simReady functionalityResetNeeded => exact simReady_alive h hheeded
  | modem modem =>
      refine ⟨?_, h.followed, ?_, h.found⟩
      · exact fun hheard => h.asked (Bool.and_eq_true_iff.mp hheard).1
      · intro hheard
        have hreset := (Bool.and_eq_true_iff.mp hheard).2
        change modem.surroundings.modemResetInProgress = false
        simpa using hreset
  | create record => exact write_alive h
  | update record => exact write_alive h
  | remove id =>
      refine ⟨?_, ?_, h.fresh, h.found⟩
      · intro hheard habandoned
        exact h.asked hheard ⟨SmsTable.waits_of_remove habandoned.1, habandoned.2⟩
      · exact fun rest hrest hwaits =>
          h.followed rest hrest (SmsTable.waits_of_remove hwaits)

/-- In a quiet system nothing is announced or outstanding. -/
theorem Alive.noneForgotten (h : s.Alive) : s.NoneForgotten := by
  intro hquiet _ _ _ hheard hwaits
  obtain ⟨hqueries, hmessages, hdelayed⟩ := hquiet
  refine h.asked hheard ⟨hwaits, ?_, fun _ => ?_⟩
  · rw [Announced, hqueries, hmessages]
    exact fun h => h.elim List.not_mem_nil Bool.noConfusion
  · rw [Outstanding, hqueries, hmessages, hdelayed]
    exact fun h => h.elim List.not_mem_nil fun h => h.elim Bool.noConfusion Bool.noConfusion

/-! ## Whole runs -/

theorem start_alive (modem : Modem) (table : SmsTable) : (start modem table).Alive := by
  refine ⟨fun hheard => Bool.noConfusion hheard, ?_, fun hheard => Bool.noConfusion hheard, ?_⟩
  · intro rest hsuffix
    cases List.suffix_nil.mp hsuffix
  · intro record hrecord
    cases hrecord

/-- In a run where the service does not hear of the database or of the SIM in
vain, every state that is reached forgets no queued record. -/
theorem queued_not_forgotten (modem : Modem) (table : SmsTable) (inputs : List Input)
    (h : EveryStep Heeded step (start modem table) inputs) :
    (inputs.foldl step (start modem table)).NoneForgotten := by
  have hgood : ∀ (s : Services) (input : Input), s.Alive → s.Heeded input → True :=
    fun _ _ _ _ => trivial
  have hinv : ∀ (s : Services) (input : Input), s.Alive → s.Heeded input →
      (s.step input).Alive := fun s input => step_alive
  exact (everyStep_of_rule hgood hinv (start_alive modem table) h).2.noneForgotten

/-- A modem that is being reset. -/
def resetModem : Modem where
  surroundings :=
    { offlineMode := false
      simInitialized := true
      modemResetInProgress := true }
  ready := false

/-- The answer is lost to a reset, and `SimReady` asks for it once more. -/
theorem queued_not_forgotten_simReady : ([.create { type := .QUEUED }, .deliver false true,
    .serve, .modem resetModem, .deliver false true, .modem workingModem, .simReady false,
    .serve, .deliver false true, .serve, .serve, .deliver false true,
    .deliver false true].foldl step (start workingModem emptyTable)).NoneForgotten :=
  queued_not_forgotten workingModem emptyTable _ (by decide)

/-- The answer is lost to a reset, and the notification of another message does
not make the handler ask again. -/
theorem queued_forgotten : ¬([.create { type := .QUEUED }, .deliver false true, .serve,
    .modem resetModem, .deliver false true, .modem workingModem, .create { type := .INBOX },
    .deliver false true].foldl step (start workingModem emptyTable)).NoneForgotten := by
  intro h
  refine h ⟨?_, ?_, ?_⟩ rfl rfl rfl ?_ ?_ <;> decide

end Services

end MuditaOS.Sms
