import MuditaOS.Time.AlarmSession

/-!
# The alarm cache follows the table

A scan of the records keeps their earliest events, so a refresh makes the cache
agree. Where a call does not refresh, the records it touches contribute nothing
up to the date the cache waits for, before or after.
-/

namespace MuditaOS.Alarms

open Lib

variable {cal : Calendar} {now : TimePoint}

/-! ## A refresh -/

theorem occurrence_eq_some {record : AlarmEventRecord} {event : SingleEventRecord} :
    occurrence cal now record = some event ↔
      event.startDate ≠ TIME_POINT_INVALID ∧
        record.getNextSingleEvent cal now = event := by
  rw [occurrence]
  split
  · next h =>
      refine ⟨fun hn => by simp at hn, ?_⟩
      intro ⟨hvalid, heq⟩
      exact absurd (heq ▸ h) hvalid
  · next h =>
      rw [Option.some.injEq]
      refine ⟨fun heq => ⟨heq ▸ h, heq⟩, fun heq => heq.2⟩

theorem occurrence_parent {record : AlarmEventRecord} {event : SingleEventRecord}
    (h : occurrence cal now record = some event) : event.parent = record := by
  obtain ⟨-, rfl⟩ := occurrence_eq_some.1 h
  rfl

/-- The scan, once it holds the earliest events of what it has seen. -/
theorem collectEvents_eq (records : List AlarmEventRecord) :
    ∀ (seen : List SingleEventRecord) (front : SingleEventRecord)
      (rest : List SingleEventRecord),
      earliest SingleEventRecord.startDate seen = front :: rest →
      collectEvents cal now (front :: rest) records =
        earliest SingleEventRecord.startDate
          (seen ++ records.filterMap (occurrence cal now)) := by
  induction records with
  | nil =>
      intro seen front rest h
      rw [collectEvents, List.filterMap_nil, List.append_nil, h]
  | cons record records ih =>
      intro seen front rest h
      by_cases hvalid :
          (record.getNextSingleEvent cal now).startDate = TIME_POINT_INVALID
      · have hnone : occurrence cal now record = none := if_pos hvalid
        rw [collectEvents, List.filterMap_cons, hnone]
        simp only [hvalid, ne_eq, not_true_eq_false, if_false]
        exact ih seen front rest h
      · have hsome : occurrence cal now record =
            some (record.getNextSingleEvent cal now) := if_neg hvalid
        have hscan := @earliest_append_singleton _ _ _ _ _ _
          (record.getNextSingleEvent cal now) _ h
        rw [collectEvents, List.filterMap_cons, hsome]
        simp only [hvalid, ne_eq, not_false_eq_true, if_true]
        rw [List.append_cons seen]
        split
        · next hlt =>
            rw [if_pos hlt] at hscan
            exact ih _ _ _ hscan
        · next hlt =>
            rw [if_neg hlt] at hscan
            split
            · next heq =>
                rw [if_pos heq] at hscan
                exact ih _ _ _ hscan
            · next heq =>
                rw [if_neg heq] at hscan
                exact ih _ _ _ hscan

/-- The answer of the repository becomes the earliest events, if its first
record has one. -/
theorem onRepoGetAlarmsResponse_eq {table : AlarmEventsTable}
    (h : AlarmSession.FirstOccurs cal now table) :
    onRepoGetAlarmsResponse cal now table.getEnabled = nextEvents cal now table := by
  rw [onRepoGetAlarmsResponse, nextEvents, upcoming]
  rw [AlarmSession.FirstOccurs] at h
  cases hrecords : table.getEnabled with
  | nil => rfl
  | cons record records =>
      rw [hrecords] at h
      obtain ⟨event, hevent⟩ := Option.isSome_iff_exists.1 (h record rfl)
      obtain ⟨-, rfl⟩ := occurrence_eq_some.1 hevent
      rw [collectEvents, List.filterMap_cons, hevent]
      refine collectEvents_eq records [record.getNextSingleEvent cal now] _ _ ?_
      simp [earliest]

theorem updateEventsCache_agrees {ops : AlarmOperationsCommon}
    (h : AlarmSession.FirstOccurs cal now ops.alarmEventsRepo) :
    (ops.updateEventsCache cal now).nextSingleEvents =
      nextEvents cal now ops.alarmEventsRepo :=
  onRepoGetAlarmsResponse_eq h

/-! ## Calls that do not refresh -/

/-- What a row adds to the events up to the date of `front`. -/
def contribution (cal : Calendar) (now : TimePoint) (front : List SingleEventRecord)
    (row : AlarmEventRecord) : Option SingleEventRecord :=
  if row.enabled then
    (occurrence cal now row).filter (within SingleEventRecord.startDate front)
  else none

theorem upcoming_filter (table : AlarmEventsTable) (front : List SingleEventRecord) :
    (upcoming cal now table).filter (within SingleEventRecord.startDate front) =
      table.rows.filterMap (contribution cal now front) := by
  rw [upcoming, AlarmEventsTable.getEnabled, List.filter_filterMap,
    List.filterMap_filter]
  rfl

theorem contribution_eq_none {front : List SingleEventRecord}
    {row : AlarmEventRecord}
    (h : ∀ event, row.enabled → occurrence cal now row = some event →
      within SingleEventRecord.startDate front event = false) :
    contribution cal now front row = none := by
  rw [contribution]
  split
  · next henabled =>
      cases hrow : occurrence cal now row with
      | none => rfl
      | some event => rw [Option.filter, h event henabled hrow]; rfl
  · rfl

/-- A row that contributes is one the cache waits for. -/
theorem contribution_cached {table : AlarmEventsTable} {row : AlarmEventRecord}
    {event : SingleEventRecord} (hrow : row ∈ table.rows)
    (h : contribution cal now (nextEvents cal now table) row = some event) :
    event ∈ nextEvents cal now table ∧ event.parent = row := by
  have hmem : event ∈ (upcoming cal now table).filter
      (within SingleEventRecord.startDate (nextEvents cal now table)) := by
    rw [upcoming_filter]
    exact List.mem_filterMap.2 ⟨row, hrow, h⟩
  obtain ⟨hup, hwithin⟩ := List.mem_filter.1 hmem
  refine ⟨mem_earliest_of_within hup hwithin, ?_⟩
  rw [contribution] at h
  split at h
  · exact occurrence_parent (Option.eq_some_of_filter_eq_some h)
  · simp at h

theorem not_cached {table : AlarmEventsTable} {row : AlarmEventRecord} {id : Nat}
    (hfind : (findSingleEventById (nextEvents cal now table) id).isSome = false)
    (hrow : row ∈ table.rows) (hid : row.ID = id) :
    contribution cal now (nextEvents cal now table) row = none := by
  cases h : contribution cal now (nextEvents cal now table) row with
  | none => rfl
  | some event =>
      obtain ⟨hmem, hparent⟩ := contribution_cached hrow h
      have : (findSingleEventById (nextEvents cal now table) id).isSome := by
        rw [findSingleEventById, List.find?_isSome]
        exact ⟨event, hmem, by rw [hparent, hid]; simp⟩
      rw [hfind] at this
      exact absurd this (by simp)

theorem not_entering {ops : AlarmOperationsCommon} {record : AlarmEventRecord}
    (hahead : record.enabled → AlarmSession.Ahead cal now record)
    (henters : ops.entersCache cal now record = false) :
    ∀ event, record.enabled → occurrence cal now record = some event →
      within SingleEventRecord.startDate ops.nextSingleEvents event = false := by
  intro event henabled hocc
  obtain ⟨hvalid, hlater⟩ := hahead henabled event hocc
  obtain ⟨-, rfl⟩ := occurrence_eq_some.1 hocc
  rw [AlarmOperationsCommon.entersCache] at henters
  simp only [hvalid, hlater, henabled, decide_true, Bool.true_and] at henters
  cases hcache : ops.nextSingleEvents with
  | nil => rw [hcache] at henters; exact henters
  | cons front rest => rw [hcache] at henters; exact henters

/-! ## Time passing -/

theorem waiting_upcoming {s : AlarmSession} (h : s.Waiting cal now) :
    upcoming cal now s.ops.alarmEventsRepo =
      upcoming cal s.time s.ops.alarmEventsRepo := by
  refine List.filterMap_congr fun record hrecord => ?_
  have hdate := (h record hrecord).1
  have hevent : record.getNextSingleEvent cal now =
      record.getNextSingleEvent cal s.time := by
    rw [AlarmEventRecord.getNextSingleEvent, AlarmEventRecord.getNextSingleEvent]
    exact congrArg (fun date => SingleEventRecord.mk record date _ _) hdate
  rw [occurrence, occurrence, hevent]

/-- A call that leaves the cache alone keeps it in agreement, if the rows it
changes contribute nothing before and after. -/
theorem agrees_of_rows {s : AlarmSession} {table : AlarmEventsTable}
    (hagrees : s.Agrees cal) (hwaiting : s.Waiting cal now)
    (hrows : table.rows.filterMap
        (contribution cal now (nextEvents cal now s.ops.alarmEventsRepo)) =
      s.ops.alarmEventsRepo.rows.filterMap
        (contribution cal now (nextEvents cal now s.ops.alarmEventsRepo))) :
    s.ops.nextSingleEvents = nextEvents cal now table := by
  rw [AlarmSession.Agrees, nextEvents, ← waiting_upcoming hwaiting] at hagrees
  rw [hagrees]
  refine (earliest_congr ?_).symm
  rw [← upcoming_filter, ← upcoming_filter] at hrows
  exact hrows

theorem agrees_now {s : AlarmSession} (hagrees : s.Agrees cal)
    (hwaiting : s.Waiting cal now) :
    s.ops.nextSingleEvents = nextEvents cal now s.ops.alarmEventsRepo :=
  agrees_of_rows hagrees hwaiting rfl

theorem not_reached {s : AlarmSession} (hwaiting : s.Waiting cal now)
    {event : SingleEventRecord}
    (h : event ∈ upcoming cal s.time s.ops.alarmEventsRepo) :
    now < event.startDate := by
  obtain ⟨record, hrecord, hocc⟩ := List.mem_filterMap.1 h
  exact (hwaiting record hrecord).2 event hocc

theorem cached_upcoming {s : AlarmSession} (hagrees : s.Agrees cal)
    {event : SingleEventRecord} (h : event ∈ s.ops.nextSingleEvents) :
    event ∈ upcoming cal s.time s.ops.alarmEventsRepo := by
  rw [AlarmSession.Agrees, nextEvents] at hagrees
  rw [hagrees] at h
  exact (mem_earliest.1 h).1

theorem due_iff {ops : AlarmOperationsCommon} :
    ops.due now = true ↔
      ∃ front rest, ops.nextSingleEvents = front :: rest ∧ front.startDate ≤ now := by
  rw [AlarmOperationsCommon.due]
  cases ops.nextSingleEvents with
  | nil => simp
  | cons front rest => simp

theorem waiting_not_due {s : AlarmSession} (hagrees : s.Agrees cal)
    (hwaiting : s.Waiting cal now) : s.ops.due now = false := by
  refine Bool.eq_false_iff.2 fun hdue => ?_
  obtain ⟨front, rest, hcache, hle⟩ := due_iff.1 hdue
  have hfront := cached_upcoming hagrees (hcache ▸ List.mem_cons_self)
  exact absurd (not_reached hwaiting hfront) (not_lt.2 hle)

/-! ## One call -/

theorem addAlarm_agrees {s : AlarmSession} {record : AlarmEventRecord}
    (hagrees : s.Agrees cal) (hwaiting : s.Waiting cal now)
    (hahead : record.enabled → AlarmSession.Ahead cal now record)
    (hfirst : s.ops.entersCache cal now record →
      AlarmSession.FirstOccurs cal now (s.ops.alarmEventsRepo.add record)) :
    (s.ops.addAlarm cal now record).nextSingleEvents =
      nextEvents cal now (s.ops.alarmEventsRepo.add record) := by
  rw [AlarmOperationsCommon.addAlarm, AlarmOperationsCommon.checkAndUpdateCache]
  split
  · next henters => exact updateEventsCache_agrees (hfirst henters)
  · next henters =>
      refine agrees_of_rows hagrees hwaiting ?_
      rw [AlarmEventsTable.add, List.filterMap_append]
      have hnone : contribution cal now (nextEvents cal now s.ops.alarmEventsRepo)
          { record with ID := s.ops.alarmEventsRepo.nextId } = none := by
        refine contribution_eq_none fun event henabled hocc => ?_
        -- The id of the stored row plays no part in when it occurs.
        have hdate : occurrence cal now record =
            some { event with parent := record } := by
          obtain ⟨hvalid, rfl⟩ := occurrence_eq_some.1 hocc
          exact occurrence_eq_some.2 ⟨hvalid, rfl⟩
        rw [← agrees_now hagrees hwaiting]
        have hlater := not_entering hahead (Bool.eq_false_iff.2 henters) _
          henabled hdate
        exact hlater
      rw [List.filterMap_cons, hnone, List.filterMap_nil, List.append_nil]

theorem updateAlarm_agrees {s : AlarmSession} {record : AlarmEventRecord}
    (hagrees : s.Agrees cal) (hwaiting : s.Waiting cal now)
    (hahead : record.enabled → AlarmSession.Ahead cal now record)
    (hfirst : (findSingleEventById s.ops.nextSingleEvents record.ID).isSome ∨
        s.ops.entersCache cal now record →
      AlarmSession.FirstOccurs cal now (s.ops.alarmEventsRepo.update record)) :
    (s.ops.updateAlarm cal now record).nextSingleEvents =
      nextEvents cal now (s.ops.alarmEventsRepo.update record) := by
  rw [AlarmOperationsCommon.updateAlarm]
  split
  · next hfound => exact updateEventsCache_agrees (hfirst (.inl hfound))
  · next hfound =>
      rw [AlarmOperationsCommon.checkAndUpdateCache]
      split
      · next henters => exact updateEventsCache_agrees (hfirst (.inr henters))
      · next henters =>
          refine agrees_of_rows hagrees hwaiting ?_
          rw [agrees_now hagrees hwaiting] at hfound
          rw [AlarmEventsTable.update, List.filterMap_map]
          refine List.filterMap_congr fun row hrow => ?_
          by_cases hid : row.ID = record.ID
          · rw [Function.comp_apply, if_pos hid,
              not_cached (Bool.eq_false_iff.2 hfound) hrow hid]
            refine contribution_eq_none ?_
            rw [← agrees_now hagrees hwaiting]
            exact not_entering hahead (Bool.eq_false_iff.2 henters)
          · rw [Function.comp_apply, if_neg hid]

theorem removeAlarm_agrees {s : AlarmSession} {alarmId : Nat}
    (hagrees : s.Agrees cal) (hwaiting : s.Waiting cal now)
    (hfound : (findSingleEventById s.ops.nextSingleEvents alarmId).isSome →
      s.ops.nextSingleEvents.length = 1 ∧
        AlarmSession.FirstOccurs cal now
          (s.ops.alarmEventsRepo.removeById alarmId)) :
    (s.ops.removeAlarm cal now alarmId).nextSingleEvents =
      nextEvents cal now (s.ops.alarmEventsRepo.removeById alarmId) := by
  rw [AlarmOperationsCommon.removeAlarm]
  split
  · next hrefresh => exact updateEventsCache_agrees (hfound hrefresh.1).2
  · next hrefresh =>
      have hfind :
          ¬ (findSingleEventById s.ops.nextSingleEvents alarmId).isSome := by
        intro hsome
        exact hrefresh ⟨hsome, (hfound hsome).1⟩
      rw [agrees_now hagrees hwaiting] at hfind
      refine agrees_of_rows hagrees hwaiting ?_
      rw [AlarmEventsTable.removeById, List.filterMap_filter]
      refine List.filterMap_congr fun row hrow => ?_
      by_cases hid : row.ID = alarmId
      · rw [if_neg (by simpa using hid),
          not_cached (Bool.eq_false_iff.2 hfind) hrow hid]
      · rw [if_pos (by simpa using hid)]

theorem processNextEventsQueue_agrees {s : AlarmSession} (hagrees : s.Agrees cal)
    (h : s.Waiting cal now ∨ s.OneDateReached cal now ∧
      AlarmSession.FirstOccurs cal now s.ops.alarmEventsRepo) :
    (s.ops.processNextEventsQueue cal now).nextSingleEvents =
      nextEvents cal now s.ops.alarmEventsRepo := by
  rw [AlarmOperationsCommon.processNextEventsQueue]
  rcases h with hwaiting | ⟨hreached, hfirst⟩
  · rw [if_neg (by rw [waiting_not_due hagrees hwaiting]; simp)]
    exact agrees_now hagrees hwaiting
  · rw [if_pos hreached.1]
    split
    · exact updateEventsCache_agrees hfirst
    · exact updateEventsCache_agrees hfirst

/-! ## What rings does not touch the cache -/

/-- The parts of the operations that ringing and snoozing leave alone. -/
def SameCache (before after : AlarmOperationsCommon) : Prop :=
  after.alarmEventsRepo = before.alarmEventsRepo ∧
  after.nextSingleEvents = before.nextSingleEvents ∧
  after.isCriticalBatteryLevel = before.isCriticalBatteryLevel

theorem SameCache.trans {a b c : AlarmOperationsCommon} (hab : SameCache a b)
    (hbc : SameCache b c) : SameCache a c :=
  ⟨hbc.1.trans hab.1, hbc.2.1.trans hab.2.1, hbc.2.2.trans hab.2.2⟩

theorem snoozeFront_same {env : Surroundings} {front : OngoingEvent}
    {handled : Bool} {rest : List OngoingEvent} {ops : AlarmOperationsCommon} :
    SameCache ops (ops.snoozeFront env front handled rest) := by
  rw [AlarmOperationsCommon.snoozeFront]
  cases handled <;> exact ⟨rfl, rfl, rfl⟩

theorem snoozeOngoing_same {env : Surroundings} (ongoing : List OngoingEvent) :
    ∀ {ops : AlarmOperationsCommon},
      SameCache ops (AlarmOperationsCommon.snoozeOngoing env ongoing ops) := by
  induction ongoing with
  | nil => intro ops; exact ⟨rfl, rfl, rfl⟩
  | cons front rest ih =>
      intro ops
      rw [AlarmOperationsCommon.snoozeOngoing]
      have htold : ∀ tells : Bool, SameCache ops
          (if tells then ops.notify .alarmDuringPhoneCall else ops) := by
        intro tells
        cases tells <;> exact ⟨rfl, rfl, rfl⟩
      exact ((htold _).trans snoozeFront_same).trans ih

theorem processOngoingEvents_same {env : Surroundings}
    {ops : AlarmOperationsCommon} : SameCache ops (ops.processOngoingEvents env) := by
  rw [AlarmOperationsCommon.processOngoingEvents]
  split
  · exact ⟨rfl, rfl, rfl⟩
  · split
    · exact snoozeOngoing_same _
    · exact ⟨rfl, rfl, rfl⟩

theorem minuteUpdated_same {env : Surroundings} {ops : AlarmOperationsCommon} :
    SameCache (ops.processNextEventsQueue cal now)
      (ops.minuteUpdated cal env now) := by
  rw [AlarmOperationsCommon.minuteUpdated]
  have hwoken : SameCache (ops.processNextEventsQueue cal now)
      ((ops.processNextEventsQueue cal now).processSnoozedEventsQueue now) :=
    ⟨rfl, rfl, rfl⟩
  split
  · exact hwoken
  · exact hwoken.trans processOngoingEvents_same

theorem processNextEventsQueue_repo {ops : AlarmOperationsCommon} :
    (ops.processNextEventsQueue cal now).alarmEventsRepo = ops.alarmEventsRepo ∧
      (ops.processNextEventsQueue cal now).isCriticalBatteryLevel =
        ops.isCriticalBatteryLevel := by
  rw [AlarmOperationsCommon.processNextEventsQueue]
  split
  · cases hcritical : ops.isCriticalBatteryLevel with
    | true => exact ⟨rfl, hcritical⟩
    | false => exact ⟨rfl, hcritical⟩
  · exact ⟨rfl, rfl⟩

/-! ## What rings -/

theorem triggered_minuteUpdated {s : AlarmSession} {env : Surroundings}
    (hpower : s.ops.isCriticalBatteryLevel = false) :
    s.triggered cal ⟨now, .minuteUpdated env⟩ =
      if s.ops.due now then s.ops.nextSingleEvents.map .single else [] := by
  have hqueue : s.triggered cal ⟨now, .minuteUpdated env⟩ =
      (s.ops.processNextEventsQueue cal now).ongoingSingleEvents.drop
        s.ops.ongoingSingleEvents.length := rfl
  rw [hqueue, AlarmOperationsCommon.processNextEventsQueue, hpower]
  split
  · exact List.drop_left
  · exact List.drop_length

theorem triggered_enabled {s : AlarmSession} {call : AlarmCall}
    (hagrees : s.Agrees cal) (hpower : s.ops.isCriticalBatteryLevel = false) :
    ∀ event ∈ s.triggered cal call, ∃ record ∈ s.ops.alarmEventsRepo.getEnabled,
      occurrence cal s.time record = some event.record := by
  intro event hevent
  obtain ⟨now, op⟩ := call
  cases op with
  | minuteUpdated env =>
      rw [triggered_minuteUpdated hpower] at hevent
      split at hevent
      · obtain ⟨single, hsingle, rfl⟩ := List.mem_map.1 hevent
        exact List.mem_filterMap.1 (cached_upcoming hagrees hsingle)
      · exact absurd hevent List.not_mem_nil
  | addAlarm => exact absurd hevent List.not_mem_nil
  | updateAlarm => exact absurd hevent List.not_mem_nil
  | removeAlarm => exact absurd hevent List.not_mem_nil
  | toggleAll => exact absurd hevent List.not_mem_nil

/-- When one date was reached, all the events of that date ring. -/
theorem reached_triggered {s : AlarmSession} {env : Surroundings}
    {event : SingleEventRecord} (hagrees : s.Agrees cal)
    (hpower : s.ops.isCriticalBatteryLevel = false)
    (hreached : s.OneDateReached cal now)
    (hevent : event ∈ upcoming cal s.time s.ops.alarmEventsRepo)
    (hle : event.startDate ≤ now) :
    OngoingEvent.single event ∈ s.triggered cal ⟨now, .minuteUpdated env⟩ := by
  rw [triggered_minuteUpdated hpower, if_pos hreached.1]
  refine List.mem_map.2 ⟨event, ?_, rfl⟩
  obtain ⟨front, rest, hcache, hfront⟩ := due_iff.1 hreached.1
  have hsame : event.startDate = front.startDate :=
    hreached.2 event hevent hle front
      (cached_upcoming hagrees (hcache ▸ List.mem_cons_self)) hfront
  rw [AlarmSession.Agrees, nextEvents] at hagrees
  rw [hagrees] at hcache ⊢
  refine mem_earliest_of_within hevent ?_
  rw [hcache]
  exact decide_eq_true (le_of_eq hsame)

/-! ## Every run -/

/-- The cache agrees, and the battery lets alarms ring. -/
def AlarmSession.Ready (cal : Calendar) (s : AlarmSession) : Prop :=
  s.Agrees cal ∧ s.ops.isCriticalBatteryLevel = false

theorem waiting_not_reached {s : AlarmSession} (hwaiting : s.Waiting cal now) :
    ∀ record ∈ s.ops.alarmEventsRepo.getEnabled, ∀ event,
      occurrence cal s.time record = some event → ¬ event.startDate ≤ now := by
  intro record hrecord event hocc
  exact not_le.2 ((hwaiting record hrecord).2 event hocc)

theorem step_ready {s : AlarmSession} {call : AlarmCall} (hs : s.Ready cal)
    (hrule : s.InTime cal call) : (s.step cal call).Ready cal := by
  obtain ⟨hagrees, hpower⟩ := hs
  obtain ⟨now, op⟩ := call
  cases op with
  | addAlarm record =>
      obtain ⟨hwaiting, hahead, hfirst⟩ := hrule
      have hcache := addAlarm_agrees hagrees hwaiting hahead hfirst
      rw [AlarmSession.Ready, AlarmSession.Agrees, AlarmSession.step]
      simp only [hcache]
      rw [AlarmOperationsCommon.addAlarm, AlarmOperationsCommon.checkAndUpdateCache]
      split <;> exact ⟨rfl, hpower⟩
  | updateAlarm record =>
      obtain ⟨hwaiting, hahead, hfirst⟩ := hrule
      have hcache := updateAlarm_agrees hagrees hwaiting hahead hfirst
      rw [AlarmSession.Ready, AlarmSession.Agrees, AlarmSession.step]
      simp only [hcache]
      rw [AlarmOperationsCommon.updateAlarm]
      split
      · exact ⟨rfl, hpower⟩
      · rw [AlarmOperationsCommon.checkAndUpdateCache]
        split <;> exact ⟨rfl, hpower⟩
  | removeAlarm alarmId =>
      obtain ⟨hwaiting, hfound⟩ := hrule
      have hcache := removeAlarm_agrees hagrees hwaiting hfound
      rw [AlarmSession.Ready, AlarmSession.Agrees, AlarmSession.step]
      simp only [hcache]
      rw [AlarmOperationsCommon.removeAlarm]
      split <;> exact ⟨rfl, hpower⟩
  | toggleAll toggle =>
      exact ⟨updateEventsCache_agrees hrule.2, hpower⟩
  | minuteUpdated env =>
      obtain ⟨hrepo, hcache, hbattery⟩ := @minuteUpdated_same cal now env s.ops
      rw [AlarmSession.Ready, AlarmSession.Agrees, AlarmSession.step]
      simp only [hrepo, hcache, hbattery, processNextEventsQueue_repo]
      exact ⟨processNextEventsQueue_agrees hagrees hrule, hpower⟩

theorem step_faithful {s : AlarmSession} {call : AlarmCall} (hs : s.Ready cal)
    (hrule : s.InTime cal call) : s.Faithful cal call := by
  refine ⟨(step_ready hs hrule).1, triggered_enabled hs.1 hs.2, ?_⟩
  intro record hrecord event hocc hle
  have hreached : s.Waiting cal call.now ∨ ∃ env, call.op = .minuteUpdated env ∧
      s.OneDateReached cal call.now := by
    obtain ⟨now, op⟩ := call
    cases op with
    | minuteUpdated env =>
        rcases hrule with hwaiting | ⟨hreached, -⟩
        · exact .inl hwaiting
        · exact .inr ⟨env, rfl, hreached⟩
    | addAlarm => exact .inl hrule.1
    | updateAlarm => exact .inl hrule.1
    | removeAlarm => exact .inl hrule.1
    | toggleAll => exact .inl hrule.1
  rcases hreached with hwaiting | ⟨env, hop, hreached⟩
  · exact absurd hle (waiting_not_reached hwaiting record hrecord event hocc)
  · obtain ⟨now, op⟩ := call
    subst hop
    exact reached_triggered hs.1 hs.2 hreached
      (List.mem_filterMap.2 ⟨record, hrecord, hocc⟩) hle

theorem start_ready {table : AlarmEventsTable}
    (h : AlarmSession.FirstOccurs cal now table) :
    (AlarmSession.start cal now table).Ready cal :=
  ⟨updateEventsCache_agrees h, rfl⟩

/-- In every run whose calls are in time, from the first look at the table on,
the cache agrees with the table after each call and rings what it should. -/
theorem alarmCache_faithful (cal : Calendar) (now : TimePoint)
    (table : AlarmEventsTable) (calls : List AlarmCall)
    (hfirst : AlarmSession.FirstOccurs cal now table)
    (hcalls : EveryStep (AlarmSession.InTime cal) (AlarmSession.step cal)
      (AlarmSession.start cal now table) calls) :
    (AlarmSession.start cal now table).Agrees cal ∧
      EveryStep (AlarmSession.Faithful cal) (AlarmSession.step cal)
        (AlarmSession.start cal now table) calls := by
  have hstart := start_ready hfirst
  have hgood : ∀ (s : AlarmSession) (call : AlarmCall), s.Ready cal →
      s.InTime cal call → s.Faithful cal call := fun _ _ => step_faithful
  have hready : ∀ (s : AlarmSession) (call : AlarmCall), s.Ready cal →
      s.InTime cal call → (s.step cal call).Ready cal := fun _ _ => step_ready
  exact ⟨hstart.1, (everyStep_of_rule hgood hready hstart hcalls).1⟩

/-! ### A morning of alarms, in a place on Greenwich time -/

namespace Morning

def greenwich : Calendar where
  localTime hour minute start := days (start / days 1) + hours hour + minutes minute
  recurrences _ _ := []

def alarm (id hour minute : Nat) : AlarmEventRecord where
  ID := id
  alarmTime := ⟨hour, minute⟩
  musicTone := "alarm.mp3"
  enabled := true
  snoozeDuration := 15
  rruleText := ""

/-- A day in November 2022. -/
def clock (hour minute : Nat) : TimePoint :=
  days 19307 + hours hour + minutes minute

def quiet : Surroundings where
  phoneCallIsOngoing := false
  tellsAlarmDuringPhoneCall := true
  timePointNow := clock 9 0

end Morning

open Morning

/-- A later alarm is added, moved to the front, deleted; the others ring. -/
theorem alarmCache_faithful_morning :
    (AlarmSession.start greenwich (clock 5 0) ⟨[alarm 1 9 0, alarm 2 9 0]⟩).Agrees
        greenwich ∧
      EveryStep (AlarmSession.Faithful greenwich) (AlarmSession.step greenwich)
        (AlarmSession.start greenwich (clock 5 0) ⟨[alarm 1 9 0, alarm 2 9 0]⟩)
        [⟨clock 6 0, .addAlarm (alarm 0 11 0)⟩,
          ⟨clock 6 30, .updateAlarm (alarm 3 8 0)⟩,
          ⟨clock 7 0, .removeAlarm 3⟩,
          ⟨clock 9 0, .minuteUpdated quiet⟩,
          ⟨clock 9 1, .toggleAll false⟩] :=
  alarmCache_faithful _ _ _ _ (by decide) (by decide)

/-- Of two alarms for nine o'clock one is deleted at eight, and rings. -/
theorem deleted_alarm_rings :
    ¬ EveryStep (AlarmSession.Faithful greenwich) (AlarmSession.step greenwich)
      (AlarmSession.start greenwich (clock 5 0) ⟨[alarm 1 9 0, alarm 2 9 0]⟩)
      [⟨clock 8 0, .removeAlarm 2⟩, ⟨clock 9 0, .minuteUpdated quiet⟩] := by
  intro hrun
  have hagrees := hrun.1.1
  revert hagrees
  decide

end MuditaOS.Alarms
