import MuditaOS.Lib.Keyed
import MuditaOS.Proofs.AlarmCache
import MuditaOS.Time.AlarmRinging

/-!
# Alarms are conserved

The operations move the entries of an alarm between the two lists and drop them when it is
turned off; snoozing, and all that rings in a phone call is snoozed, leaves it with one. Only a
trigger adds an entry, and it does so without a look at those there are.
-/

namespace MuditaOS.Alarms

open Lib

variable {cal : Calendar} {now : TimePoint} {env : Surroundings} {id i : Nat}
  {nextAlarmTime : TimePoint}

namespace AlarmOperationsCommon

variable {ops moved : AlarmOperationsCommon} {front : OngoingEvent} {rest : List OngoingEvent}

/-! ## The recursion ends -/

theorem isOf_self (event : OngoingEvent) : event.isOf event.record.parent.ID = true := by
  simp [OngoingEvent.isOf]

/-- What `snoozeOngoing` makes of the operations before it goes on. -/
def frontSnoozed (env : Surroundings) (front : OngoingEvent) (rest : List OngoingEvent)
    (ops : AlarmOperationsCommon) : AlarmOperationsCommon :=
  let tells := !front.record.wasHandledDuringPhoneCall && env.tellsAlarmDuringPhoneCall
  (if tells then ops.notify .alarmDuringPhoneCall else ops).snoozeFront env front
    (front.record.wasHandledDuringPhoneCall || tells) rest

theorem snoozeOngoing_cons :
    snoozeOngoing env (front :: rest) ops =
      ((snoozeOngoing env rest (ops.frontSnoozed env front rest)
        ).handleSnoozedAlarmsCountChange).handleActiveAlarmsCountChange := rfl

/-- The event in front is the one that is found and snoozed. -/
theorem moveToSnoozed_front (hongoing : ops.ongoingSingleEvents = front :: rest) :
    (ops.tellFront env front rest).moveToSnoozed env front.record.parent.ID
        (TimePointFloorMinutes env.timePointNow + minutes 1) =
      some (ops.frontSnoozed env front rest) := by
  rw [tellFront, frontSnoozed]
  cases htells : (!front.record.wasHandledDuringPhoneCall && env.tellsAlarmDuringPhoneCall) with
  | true =>
      have hself : (front.withHandled true).isOf front.record.parent.ID = true := by
        cases front <;> exact decide_eq_true rfl
      simp only [if_true, moveToSnoozed, notify, List.find?_cons, hself,
        List.eraseP_cons_of_pos]
      cases front <;> simp [OngoingEvent.withHandled, OngoingEvent.record, snoozeFront,
        OngoingEvent.newSnoozed, OngoingEvent.nextSnoozeCount]
  | false =>
      simp only [Bool.false_eq_true, if_false, moveToSnoozed, hongoing, List.find?_cons,
        isOf_self, List.eraseP_cons_of_pos, Bool.or_false]
      rfl

theorem frontSnoozed_ongoing :
    (ops.frontSnoozed env front rest).ongoingSingleEvents = rest := by
  rw [frontSnoozed, snoozeFront]
  split <;> rfl

theorem processOngoingEventsWithin_snoozes (hcall : env.phoneCallIsOngoing = true)
    (ongoing : List OngoingEvent) :
    ∀ {ops : AlarmOperationsCommon}, ops.ongoingSingleEvents = ongoing →
      processOngoingEventsWithin env (2 * ongoing.length + 1) ops =
        some (snoozeOngoing env ongoing ops) := by
  induction ongoing with
  | nil =>
      intro ops hongoing
      simp [processOngoingEventsWithin, hongoing, snoozeOngoing]
  | cons front rest ih =>
      intro ops hongoing
      -- Two calls deep, the events left are those behind the front.
      have hfuel : 2 * (front :: rest).length + 1 = 2 * rest.length + 1 + 1 + 1 := by
        rw [List.length_cons]
        omega
      rw [hfuel, processOngoingEventsWithin, hongoing]
      simp only [hcall, if_true]
      rw [snoozeRingingAlarmWithin, moveToSnoozed_front hongoing]
      simp only []
      rw [ih frontSnoozed_ongoing, snoozeOngoing_cons]
      rfl

/-- The mutual recursion comes to an end, and does what the recursion down the list does. -/
theorem processOngoingEventsWithin_eq :
    processOngoingEventsWithin env (2 * ops.ongoingSingleEvents.length + 1) ops =
      some (ops.processOngoingEvents env) := by
  cases hcall : env.phoneCallIsOngoing with
  | true =>
      rw [processOngoingEventsWithin_snoozes hcall _ rfl, processOngoingEvents]
      cases hongoing : ops.ongoingSingleEvents with
      | nil => rfl
      | cons front rest => simp [hcall]
  | false =>
      rw [processOngoingEventsWithin, processOngoingEvents]
      cases hongoing : ops.ongoingSingleEvents with
      | nil => rfl
      | cons front rest =>
          simp only [hcall, Bool.false_eq_true, if_false]
          cases front <;> rfl

theorem snoozeRingingAlarmWithin_eq :
    ∃ fuel, snoozeRingingAlarmWithin env fuel id nextAlarmTime ops =
      some (ops.snoozeRingingAlarm env id nextAlarmTime) := by
  rw [snoozeRingingAlarm]
  cases hmoved : ops.moveToSnoozed env id nextAlarmTime with
  | none =>
      refine ⟨1, ?_⟩
      rw [snoozeRingingAlarmWithin, hmoved]
  | some moved =>
      refine ⟨2 * moved.ongoingSingleEvents.length + 1 + 1, ?_⟩
      rw [snoozeRingingAlarmWithin, hmoved]
      simp only [processOngoingEventsWithin_eq, Option.map_some]

/-! ## Entries -/

@[simp] theorem entries_notify {notice : Notice} :
    (ops.notify notice).entries id = ops.entries id := rfl

@[simp] theorem entries_handleSnoozedAlarmsCountChange :
    ops.handleSnoozedAlarmsCountChange.entries id = ops.entries id := rfl

@[simp] theorem entries_handleActiveAlarmsCountChange :
    ops.handleActiveAlarmsCountChange.entries id = ops.entries id := rfl

@[simp] theorem entries_updateEventsCache :
    (ops.updateEventsCache cal now).entries id = ops.entries id := rfl

theorem exists_isOf_of_find? {l : List OngoingEvent} {found : OngoingEvent}
    (h : l.find? (·.isOf id) = some found) : ∃ event ∈ l, id = event.record.parent.ID :=
  ⟨found, List.mem_of_find?_eq_some h,
    of_decide_eq_true (@List.find?_some _ (fun event : OngoingEvent => event.isOf id) _ _ h)⟩

/-- One entry less in the list from which an event of the alarm is erased. -/
theorem countP_erased {l : List OngoingEvent} {found : OngoingEvent}
    (h : l.find? (·.isOf id) = some found) :
    (l.eraseP (·.isOf id)).countP (·.isOf i) + (if i = id then 1 else 0) =
      l.countP (·.isOf i) :=
  @countP_eraseP_key _ _ _ (fun event : OngoingEvent => event.record.parent.ID) l id i
    (exists_isOf_of_find? h)

/-- The snoozed events when one is added and others of its alarm are removed. -/
theorem countP_replaced {l : List SnoozedAlarmEventRecord} {new : SnoozedAlarmEventRecord}
    (hnew : new.parent.ID = id) :
    (l.filter (fun event => event.parent.ID != id) ++ [new]).countP (·.isOf i) =
      if i = id then 1 else l.countP (·.isOf i) := by
  rw [List.countP_append, List.countP_filter, List.countP_singleton]
  by_cases hid : i = id
  · have hnone : l.countP (fun event => event.isOf i && event.parent.ID != id) = 0 := by
      refine List.countP_eq_zero.2 fun event _ => ?_
      simp only [SnoozedAlarmEventRecord.isOf, hid, Bool.and_eq_true, not_and]
      intro hof
      simp [← of_decide_eq_true hof]
    rw [hnone, if_pos hid, if_pos (by simp [SnoozedAlarmEventRecord.isOf, hnew, hid])]
  · rw [if_neg hid, if_neg (by simp [SnoozedAlarmEventRecord.isOf, hnew, hid]), Nat.add_zero]
    refine List.countP_congr fun event _ => ?_
    simp only [SnoozedAlarmEventRecord.isOf, Bool.and_eq_true, decide_eq_true_eq]
    refine ⟨fun hboth => hboth.1, fun hof => ⟨hof, ?_⟩⟩
    rw [← hof]
    simpa using hid

theorem frontSnoozed_snoozed :
    (ops.frontSnoozed env front rest).snoozedSingleEvents.countP (·.isOf i) =
      if i = front.record.parent.ID then 1 else ops.snoozedSingleEvents.countP (·.isOf i) := by
  rw [frontSnoozed, snoozeFront]
  cases htells : (!front.record.wasHandledDuringPhoneCall && env.tellsAlarmDuringPhoneCall) with
  | true =>
      rw [if_pos rfl, Bool.or_true, if_pos rfl]
      exact countP_replaced rfl
  | false =>
      simp only [Bool.false_eq_true, if_false, Bool.or_false]
      split <;> exact countP_replaced rfl

/-- In a phone call an alarm with an ongoing event is left with one entry. -/
theorem snoozeOngoing_snoozed (ongoing : List OngoingEvent) :
    ∀ {ops : AlarmOperationsCommon},
      (snoozeOngoing env ongoing ops).snoozedSingleEvents.countP (·.isOf i) =
        if ongoing.any (·.isOf i) then 1
        else ops.snoozedSingleEvents.countP (·.isOf i) := by
  induction ongoing with
  | nil => exact fun {ops} => rfl
  | cons front rest ih =>
      intro ops
      have hcons : (snoozeOngoing env (front :: rest) ops).snoozedSingleEvents =
          (snoozeOngoing env rest (ops.frontSnoozed env front rest)).snoozedSingleEvents := rfl
      rw [hcons, ih, frontSnoozed_snoozed, List.any_cons, OngoingEvent.isOf]
      by_cases hid : i = front.record.parent.ID
      · simp [hid]
      · simp [hid]

theorem snoozeOngoing_ongoing (ongoing : List OngoingEvent) :
    ∀ {ops : AlarmOperationsCommon}, ops.ongoingSingleEvents = ongoing →
      (snoozeOngoing env ongoing ops).ongoingSingleEvents = [] := by
  induction ongoing with
  | nil => exact fun {ops} hongoing => hongoing
  | cons front rest ih =>
      intro ops _
      exact ih frontSnoozed_ongoing

theorem entries_processOngoingEvents_call (hcall : env.phoneCallIsOngoing = true) :
    (ops.processOngoingEvents env).entries i =
      if ops.ongoingSingleEvents.any (·.isOf i) then 1
      else ops.snoozedSingleEvents.countP (·.isOf i) := by
  have hsnooze : ops.processOngoingEvents env =
      snoozeOngoing env ops.ongoingSingleEvents ops := by
    rw [processOngoingEvents]
    cases hongoing : ops.ongoingSingleEvents with
    | nil => rfl
    | cons front rest => simp [hcall]
  rw [hsnooze, entries, snoozeOngoing_ongoing _ rfl, snoozeOngoing_snoozed, List.countP_nil,
    Nat.zero_add]

theorem entries_processOngoingEvents_quiet (hcall : env.phoneCallIsOngoing = false) :
    (ops.processOngoingEvents env).entries i = ops.entries i := by
  rw [processOngoingEvents]
  split
  case h_1 => rfl
  case h_2 front rest hongoing =>
      simp only [hcall, Bool.false_eq_true, if_false, entries_handleActiveAlarmsCountChange,
        entries_handleSnoozedAlarmsCountChange, entries_notify]
      rw [entries, entries, hongoing, List.countP_cons, List.countP_cons]
      cases front <;> rfl

/-- Alarms with one entry at most keep what they have. -/
theorem entries_processOngoingEvents (h : ops.entries i ≤ 1) :
    (ops.processOngoingEvents env).entries i = ops.entries i := by
  cases hcall : env.phoneCallIsOngoing with
  | false => exact entries_processOngoingEvents_quiet hcall
  | true =>
      rw [entries_processOngoingEvents_call hcall]
      rw [entries] at h ⊢
      rcases any_or_countP (·.isOf i) ops.ongoingSingleEvents with
        ⟨hany, hcount⟩ | ⟨hany, hcount⟩
      · rw [if_pos hany]
        omega
      · rw [if_neg (by simp [hany])]
        omega

/-! ## One operation -/

/-- A snoozed alarm keeps its one entry. -/
theorem entries_moveToSnoozed (h : ∀ i, ops.entries i ≤ 1)
    (hmoved : ops.moveToSnoozed env id nextAlarmTime = some moved) :
    moved.entries i = ops.entries i := by
  rw [moveToSnoozed] at hmoved
  split at hmoved
  case h_1 => cases hmoved
  case h_2 found hfound =>
      have hparent : (found.newSnoozed env nextAlarmTime).parent.ID = id :=
        (of_decide_eq_true (@List.find?_some _ (fun event : OngoingEvent => event.isOf id) _ _
          hfound)).symm
      have herased := @countP_erased id i _ _ hfound
      have hreplaced := @countP_replaced id i ops.snoozedSingleEvents _ hparent
      have hle := h i
      have hcount : moved.entries i =
          (ops.ongoingSingleEvents.eraseP (·.isOf id)).countP (·.isOf i) +
            (ops.snoozedSingleEvents.filter (fun event => event.parent.ID != id) ++
              [found.newSnoozed env nextAlarmTime]).countP (·.isOf i) := by
        cases hmoved
        rw [entries]
        split <;> rfl
      rw [entries] at hle
      rw [hcount, hreplaced, entries]
      by_cases hid : i = id
      · rw [if_pos hid] at herased ⊢
        omega
      · rw [if_neg hid] at herased ⊢
        omega

theorem entries_snoozeRingingAlarm (h : ∀ i, ops.entries i ≤ 1) :
    (ops.snoozeRingingAlarm env id nextAlarmTime).1.entries i = ops.entries i := by
  rw [snoozeRingingAlarm]
  split
  case h_1 => rfl
  case h_2 moved hmoved =>
      have hsame := @entries_moveToSnoozed env id i nextAlarmTime ops moved h hmoved
      rw [entries_handleActiveAlarmsCountChange, entries_handleSnoozedAlarmsCountChange,
        entries_processOngoingEvents (by rw [hsame]; exact h i), hsame]

theorem entries_postponeSnooze :
    (ops.postponeSnooze id nextAlarmTime).1.entries i = ops.entries i := by
  rw [postponeSnooze]
  split
  case h_1 => rfl
  case h_2 k _ =>
      have hsame := @countP_modify _ ops.snoozedSingleEvents
        (fun event : SnoozedAlarmEventRecord => event.isOf i)
        (fun event : SnoozedAlarmEventRecord => { event with startDate := nextAlarmTime })
        (fun _ => rfl) k
      exact congrArg (ops.ongoingSingleEvents.countP (·.isOf i) + ·) hsame

theorem entries_turnOffRingingAlarm (h : ops.entries i ≤ 1) :
    (ops.turnOffRingingAlarm env id).1.entries i =
      if (ops.turnOffRingingAlarm env id).2 && i = id then 0 else ops.entries i := by
  rw [turnOffRingingAlarm]
  split
  case h_1 => rfl
  case h_2 found hfound =>
      have herased := @countP_erased id i _ _ hfound
      rw [entries_handleActiveAlarmsCountChange, entries_processOngoingEvents]
      all_goals
        rw [entries_notify, entries]
        rw [entries] at h
      · rw [entries]
        by_cases hid : i = id
        · simp only [hid, if_true, Bool.true_and, decide_true] at herased h ⊢
          omega
        · simp only [hid, if_false, Bool.true_and, decide_false] at herased ⊢
          simp only [Bool.false_eq_true, if_false]
          omega
      · simp only []
        omega

theorem entries_turnOffSnoozedAlarm (h : ops.entries i ≤ 1) :
    (ops.turnOffSnoozedAlarm id).1.entries i =
      if (ops.turnOffSnoozedAlarm id).2 && i = id then 0 else ops.entries i := by
  rw [turnOffSnoozedAlarm]
  split
  case h_1 => rfl
  case h_2 found hfound =>
      have hsome : ∃ event ∈ ops.snoozedSingleEvents, id = event.parent.ID :=
        ⟨found, List.mem_of_find?_eq_some hfound, of_decide_eq_true
          (@List.find?_some _ (fun event : SnoozedAlarmEventRecord => event.isOf id) _ _ hfound)⟩
      have herased : (ops.snoozedSingleEvents.eraseP (·.isOf id)).countP (·.isOf i) +
          (if i = id then 1 else 0) = ops.snoozedSingleEvents.countP (·.isOf i) :=
        @countP_eraseP_key _ _ _ (fun event : SnoozedAlarmEventRecord => event.parent.ID) _ id i
          hsome
      rw [entries_handleActiveAlarmsCountChange, entries_handleSnoozedAlarmsCountChange]
      rw [entries] at h ⊢
      rw [entries]
      by_cases hid : i = id
      · simp only [hid, if_true, Bool.true_and, decide_true] at herased h ⊢
        omega
      · simp only [hid, if_false, Bool.true_and, decide_false, Bool.false_eq_true] at herased ⊢
        omega

theorem entries_stopAllSnoozedAlarms (h : ops.entries i ≤ 1) :
    ops.stopAllSnoozedAlarms.entries i =
      if ops.snoozedSingleEvents.any (·.isOf i) then 0 else ops.entries i := by
  rw [stopAllSnoozedAlarms, entries_handleActiveAlarmsCountChange,
    entries_handleSnoozedAlarmsCountChange]
  simp only [entries, List.countP_nil] at h ⊢
  rcases any_or_countP (·.isOf i) ops.snoozedSingleEvents with ⟨hany, hcount⟩ | ⟨hany, hcount⟩
  · rw [if_pos hany]
    omega
  · rw [if_neg (by simp [hany])]
    omega

theorem entries_stopAllRingingAlarms (h : ops.entries i ≤ 1) :
    ops.stopAllRingingAlarms.entries i =
      if ops.ongoingSingleEvents.any (·.isOf i) then 0 else ops.entries i := by
  rw [stopAllRingingAlarms]
  split
  case isTrue hempty => simp [List.isEmpty_iff.1 hempty]
  case isFalse =>
      rw [entries_handleActiveAlarmsCountChange]
      simp only [entries, List.countP_nil] at h ⊢
      rcases any_or_countP (·.isOf i) ops.ongoingSingleEvents with
        ⟨hany, hcount⟩ | ⟨hany, hcount⟩
      · rw [if_pos hany]
        omega
      · rw [if_neg (by simp [hany])]
        omega

/-! ## A minute -/

/-- How many events of an alarm are triggered. -/
def triggering (now : TimePoint) (i : Nat) (ops : AlarmOperationsCommon) : Nat :=
  if ops.due now then ops.nextSingleEvents.countP fun event => i = event.parent.ID else 0

theorem entries_processNextEventsQueue (hpower : ops.isCriticalBatteryLevel = false) :
    (ops.processNextEventsQueue cal now).entries i = ops.entries i + ops.triggering now i := by
  rw [processNextEventsQueue, triggering]
  split
  case isTrue =>
      rw [entries_updateEventsCache, hpower]
      simp only [Bool.false_eq_true, if_false, triggerAlarm, entries, List.countP_append,
        List.countP_map]
      rw [Nat.add_right_comm]
      rfl
  case isFalse => rfl

theorem entries_processSnoozedEventsQueue :
    (ops.processSnoozedEventsQueue now).entries i = ops.entries i := by
  simp only [processSnoozedEventsQueue, entries, List.countP_append, List.countP_map]
  have hsplit := List.countP_eq_countP_filter_add ops.snoozedSingleEvents (·.isOf i)
    (fun event => decide (event.startDate ≤ now))
  have hnot : (fun event : SnoozedAlarmEventRecord => decide ¬ event.startDate ≤ now) =
      fun event => !decide (event.startDate ≤ now) := by
    funext event
    exact decide_not
  rw [hsplit, hnot, Nat.add_assoc]
  rfl

/-- What a minute wakes, the triggered and the snoozed whose time has come. -/
theorem entries_woken (hpower : ops.isCriticalBatteryLevel = false) :
    ((ops.processNextEventsQueue cal now).processSnoozedEventsQueue now).entries i =
      ops.entries i + ops.triggering now i := by
  rw [entries_processSnoozedEventsQueue, entries_processNextEventsQueue hpower]

theorem entries_minuteUpdated (hpower : ops.isCriticalBatteryLevel = false)
    (h : ¬(ops.ongoingSingleEvents = [] ∧ env.phoneCallIsOngoing = true)) :
    (ops.minuteUpdated cal env now).entries i = ops.entries i + ops.triggering now i := by
  rw [minuteUpdated]
  cases hongoing : ops.ongoingSingleEvents with
  | nil =>
      have hcall : env.phoneCallIsOngoing = false := by simpa [hongoing] using h
      rw [if_neg (by simp), entries_processOngoingEvents_quiet hcall, entries_woken hpower]
  | cons front rest => rw [if_pos (by simp), entries_woken hpower]

/-- In a phone call with nothing ringing all that wakes is snoozed, each alarm once. -/
theorem entries_minuteUpdated_call (hpower : ops.isCriticalBatteryLevel = false)
    (hongoing : ops.ongoingSingleEvents = []) (hcall : env.phoneCallIsOngoing = true)
    (h : ops.entries i ≤ 1) :
    (ops.minuteUpdated cal env now).entries i =
      if 0 < ops.entries i + ops.triggering now i then 1 else 0 := by
  have hwoken := @entries_woken cal now i ops hpower
  have hsnoozed : ((ops.processNextEventsQueue cal now).processSnoozedEventsQueue
      now).snoozedSingleEvents.countP (·.isOf i) ≤ 1 := by
    have hsame : (ops.processNextEventsQueue cal now).snoozedSingleEvents =
        ops.snoozedSingleEvents := by
      rw [processNextEventsQueue]
      split
      case isTrue => cases ops.isCriticalBatteryLevel <;> rfl
      case isFalse => rfl
    have hle : (ops.snoozedSingleEvents.filter fun event =>
        ¬ event.startDate ≤ now).countP (·.isOf i) ≤
          ops.snoozedSingleEvents.countP (·.isOf i) := List.filter_sublist.countP_le
    rw [entries] at h
    rw [processSnoozedEventsQueue, hsame]
    simp only [decide_not] at hle ⊢
    omega
  rw [minuteUpdated, hongoing, if_neg (by simp), entries_processOngoingEvents_call hcall]
  rw [entries] at hwoken
  rcases any_or_countP (·.isOf i) ((ops.processNextEventsQueue cal now).processSnoozedEventsQueue
    now).ongoingSingleEvents with ⟨hany, hcount⟩ | ⟨hany, hcount⟩
  · rw [if_pos hany, if_pos (by omega)]
  · rw [if_neg (by simp [hany])]
    split <;> omega

end AlarmOperationsCommon

/-! ## What the cache keeps -/

open AlarmOperationsCommon

/-- What is collected comes from the records, each at most once. -/
theorem collectEvents_parents (records : List AlarmEventRecord) :
    ∀ {outEvents : List SingleEventRecord},
      ((collectEvents cal now outEvents records).map (·.parent)).Sublist
        (outEvents.map (·.parent) ++ records) := by
  induction records with
  | nil =>
      intro outEvents
      rw [collectEvents, List.append_nil]
  | cons record records ih =>
      intro outEvents
      have hskip : (outEvents.map (·.parent) ++ records).Sublist
          (outEvents.map (·.parent) ++ record :: records) :=
        (List.Sublist.refl _).append (List.sublist_cons_self _ _)
      cases outEvents with
      | nil => exact ih
      | cons front rest =>
          rw [collectEvents]
          split
          case isFalse => exact ih.trans hskip
          case isTrue =>
              split
              case isTrue =>
                  refine ih.trans ?_
                  exact List.sublist_append_right _ _
              case isFalse =>
                  split
                  case isFalse => exact ih.trans hskip
                  case isTrue =>
                      have hlast := @ih (front :: rest ++ [record.getNextSingleEvent cal now])
                      simpa [AlarmEventRecord.getNextSingleEvent] using hlast

/-- No alarm is in the cache twice. -/
def Distinct (ops : AlarmOperationsCommon) : Prop :=
  (ops.nextSingleEvents.map fun event => event.parent.ID).Nodup

def Keyed (table : AlarmEventsTable) : Prop := (table.rows.map AlarmEventRecord.ID).Nodup

theorem distinct_updateEventsCache {ops : AlarmOperationsCommon}
    (h : Keyed ops.alarmEventsRepo) : Distinct (ops.updateEventsCache cal now) := by
  have hparents := @collectEvents_parents cal now ops.alarmEventsRepo.getEnabled []
  have hrows : (ops.alarmEventsRepo.getEnabled).Sublist ops.alarmEventsRepo.rows :=
    List.filter_sublist
  have hsub := (hparents.trans hrows).map AlarmEventRecord.ID
  rw [List.map_map] at hsub
  exact h.sublist hsub

theorem le_foldl_max (l : List Nat) :
    ∀ {a : Nat}, a ≤ l.foldl max a ∧ ∀ x ∈ l, x ≤ l.foldl max a := by
  induction l with
  | nil => exact fun {a} => ⟨Nat.le_refl a, fun x hx => absurd hx List.not_mem_nil⟩
  | cons b l ih =>
      intro a
      obtain ⟨hinit, hrest⟩ := @ih (max a b)
      refine ⟨Nat.le_trans (Nat.le_max_left a b) hinit, fun x hx => ?_⟩
      rcases List.mem_cons.1 hx with rfl | hx
      · exact Nat.le_trans (Nat.le_max_right a x) hinit
      · exact hrest x hx

theorem keyed_add {table : AlarmEventsTable} {record : AlarmEventRecord} (h : Keyed table) :
    Keyed (table.add record) := by
  rw [Keyed, AlarmEventsTable.add, List.map_append, List.nodup_append]
  refine ⟨h, List.nodup_singleton _, ?_⟩
  intro a ha b hb
  rw [List.mem_singleton.1 hb]
  have hle := (@le_foldl_max (table.rows.map AlarmEventRecord.ID) 0).2 a ha
  exact Nat.ne_of_lt (Nat.lt_succ_of_le hle)

theorem keyed_update {table : AlarmEventsTable} {record : AlarmEventRecord} (h : Keyed table) :
    Keyed (table.update record) := by
  have hsame : (table.update record).rows.map AlarmEventRecord.ID =
      table.rows.map AlarmEventRecord.ID := by
    rw [AlarmEventsTable.update, List.map_map]
    refine List.map_congr_left fun row _ => ?_
    simp only [Function.comp_apply]
    split
    case isTrue hid => exact hid.symm
    case isFalse => rfl
  rw [Keyed, hsame]
  exact h

theorem keyed_removeById {table : AlarmEventsTable} (h : Keyed table) :
    Keyed (table.removeById id) := h.sublist (List.filter_sublist.map _)

theorem keyed_toggleAll {table : AlarmEventsTable} {toggle : Bool} (h : Keyed table) :
    Keyed (table.toggleAll toggle) := by
  rw [Keyed, AlarmEventsTable.toggleAll, List.map_map]
  exact h

/-! ## Sessions -/

namespace RingingSession

variable {s : RingingSession} {call : RingingCall} {calls : List RingingCall}

/-- Conserved, over a keyed table and a cache that has no alarm twice, with power. -/
structure Sound (s : RingingSession) : Prop where
  conserved : s.Conserved
  keyed : Keyed s.ops.alarmEventsRepo
  distinct : Distinct s.ops
  power : s.ops.isCriticalBatteryLevel = false

theorem entries_le_one (h : s.Conserved) (i : Nat) : s.ops.entries i ≤ 1 := by
  rw [h i]
  split <;> decide

/-- Outside the cache a call takes the entries of the alarms it turns off, and no other. -/
theorem conserved_of_entries (h : s.Conserved) (htriggers : s.triggers cal call = [])
    (hentries : ∀ i, (s.called cal call).entries i =
      if s.turnsOff call i then 0 else s.ops.entries i) :
    (s.step cal call).Conserved := by
  intro i
  simp only [step, htriggers, List.append_nil, List.mem_filter]
  rw [hentries i, h i]
  cases s.turnsOff call i <;> simp

/-- The parts that only the operations of the cache touch. -/
theorem called_same (hop : ∀ op, call.op ≠ .cache op) : SameCache s.ops (s.called cal call) := by
  rw [called]
  cases hcall : call.op with
  | cache op => exact absurd hcall (hop op)
  | snoozeRingingAlarm env id nextAlarmTime =>
      simp only [snoozeRingingAlarm, moveToSnoozed]
      split
      case h_1 => exact ⟨rfl, rfl, rfl⟩
      case h_2 moved hmoved =>
          refine SameCache.trans ?_ (@processOngoingEvents_same env moved)
          split at hmoved
          case h_1 => cases hmoved
          case h_2 =>
              cases hmoved
              split <;> exact ⟨rfl, rfl, rfl⟩
  | postponeSnooze id nextAlarmTime =>
      simp only [postponeSnooze]
      split <;> exact ⟨rfl, rfl, rfl⟩
  | turnOffRingingAlarm env id =>
      simp only [turnOffRingingAlarm]
      split
      case h_1 => exact ⟨rfl, rfl, rfl⟩
      case h_2 found _ =>
          exact SameCache.trans ⟨rfl, rfl, rfl⟩ (@processOngoingEvents_same env _)
  | turnOffSnoozedAlarm id =>
      simp only [turnOffSnoozedAlarm]
      split <;> exact ⟨rfl, rfl, rfl⟩
  | stopAllSnoozedAlarms => exact ⟨rfl, rfl, rfl⟩
  | stopAllRingingAlarms =>
      simp only [stopAllRingingAlarms]
      split <;> exact ⟨rfl, rfl, rfl⟩

theorem conserved_of_not_cache (h : s.Conserved) (hop : ∀ op, call.op ≠ .cache op) :
    (s.step cal call).Conserved := by
  have hle := entries_le_one h
  refine conserved_of_entries h ?_ fun i => ?_
  · rw [triggers]
    cases hcall : call.op with
    | cache op => exact absurd hcall (hop op)
    | _ => rfl
  · rw [called, turnsOff]
    cases hcall : call.op with
    | cache op => exact absurd hcall (hop op)
    | snoozeRingingAlarm env id nextAlarmTime => exact entries_snoozeRingingAlarm hle
    | postponeSnooze id nextAlarmTime => exact entries_postponeSnooze
    | turnOffRingingAlarm env id => exact entries_turnOffRingingAlarm (hle i)
    | turnOffSnoozedAlarm id => exact entries_turnOffSnoozedAlarm (hle i)
    | stopAllSnoozedAlarms => exact entries_stopAllSnoozedAlarms (hle i)
    | stopAllRingingAlarms => exact entries_stopAllRingingAlarms (hle i)

/-! ### The cache -/

/-- What the operations of the cache but `minuteUpdated` do. -/
structure Refreshed (before after : AlarmOperationsCommon) : Prop where
  entries : ∀ i, after.entries i = before.entries i
  keyed : Keyed after.alarmEventsRepo
  distinct : Distinct after
  power : after.isCriticalBatteryLevel = before.isCriticalBatteryLevel

theorem refreshed_updateEventsCache {ops : AlarmOperationsCommon}
    (hkeyed : Keyed ops.alarmEventsRepo) : Refreshed ops (ops.updateEventsCache cal now) :=
  ⟨fun _ => rfl, hkeyed, distinct_updateEventsCache hkeyed, rfl⟩

theorem refreshed_checkAndUpdateCache {ops : AlarmOperationsCommon} {record : AlarmEventRecord}
    (hkeyed : Keyed ops.alarmEventsRepo) (hdistinct : Distinct ops) :
    Refreshed ops (ops.checkAndUpdateCache cal now record) := by
  rw [checkAndUpdateCache]
  split
  case isTrue => exact refreshed_updateEventsCache hkeyed
  case isFalse => exact ⟨fun _ => rfl, hkeyed, hdistinct, rfl⟩

theorem refreshed_step {s : AlarmSession} {op : AlarmOp} (hkeyed : Keyed s.ops.alarmEventsRepo)
    (hdistinct : Distinct s.ops) (hop : ∀ env, op ≠ .minuteUpdated env) :
    Refreshed s.ops (s.step cal ⟨now, op⟩).ops := by
  cases op with
  | minuteUpdated env => exact absurd rfl (hop env)
  | addAlarm record =>
      have hafter := @refreshed_checkAndUpdateCache cal now
        { s.ops with alarmEventsRepo := s.ops.alarmEventsRepo.add record } record
        (keyed_add hkeyed) hdistinct
      exact ⟨hafter.entries, hafter.keyed, hafter.distinct, hafter.power⟩
  | updateAlarm record =>
      simp only [AlarmSession.step, updateAlarm]
      split
      case isTrue =>
          have hafter := @refreshed_updateEventsCache cal now
            { s.ops with alarmEventsRepo := s.ops.alarmEventsRepo.update record }
            (keyed_update hkeyed)
          exact ⟨hafter.entries, hafter.keyed, hafter.distinct, hafter.power⟩
      case isFalse =>
          have hafter := @refreshed_checkAndUpdateCache cal now
            { s.ops with alarmEventsRepo := s.ops.alarmEventsRepo.update record } record
            (keyed_update hkeyed) hdistinct
          exact ⟨hafter.entries, hafter.keyed, hafter.distinct, hafter.power⟩
  | removeAlarm alarmId =>
      simp only [AlarmSession.step, removeAlarm]
      split
      case isTrue =>
          have hafter := @refreshed_updateEventsCache cal now
            { s.ops with alarmEventsRepo := s.ops.alarmEventsRepo.removeById alarmId }
            (keyed_removeById hkeyed)
          exact ⟨hafter.entries, hafter.keyed, hafter.distinct, hafter.power⟩
      case isFalse => exact ⟨fun _ => rfl, keyed_removeById hkeyed, hdistinct, rfl⟩
  | toggleAll toggle =>
      have hafter := @refreshed_updateEventsCache cal now
        { s.ops with alarmEventsRepo := s.ops.alarmEventsRepo.toggleAll toggle }
        (keyed_toggleAll hkeyed)
      exact ⟨hafter.entries, hafter.keyed, hafter.distinct, hafter.power⟩

theorem distinct_processNextEventsQueue {ops : AlarmOperationsCommon}
    (hkeyed : Keyed ops.alarmEventsRepo) (hdistinct : Distinct ops) :
    Distinct (ops.processNextEventsQueue cal now) := by
  rw [processNextEventsQueue]
  split
  case isTrue =>
      refine distinct_updateEventsCache ?_
      cases ops.isCriticalBatteryLevel <;> exact hkeyed
  case isFalse => exact hdistinct

/-! ### Triggers -/

/-- No alarm is triggered twice at once. -/
theorem triggering_le_one (h : Distinct s.ops) : s.ops.triggering now i ≤ 1 := by
  rw [triggering]
  split
  case isFalse => exact Nat.zero_le 1
  case isTrue =>
      have hcount := List.nodup_iff_count_le_one.1 h i
      rw [List.count, List.countP_map] at hcount
      refine Nat.le_trans (Nat.le_of_eq ?_) hcount
      refine List.countP_congr fun event _ => ?_
      simp only [Function.comp_apply, beq_iff_eq, decide_eq_true_eq]
      exact eq_comm

theorem triggering_pos :
    0 < s.ops.triggering now i ↔
      s.ops.due now ∧ ∃ event ∈ s.ops.nextSingleEvents, event.parent.ID = i := by
  rw [triggering]
  split
  case isTrue hdue => simp [List.countP_pos_iff, hdue, eq_comm]
  case isFalse hdue => simp [hdue]

theorem mem_live_minute (hop : call.op = .cache (.minuteUpdated env))
    (hpower : s.ops.isCriticalBatteryLevel = false) :
    i ∈ (s.step cal call).live ↔ i ∈ s.live ∨ 0 < s.ops.triggering call.now i := by
  have htriggers : s.triggers cal call =
      if s.ops.due call.now then s.ops.nextSingleEvents.map (fun event => event.parent.ID)
      else [] := by
    simp only [triggers, hop]
    rw [triggered_minuteUpdated hpower]
    split
    case isTrue => rw [List.map_map]; rfl
    case isFalse => rfl
  have hoff : ∀ id, s.turnsOff call id = false := by
    intro id
    rw [turnsOff, hop]
  rw [triggering_pos, step]
  simp only [hoff, Bool.not_false, List.filter_true, List.mem_append, htriggers]
  split
  case isTrue hdue => simp [hdue]
  case isFalse hdue => simp [hdue]

/-- A minute conserves the alarms exactly when it triggers none that has an entry, or all is
snoozed at once. -/
theorem conserved_minute_iff (h : s.Sound) (hop : call.op = .cache (.minuteUpdated env)) :
    (s.step cal call).Conserved ↔ s.Unentered call := by
  have hcalled : (s.step cal call).ops = s.ops.minuteUpdated cal env call.now := by
    simp only [step, called, hop]
    rfl
  have hunentered : s.Unentered call ↔ (s.ops.due call.now →
      (s.ops.ongoingSingleEvents = [] ∧ env.phoneCallIsOngoing = true) ∨
        ∀ event ∈ s.ops.nextSingleEvents, s.ops.entries event.parent.ID = 0) := by
    rw [Unentered, hop]
  rw [hunentered, Conserved, hcalled]
  by_cases hall : s.ops.ongoingSingleEvents = [] ∧ env.phoneCallIsOngoing = true
  · refine iff_of_true (fun i => ?_) (fun _ => Or.inl hall)
    rw [entries_minuteUpdated_call h.power hall.1 hall.2 (entries_le_one h.conserved i)]
    refine if_congr ?_ rfl rfl
    rw [mem_live_minute hop h.power, h.conserved i]
    split
    case isTrue hmem => simp [hmem]
    case isFalse hmem => simp [hmem]
  · constructor
    · intro hconserved hdue
      refine Or.inr fun event hevent => ?_
      have hpos := triggering_pos.2 ⟨hdue, event, hevent, rfl⟩
      have hafter := hconserved event.parent.ID
      rw [entries_minuteUpdated h.power hall,
        if_pos ((mem_live_minute hop h.power).2 (Or.inr hpos))] at hafter
      omega
    · intro hrule i
      rw [entries_minuteUpdated h.power hall]
      have hone := @triggering_le_one call.now i s h.distinct
      have hle := entries_le_one h.conserved i
      have hbefore := h.conserved i
      rcases Nat.eq_zero_or_pos (s.ops.triggering call.now i) with hzero | hpos
      · rw [hzero, Nat.add_zero, hbefore]
        refine if_congr ?_ rfl rfl
        rw [mem_live_minute hop h.power, hzero]
        simp
      · rw [if_pos ((mem_live_minute hop h.power).2 (Or.inr hpos))]
        obtain ⟨hdue, event, hevent, rfl⟩ := triggering_pos.1 hpos
        rcases hrule hdue with hall' | hnone
        · exact absurd hall' hall
        · have hzero := hnone event hevent
          omega

/-! ### Every run -/

/-- The operations of the cache but `minuteUpdated` touch no entry. -/
theorem conserved_of_refreshed {op : AlarmOp} (h : s.Sound) (hop : call.op = .cache op)
    (hminute : ∀ env, op ≠ .minuteUpdated env) : (s.step cal call).Conserved := by
  have hcalled : s.called cal call = (s.toAlarmSession.step cal ⟨call.now, op⟩).ops := by
    rw [called, hop]
  have hoff : ∀ i, s.turnsOff call i = false := by
    intro i
    rw [turnsOff, hop]
  have htriggers : s.triggers cal call = [] := by
    simp only [triggers, hop]
    cases op with
    | minuteUpdated env => exact absurd rfl (hminute env)
    | _ => rfl
  refine conserved_of_entries h.conserved htriggers fun i => ?_
  rw [hoff, hcalled, (refreshed_step h.keyed h.distinct hminute).entries i]
  simp

theorem conserved_step_iff (h : s.Sound) :
    (s.step cal call).Conserved ↔ s.Unentered call := by
  cases hop : call.op with
  | cache op =>
      cases op with
      | minuteUpdated env => exact conserved_minute_iff h hop
      | _ =>
          refine iff_of_true (conserved_of_refreshed h hop ?_) ?_
          · intro env henv
            cases henv
          · rw [Unentered, hop]
            trivial
  | _ =>
      refine iff_of_true (conserved_of_not_cache h.conserved ?_) ?_
      · intro op hcache
        rw [hop] at hcache
        cases hcache
      · rw [Unentered, hop]
        trivial

theorem sound_of_same {ops : AlarmOperationsCommon} (h : s.Sound)
    (hsame : SameCache s.ops ops) :
    Keyed ops.alarmEventsRepo ∧ Distinct ops ∧ ops.isCriticalBatteryLevel = false := by
  obtain ⟨hrepo, hnext, hbattery⟩ := hsame
  rw [hrepo, Distinct, hnext, hbattery]
  exact ⟨h.keyed, h.distinct, h.power⟩

theorem sound_called (h : s.Sound) :
    Keyed (s.called cal call).alarmEventsRepo ∧ Distinct (s.called cal call) ∧
      (s.called cal call).isCriticalBatteryLevel = false := by
  cases hop : call.op with
  | cache op =>
      have hcalled : s.called cal call = (s.toAlarmSession.step cal ⟨call.now, op⟩).ops := by
        rw [called, hop]
      rw [hcalled]
      by_cases hminute : ∀ env, op ≠ .minuteUpdated env
      · have hafter := @refreshed_step cal call.now s.toAlarmSession op h.keyed h.distinct hminute
        exact ⟨hafter.keyed, hafter.distinct, hafter.power.trans h.power⟩
      · obtain ⟨env, rfl⟩ : ∃ env, op = .minuteUpdated env := by simpa using hminute
        obtain ⟨hrepo, hnext, hbattery⟩ := @minuteUpdated_same cal call.now env s.ops
        obtain ⟨hkept, hpower⟩ := @processNextEventsQueue_repo cal call.now s.ops
        have hdistinct :=
          @distinct_processNextEventsQueue cal call.now s.ops h.keyed h.distinct
        simp only [AlarmSession.step]
        rw [hrepo, hkept, Distinct, hnext, hbattery, hpower]
        exact ⟨h.keyed, hdistinct, h.power⟩
  | _ =>
      refine sound_of_same h (called_same fun op hcache => ?_)
      rw [hop] at hcache
      cases hcache

theorem sound_step (h : s.Sound) (hrule : s.Unentered call) : (s.step cal call).Sound := by
  obtain ⟨hkeyed, hdistinct, hpower⟩ := @sound_called cal s call h
  exact ⟨(conserved_step_iff h).2 hrule, hkeyed, hdistinct, hpower⟩

theorem start_sound {table : KeyedTable} : (start cal now table).Sound :=
  ⟨fun _ => rfl, table.keyed, distinct_updateEventsCache table.keyed, rfl⟩

/-- The operations come to an end. -/
def Ends (env : Surroundings) (ops : AlarmOperationsCommon) : Prop :=
  (∃ fuel, processOngoingEventsWithin env fuel ops = some (ops.processOngoingEvents env)) ∧
    ∀ id nextAlarmTime, ∃ fuel, snoozeRingingAlarmWithin env fuel id nextAlarmTime ops =
      some (ops.snoozeRingingAlarm env id nextAlarmTime)

/-- In a run alarms are conserved exactly when none is triggered that has an entry, unless all
that rings is snoozed at once; snoozing ends. -/
theorem conserved_iff_unentered {table : KeyedTable} :
    (EveryStep (fun s call => (s.step cal call).Conserved) (step cal) (start cal now table)
        calls ∧ ∀ env ops, Ends env ops) ↔
      EveryStep Unentered (step cal) (start cal now table) calls := by
  have hends : ∀ env ops, Ends env ops := fun env ops =>
    ⟨⟨_, processOngoingEventsWithin_eq⟩, fun _ _ => snoozeRingingAlarmWithin_eq⟩
  have hiff := @everyStep_congr RingingSession RingingCall Sound
    (fun s call => (s.step cal call).Conserved) Unentered (step cal)
    (fun s call h => conserved_step_iff h) (fun s call h hrule => sound_step h hrule)
    calls (start cal now table) start_sound
  rw [hiff]
  exact and_iff_left hends

open Morning

/-- An alarm snoozed until a quarter past nine is set to five past nine, and rings then. -/
theorem snoozed_alarm_rings :
    ¬ (EveryStep (fun s call => (s.step greenwich call).Conserved) (step greenwich)
        (start greenwich (clock 5 0) ⟨⟨[alarm 1 9 0]⟩, by decide⟩)
        [⟨clock 9 0, .cache (.minuteUpdated quiet)⟩,
          ⟨clock 9 1, .snoozeRingingAlarm quiet 1 (clock 9 15)⟩,
          ⟨clock 9 2, .cache (.updateAlarm (alarm 1 9 5))⟩,
          ⟨clock 9 5, .cache (.minuteUpdated quiet)⟩] ∧ ∀ env ops, Ends env ops) := by
  intro ⟨h, _⟩
  obtain ⟨_, _, _, htwice, _⟩ := h
  have hone := htwice 1
  revert hone
  decide

end RingingSession

end MuditaOS.Alarms
