import MuditaOS.Proofs.AlarmEntries
import MuditaOS.Time.AlarmRinging

/-!
# The count shown of the snoozed alarms

Every path that changes the list of the snoozed alarms tells their number before it is left,
but one: a minute that wakes a snoozed alarm while another rings. It leaves the next change to
put the number right.
-/

namespace MuditaOS.Alarms.AlarmOperationsCommon

open Lib

variable {cal : Calendar} {now : TimePoint} {env : Surroundings} {id : Nat}
  {nextAlarmTime : TimePoint} {ops before after : AlarmOperationsCommon} {notice : Notice}
  {record : AlarmEventRecord} {table : AlarmEventsTable} {call : PublicCall}
  {calls : List PublicCall}

/-! ## What is shown -/

theorem snoozedCountShown_notify :
    (ops.notify notice).snoozedCountShown = notice.snoozedCount.getD ops.snoozedCountShown := by
  rw [snoozedCountShown, notify, List.filterMap_append]
  cases hcount : notice.snoozedCount with
  | none => simp [hcount, snoozedCountShown]
  | some count => simp [hcount]

theorem countShown_told : ops.handleSnoozedAlarmsCountChange.CountShown := by
  rw [CountShown, handleSnoozedAlarmsCountChange, snoozedCountShown_notify]
  rfl

/-- Neither what is shown nor the snoozed alarms have changed. -/
def Unmoved (before after : AlarmOperationsCommon) : Prop :=
  after.snoozedCountShown = before.snoozedCountShown ∧
    after.snoozedSingleEvents.length = before.snoozedSingleEvents.length

theorem Unmoved.trans {a b c : AlarmOperationsCommon} (hab : Unmoved a b) (hbc : Unmoved b c) :
    Unmoved a c := ⟨hbc.1.trans hab.1, hbc.2.trans hab.2⟩

theorem Unmoved.countShown (h : Unmoved before after) (hbefore : before.CountShown) :
    after.CountShown := by
  rw [CountShown, h.1, h.2]
  exact hbefore

theorem unmoved_notify (h : notice.snoozedCount = none) : Unmoved ops (ops.notify notice) := by
  refine ⟨?_, rfl⟩
  rw [snoozedCountShown_notify, h, Option.getD_none]

theorem unmoved_handleActiveAlarmsCountChange :
    Unmoved ops ops.handleActiveAlarmsCountChange := unmoved_notify rfl

/-! ## The cache -/

theorem unmoved_updateEventsCache : Unmoved ops (ops.updateEventsCache cal now) := by
  rw [updateEventsCache]
  exact @unmoved_notify { ops with nextSingleEvents := _ } _ rfl

theorem unmoved_checkAndUpdateCache : Unmoved ops (ops.checkAndUpdateCache cal now record) := by
  rw [checkAndUpdateCache]
  split
  case isTrue => exact unmoved_updateEventsCache
  case isFalse => exact ⟨rfl, rfl⟩

theorem unmoved_repo : Unmoved ops { ops with alarmEventsRepo := table } := ⟨rfl, rfl⟩

theorem unmoved_addAlarm : Unmoved ops (ops.addAlarm cal now record) :=
  unmoved_repo.trans unmoved_checkAndUpdateCache

theorem unmoved_updateAlarm : Unmoved ops (ops.updateAlarm cal now record) := by
  simp only [updateAlarm]
  split
  case isTrue => exact unmoved_repo.trans unmoved_updateEventsCache
  case isFalse => exact unmoved_repo.trans unmoved_checkAndUpdateCache

theorem unmoved_removeAlarm : Unmoved ops (ops.removeAlarm cal now id) := by
  simp only [removeAlarm]
  split
  case isTrue => exact unmoved_repo.trans unmoved_updateEventsCache
  case isFalse => exact unmoved_repo

theorem unmoved_toggleAll {toggle : Bool} : Unmoved ops (ops.toggleAll cal now toggle) :=
  unmoved_repo.trans unmoved_updateEventsCache

theorem unmoved_processNextEventsQueue : Unmoved ops (ops.processNextEventsQueue cal now) := by
  rw [processNextEventsQueue]
  split
  case isTrue =>
      refine Unmoved.trans ?_ unmoved_updateEventsCache
      cases ops.isCriticalBatteryLevel <;> exact ⟨rfl, rfl⟩
  case isFalse => exact ⟨rfl, rfl⟩

/-! ## Ringing and snoozing -/

/-- However many alarms a phone call snoozes, the last word is their number. -/
theorem countShown_snoozeOngoing {front : OngoingEvent} {rest : List OngoingEvent} :
    (snoozeOngoing env (front :: rest) ops).CountShown := by
  rw [snoozeOngoing_cons]
  exact unmoved_handleActiveAlarmsCountChange.countShown countShown_told

theorem countShown_processOngoingEvents (h : ops.ongoingSingleEvents ≠ [] ∨ ops.CountShown) :
    (ops.processOngoingEvents env).CountShown := by
  rw [processOngoingEvents]
  split
  case h_1 hnone => exact h.resolve_left (not_not_intro hnone)
  case h_2 front rest _ =>
      split
      case isTrue => exact countShown_snoozeOngoing
      case isFalse => exact countShown_told

theorem countShown_turnOffRingingAlarm (h : ops.CountShown) :
    (ops.turnOffRingingAlarm env id).1.CountShown := by
  rw [turnOffRingingAlarm]
  split
  case h_1 => exact h
  case h_2 found _ =>
      refine unmoved_handleActiveAlarmsCountChange.countShown ?_
      refine countShown_processOngoingEvents (Or.inr ?_)
      exact (@unmoved_notify { ops with ongoingSingleEvents := _ } _ rfl).countShown h

theorem countShown_turnOffSnoozedAlarm (h : ops.CountShown) :
    (ops.turnOffSnoozedAlarm id).1.CountShown := by
  rw [turnOffSnoozedAlarm]
  split
  case h_1 => exact h
  case h_2 => exact unmoved_handleActiveAlarmsCountChange.countShown countShown_told

theorem countShown_snoozeRingingAlarm (h : ops.CountShown) :
    (ops.snoozeRingingAlarm env id nextAlarmTime).1.CountShown := by
  rw [snoozeRingingAlarm]
  split
  case h_1 => exact h
  case h_2 => exact unmoved_handleActiveAlarmsCountChange.countShown countShown_told

theorem unmoved_postponeSnooze : Unmoved ops (ops.postponeSnooze id nextAlarmTime).1 := by
  rw [postponeSnooze]
  split
  case h_1 => exact ⟨rfl, rfl⟩
  case h_2 i _ => exact ⟨rfl, List.length_modify _ _ i⟩

theorem countShown_stopAllSnoozedAlarms : ops.stopAllSnoozedAlarms.CountShown :=
  unmoved_handleActiveAlarmsCountChange.countShown countShown_told

/-! ## A minute -/

theorem unmoved_processSnoozedEventsQueue
    (h : ∀ event ∈ ops.snoozedSingleEvents, now < event.startDate) :
    Unmoved ops (ops.processSnoozedEventsQueue now) := by
  refine ⟨rfl, congrArg List.length (List.filter_eq_self.2 ?_)⟩
  intro event hevent
  exact decide_eq_true (not_le.2 (h event hevent))

/-- A snoozed alarm that wakes is missing from the list, not from what is shown. -/
theorem not_countShown_processSnoozedEventsQueue (hshown : ops.CountShown)
    (h : ¬ ∀ event ∈ ops.snoozedSingleEvents, now < event.startDate) :
    ¬ (ops.processSnoozedEventsQueue now).CountShown := by
  have hless : (ops.snoozedSingleEvents.filter fun event =>
      decide ¬ event.startDate ≤ now).length < ops.snoozedSingleEvents.length := by
    obtain ⟨event, hevent, hdue⟩ : ∃ event ∈ ops.snoozedSingleEvents, ¬ now < event.startDate := by
      simpa using h
    refine List.length_filter_lt_length_iff_exists.2 ⟨event, hevent, ?_⟩
    simpa using hdue
  have hsame : (ops.processSnoozedEventsQueue now).snoozedCountShown =
      ops.snoozedSingleEvents.length := hshown
  rw [CountShown, hsame]
  exact Nat.ne_of_gt hless

theorem snoozed_processNextEventsQueue :
    (ops.processNextEventsQueue cal now).snoozedSingleEvents = ops.snoozedSingleEvents := by
  rw [processNextEventsQueue]
  split
  case isTrue => cases ops.isCriticalBatteryLevel <;> rfl
  case isFalse => rfl

theorem countShown_minuteUpdated_iff (hshown : ops.CountShown) :
    (ops.minuteUpdated cal env now).CountShown ↔
      ops.ongoingSingleEvents = [] ∨
        ∀ event ∈ ops.snoozedSingleEvents, now < event.startDate := by
  have hwaited := (@unmoved_processNextEventsQueue cal now ops).countShown hshown
  rw [minuteUpdated, ← @snoozed_processNextEventsQueue cal now ops]
  by_cases hdue : ∀ event ∈ (ops.processNextEventsQueue cal now).snoozedSingleEvents,
      now < event.startDate
  · refine iff_of_true ?_ (Or.inr hdue)
    have hwoken := (unmoved_processSnoozedEventsQueue hdue).countShown hwaited
    split
    case isTrue => exact hwoken
    case isFalse => exact countShown_processOngoingEvents (Or.inr hwoken)
  · cases hongoing : ops.ongoingSingleEvents with
    | cons front rest =>
        rw [if_pos (by simp)]
        refine iff_of_false (not_countShown_processSnoozedEventsQueue hwaited hdue) ?_
        exact not_or_intro (by simp) hdue
    | nil =>
        -- What wakes is ongoing now, and to process it is to tell.
        rw [if_neg (by simp)]
        refine iff_of_true (countShown_processOngoingEvents (Or.inl ?_)) (Or.inl rfl)
        obtain ⟨event, hevent, hwakes⟩ : ∃ event ∈
            (ops.processNextEventsQueue cal now).snoozedSingleEvents,
              ¬ now < event.startDate := by
          simpa using hdue
        refine List.append_ne_nil_of_right_ne_nil _ ?_
        refine List.ne_nil_of_mem (List.mem_map_of_mem (List.mem_filter.2 ⟨hevent, ?_⟩))
        exact decide_eq_true (not_lt.1 hwakes)

/-! ## Every run -/

theorem countShown_called_iff (h : ops.CountShown) :
    (ops.called cal call).CountShown ↔ ops.AloneAwake call := by
  rw [called, AloneAwake]
  cases hop : call.op with
  | minuteUpdated env => exact countShown_minuteUpdated_iff h
  | updateEventsCache => exact iff_of_true (unmoved_updateEventsCache.countShown h) trivial
  | get => exact iff_of_true h trivial
  | addAlarm record => exact iff_of_true (unmoved_addAlarm.countShown h) trivial
  | updateAlarm record => exact iff_of_true (unmoved_updateAlarm.countShown h) trivial
  | removeAlarm alarmId => exact iff_of_true (unmoved_removeAlarm.countShown h) trivial
  | toggleAll toggle => exact iff_of_true (unmoved_toggleAll.countShown h) trivial
  | turnOffRingingAlarm env id => exact iff_of_true (countShown_turnOffRingingAlarm h) trivial
  | turnOffSnoozedAlarm id => exact iff_of_true (countShown_turnOffSnoozedAlarm h) trivial
  | snoozeRingingAlarm env id nextAlarmTime =>
      exact iff_of_true (countShown_snoozeRingingAlarm h) trivial
  | postponeSnooze id nextAlarmTime =>
      exact iff_of_true (unmoved_postponeSnooze.countShown h) trivial
  | stopAllSnoozedAlarms => exact iff_of_true countShown_stopAllSnoozedAlarms trivial
  | handleCriticalBatteryLevel => exact iff_of_true countShown_stopAllSnoozedAlarms trivial
  | handleNormalBatteryLevel => exact iff_of_true h trivial

/-- In a run what is shown is right after every operation exactly when no snoozed alarm wakes
while another rings. -/
theorem countShown_iff_aloneAwake :
    EveryStep (fun ops call => (ops.called cal call).CountShown) (called cal)
        (construct table) calls ↔
      EveryStep AloneAwake (called cal) (construct table) calls :=
  @everyStep_congr _ _ CountShown (fun ops call => (ops.called cal call).CountShown) AloneAwake
    (called cal) (fun _ _ h => countShown_called_iff h)
    (fun _ _ h hrule => (countShown_called_iff h).2 hrule) calls (construct table) rfl

open Morning

/-- An alarm snoozed at nine until a quarter past wakes while the one for ten past rings. -/
theorem woken_alarm_shown :
    ¬ EveryStep (fun ops call => (ops.called greenwich call).CountShown) (called greenwich)
      (construct ⟨[alarm 1 9 0, alarm 2 9 10]⟩)
      [⟨clock 8 0, .updateEventsCache⟩,
        ⟨clock 9 0, .minuteUpdated quiet⟩,
        ⟨clock 9 1, .snoozeRingingAlarm quiet 1 (clock 9 15)⟩,
        ⟨clock 9 10, .minuteUpdated quiet⟩,
        ⟨clock 9 15, .minuteUpdated quiet⟩] := by
  intro ⟨_, _, _, _, hshown, _⟩
  revert hshown
  decide

end MuditaOS.Alarms.AlarmOperationsCommon
