import Mathlib.Data.List.Basic

/-!
# Alarm operations

The time service keeps the alarms in a database table and, beside it, the events
it waits for: those with the earliest start date. The table is modelled as the
rows in `_id` order. Time zones and recurrence rules are not decided here: the
calendar says when a local hour and minute falls on a day, and what the
iterator over a rule yields before its null time.
-/

namespace MuditaOS.Alarms

/-! ## Time points -/

/-- Nanoseconds since the epoch. -/
abbrev TimePoint := Int

def TIME_POINT_INVALID : TimePoint := 0
def TIME_POINT_MAX : TimePoint := 9223286400000000000

def minutes (n : Int) : Int := n * 60000000000
def hours (n : Int) : Int := n * 3600000000000
def days (n : Int) : Int := n * 86400000000000

def TimePointFloorMinutes (tp : TimePoint) : TimePoint := minutes (tp / minutes 1)

/-- The time of day of `tp` in the 24 hours after `relativeTime`. -/
def GetFollowingDayTime (tp relativeTime : TimePoint) : TimePoint :=
  let diff := relativeTime - tp
  if diff > hours 0 then tp + days (-(-diff / days 1))
  else if diff = hours 0 then tp + days 1
  else if diff < hours 0 ∧ (diff.natAbs : Int) > hours 24 then
    tp - days ((diff.natAbs : Int) / days 1)
  else tp

structure Calendar where
  /-- `localtime`, the hour and the minute set, and `mktime`. -/
  localTime : (hour minute : Nat) → TimePoint → TimePoint
  /-- What the iterator over a rule from an event's start yields. -/
  recurrences : String → TimePoint → List TimePoint

namespace Calendar

variable (cal : Calendar)

def nextTimePointFromHHMM (hour minute : Nat) (start : TimePoint) : TimePoint :=
  GetFollowingDayTime (TimePointFloorMinutes (cal.localTime hour minute start)) start

def generateNextTimePoint (rrule : String) (eventStart rangeStart : TimePoint) :
    TimePoint :=
  ((cal.recurrences rrule eventStart).find?
    fun t => t = TIME_POINT_INVALID ∨ rangeStart < t).getD TIME_POINT_INVALID

end Calendar

/-! ## Records and single events -/

structure AlarmTime where
  hourOfDay : Nat
  minuteOfHour : Nat
  deriving DecidableEq, Repr

structure AlarmEventRecord where
  ID : Nat
  alarmTime : AlarmTime
  musicTone : String
  enabled : Bool
  snoozeDuration : Nat
  rruleText : String
  deriving DecidableEq, Repr

structure SingleEventRecord where
  parent : AlarmEventRecord
  startDate : TimePoint
  endDate : TimePoint
  wasHandledDuringPhoneCall : Bool
  deriving DecidableEq, Repr

def SingleEventRecord.isValid (event : SingleEventRecord) : Bool :=
  !(event.startDate = TIME_POINT_INVALID || event.startDate = TIME_POINT_MAX ||
    event.endDate = TIME_POINT_INVALID)

def AlarmEventRecord.getNextSingleEvent (cal : Calendar) (start : TimePoint)
    (record : AlarmEventRecord) : SingleEventRecord :=
  let alarmTimePoint := cal.nextTimePointFromHHMM record.alarmTime.hourOfDay
    record.alarmTime.minuteOfHour start
  let timepoint :=
    if record.rruleText = "" then alarmTimePoint
    else cal.generateNextTimePoint record.rruleText alarmTimePoint start
  { parent := record
    startDate := TimePointFloorMinutes timepoint
    endDate := TimePointFloorMinutes TIME_POINT_MAX
    wasHandledDuringPhoneCall := false }

structure SnoozedAlarmEventRecord extends SingleEventRecord where
  snoozeCount : Nat
  snoozeStart : TimePoint
  deriving DecidableEq, Repr

/-- A ringing or queued event: rung for the first time, or after a snooze. -/
inductive OngoingEvent
  | single (event : SingleEventRecord)
  | snoozed (event : SnoozedAlarmEventRecord)
  deriving DecidableEq, Repr

namespace OngoingEvent

def record : OngoingEvent → SingleEventRecord
  | single event => event
  | snoozed event => event.toSingleEventRecord

/-- The count a new snooze of the event starts with. -/
def nextSnoozeCount : OngoingEvent → Nat
  | single _ => 1
  | snoozed event => event.snoozeCount + 1

end OngoingEvent

/-! ## The table -/

structure AlarmEventsTable where
  rows : List AlarmEventRecord
  deriving DecidableEq, Repr

namespace AlarmEventsTable

/-- An `INTEGER PRIMARY KEY` left out of an insert is one above the largest. -/
def nextId (table : AlarmEventsTable) : Nat :=
  (table.rows.map AlarmEventRecord.ID).foldl max 0 + 1

def add (entry : AlarmEventRecord) (table : AlarmEventsTable) : AlarmEventsTable :=
  ⟨table.rows ++ [{ entry with ID := table.nextId }]⟩

def removeById (id : Nat) (table : AlarmEventsTable) : AlarmEventsTable :=
  ⟨table.rows.filter fun row => row.ID != id⟩

def update (entry : AlarmEventRecord) (table : AlarmEventsTable) : AlarmEventsTable :=
  ⟨table.rows.map fun row => if row.ID = entry.ID then entry else row⟩

def toggleAll (toggle : Bool) (table : AlarmEventsTable) : AlarmEventsTable :=
  ⟨table.rows.map fun row => { row with enabled := toggle }⟩

def getEnabled (table : AlarmEventsTable) : List AlarmEventRecord :=
  table.rows.filter AlarmEventRecord.enabled

end AlarmEventsTable

/-! ## The operations -/

/-- What the operations tell the handlers and the callbacks. -/
inductive Notice
  | handle (record : AlarmEventRecord)
  | handleOff (record : AlarmEventRecord)
  | alarmDuringPhoneCall
  | snoozedAlarmsCount (count : Nat)
  | activeAlarms (any : Bool)
  deriving DecidableEq, Repr

/-- What the operations ask while they run: the callback that tells of a phone
call, whether there is one to tell of an alarm during it, and the clock. -/
structure Surroundings where
  phoneCallIsOngoing : Bool
  tellsAlarmDuringPhoneCall : Bool
  timePointNow : TimePoint
  deriving DecidableEq, Repr

structure AlarmOperationsCommon where
  alarmEventsRepo : AlarmEventsTable
  nextSingleEvents : List SingleEventRecord
  ongoingSingleEvents : List OngoingEvent
  snoozedSingleEvents : List SnoozedAlarmEventRecord
  isCriticalBatteryLevel : Bool
  notices : List Notice
  deriving DecidableEq, Repr

/-- The loop of `onRepoGetAlarmsResponse` over the records still to come. -/
def collectEvents (cal : Calendar) (start : TimePoint) :
    List SingleEventRecord → List AlarmEventRecord → List SingleEventRecord
  | outEvents, [] => outEvents
  | [], record :: records =>
      collectEvents cal start [record.getNextSingleEvent cal start] records
  | front :: rest, record :: records =>
      let event := record.getNextSingleEvent cal start
      if event.startDate ≠ TIME_POINT_INVALID then
        if event.startDate < front.startDate then
          collectEvents cal start [event] records
        else if event.startDate = front.startDate then
          collectEvents cal start (front :: rest ++ [event]) records
        else collectEvents cal start (front :: rest) records
      else collectEvents cal start (front :: rest) records

def onRepoGetAlarmsResponse (cal : Calendar) (start : TimePoint)
    (records : List AlarmEventRecord) : List SingleEventRecord :=
  collectEvents cal start [] records

def findSingleEventById (events : List SingleEventRecord) (id : Nat) :
    Option SingleEventRecord :=
  events.find? fun event => id = event.parent.ID

namespace AlarmOperationsCommon

variable (cal : Calendar)

def notify (notice : Notice) (ops : AlarmOperationsCommon) : AlarmOperationsCommon :=
  { ops with notices := ops.notices ++ [notice] }

def handleSnoozedAlarmsCountChange (ops : AlarmOperationsCommon) :
    AlarmOperationsCommon :=
  ops.notify (.snoozedAlarmsCount ops.snoozedSingleEvents.length)

def handleActiveAlarmsCountChange (ops : AlarmOperationsCommon) :
    AlarmOperationsCommon :=
  ops.notify (.activeAlarms (!ops.nextSingleEvents.isEmpty ||
    !ops.snoozedSingleEvents.isEmpty || !ops.ongoingSingleEvents.isEmpty))

def updateEventsCache (now : TimePoint) (ops : AlarmOperationsCommon) :
    AlarmOperationsCommon :=
  { ops with
    nextSingleEvents :=
      onRepoGetAlarmsResponse cal now ops.alarmEventsRepo.getEnabled
    }.handleActiveAlarmsCountChange

/-- The guards of `checkAndUpdateCache` together. -/
def entersCache (now : TimePoint) (record : AlarmEventRecord)
    (ops : AlarmOperationsCommon) : Bool :=
  let nearestNewSingleEvent := record.getNextSingleEvent cal now
  nearestNewSingleEvent.isValid && now < nearestNewSingleEvent.startDate &&
    (record.enabled &&
      match ops.nextSingleEvents with
      | [] => true
      | front :: _ => nearestNewSingleEvent.startDate ≤ front.startDate)

def checkAndUpdateCache (now : TimePoint) (record : AlarmEventRecord)
    (ops : AlarmOperationsCommon) : AlarmOperationsCommon :=
  if ops.entersCache cal now record then ops.updateEventsCache cal now else ops

def addAlarm (now : TimePoint) (record : AlarmEventRecord)
    (ops : AlarmOperationsCommon) : AlarmOperationsCommon :=
  { ops with alarmEventsRepo := ops.alarmEventsRepo.add record
    }.checkAndUpdateCache cal now record

def updateAlarm (now : TimePoint) (record : AlarmEventRecord)
    (ops : AlarmOperationsCommon) : AlarmOperationsCommon :=
  let updated := { ops with alarmEventsRepo := ops.alarmEventsRepo.update record }
  if (findSingleEventById ops.nextSingleEvents record.ID).isSome then
    updated.updateEventsCache cal now
  else updated.checkAndUpdateCache cal now record

def removeAlarm (now : TimePoint) (alarmId : Nat) (ops : AlarmOperationsCommon) :
    AlarmOperationsCommon :=
  let removed :=
    { ops with alarmEventsRepo := ops.alarmEventsRepo.removeById alarmId }
  if (findSingleEventById ops.nextSingleEvents alarmId).isSome ∧
      ops.nextSingleEvents.length = 1 then
    removed.updateEventsCache cal now
  else removed

def toggleAll (now : TimePoint) (toggle : Bool) (ops : AlarmOperationsCommon) :
    AlarmOperationsCommon :=
  { ops with alarmEventsRepo := ops.alarmEventsRepo.toggleAll toggle
    }.updateEventsCache cal now

def triggerAlarm (ops : AlarmOperationsCommon) : AlarmOperationsCommon :=
  { ops with
    ongoingSingleEvents :=
      ops.ongoingSingleEvents ++ ops.nextSingleEvents.map .single }

/-- The events this minute is the time of. -/
def due (now : TimePoint) (ops : AlarmOperationsCommon) : Bool :=
  match ops.nextSingleEvents with
  | [] => false
  | front :: _ => front.startDate ≤ now

def processNextEventsQueue (now : TimePoint) (ops : AlarmOperationsCommon) :
    AlarmOperationsCommon :=
  if ops.due now then
    let triggered := if ops.isCriticalBatteryLevel then ops else ops.triggerAlarm
    { triggered with nextSingleEvents := [] }.updateEventsCache cal now
  else ops

def processSnoozedEventsQueue (now : TimePoint) (ops : AlarmOperationsCommon) :
    AlarmOperationsCommon :=
  { ops with
    ongoingSingleEvents := ops.ongoingSingleEvents ++
      (ops.snoozedSingleEvents.filter fun event => event.startDate ≤ now).map .snoozed
    snoozedSingleEvents :=
      ops.snoozedSingleEvents.filter fun event => ¬ event.startDate ≤ now }

/-- `snoozeRingingAlarm` up to the events that are left, for the event in front:
the event was looked up by its own id, so the lookup finds it. -/
def snoozeFront (env : Surroundings) (front : OngoingEvent) (handled : Bool)
    (rest : List OngoingEvent) (ops : AlarmOperationsCommon) :
    AlarmOperationsCommon :=
  let nextAlarmTime := TimePointFloorMinutes env.timePointNow + minutes 1
  let newSnoozed : SnoozedAlarmEventRecord :=
    { parent := front.record.parent
      startDate := nextAlarmTime
      endDate := TimePointFloorMinutes front.record.endDate
      wasHandledDuringPhoneCall := handled
      snoozeCount := front.nextSnoozeCount
      snoozeStart := env.timePointNow }
  let others := ops.snoozedSingleEvents.filter fun event =>
    event.parent.ID != front.record.parent.ID
  let snoozed :=
    { ops with
      snoozedSingleEvents := others ++ [newSnoozed]
      ongoingSingleEvents := rest }
  if handled then snoozed
  else snoozed.notify (.handleOff front.record.parent)

/-- What `processOngoingEvents` does while a phone call is going on: it snoozes
the front event, which processes what is left, and tells the counts on the way
back. -/
def snoozeOngoing (env : Surroundings) :
    List OngoingEvent → AlarmOperationsCommon → AlarmOperationsCommon
  | [], ops => ops
  | front :: rest, ops =>
      let tells :=
        !front.record.wasHandledDuringPhoneCall && env.tellsAlarmDuringPhoneCall
      let told := if tells then ops.notify .alarmDuringPhoneCall else ops
      let handled := front.record.wasHandledDuringPhoneCall || tells
      ((snoozeOngoing env rest (told.snoozeFront env front handled rest)
        ).handleSnoozedAlarmsCountChange).handleActiveAlarmsCountChange

def processOngoingEvents (env : Surroundings) (ops : AlarmOperationsCommon) :
    AlarmOperationsCommon :=
  match ops.ongoingSingleEvents with
  | [] => ops
  | front :: rest =>
      if env.phoneCallIsOngoing then
        snoozeOngoing env (front :: rest) ops
      else
        let ready : OngoingEvent :=
          match front with
          | .single event => .single { event with wasHandledDuringPhoneCall := false }
          | .snoozed event => .snoozed { event with wasHandledDuringPhoneCall := false }
        (({ ops with ongoingSingleEvents := ready :: rest }.notify
          (.handle front.record.parent)).handleActiveAlarmsCountChange
          ).handleSnoozedAlarmsCountChange

/-- `processEvents`, all that `minuteUpdated` does. -/
def minuteUpdated (env : Surroundings) (now : TimePoint)
    (ops : AlarmOperationsCommon) : AlarmOperationsCommon :=
  let isHandlingInProgress := !ops.ongoingSingleEvents.isEmpty
  let waited := ops.processNextEventsQueue cal now
  let woken := waited.processSnoozedEventsQueue now
  if isHandlingInProgress then woken else woken.processOngoingEvents env

end AlarmOperationsCommon

end MuditaOS.Alarms
