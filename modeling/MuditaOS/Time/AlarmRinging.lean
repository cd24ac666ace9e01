import MuditaOS.Time.AlarmSession

/-!
# Ringing and snoozed alarms

The operations by which alarms stop ringing, are snoozed and are turned off. What is asked of
the surroundings while an operation runs, a phone call among it, is an argument of the call, so
a phone call may start and end between any two of them.

`processOngoingEvents` and `snoozeRingingAlarm` call each other while a phone call goes on.
Here the second is built on the first, which goes down the list of the ongoing events; the
recursion of the source is given beside it, bounded in its depth.
-/

namespace MuditaOS.Alarms

open Lib

namespace OngoingEvent

def isOf (id : Nat) (event : OngoingEvent) : Bool := id = event.record.parent.ID

def withHandled (handled : Bool) : OngoingEvent → OngoingEvent
  | single event => single { event with wasHandledDuringPhoneCall := handled }
  | snoozed event => snoozed { event with wasHandledDuringPhoneCall := handled }

/-- The new `SnoozedAlarmEventRecord` of `snoozeRingingAlarm`. -/
def newSnoozed (env : Surroundings) (nextAlarmTime : TimePoint) (found : OngoingEvent) :
    SnoozedAlarmEventRecord where
  parent := found.record.parent
  startDate := nextAlarmTime
  endDate := TimePointFloorMinutes found.record.endDate
  wasHandledDuringPhoneCall := found.record.wasHandledDuringPhoneCall
  snoozeCount := found.nextSnoozeCount
  snoozeStart := env.timePointNow

end OngoingEvent

def SnoozedAlarmEventRecord.isOf (id : Nat) (event : SnoozedAlarmEventRecord) : Bool :=
  id = event.parent.ID

namespace AlarmOperationsCommon

variable (env : Surroundings) (id : Nat) (nextAlarmTime : TimePoint)

/-- Each operation with what it tells its callback. -/
def turnOffRingingAlarm (ops : AlarmOperationsCommon) : AlarmOperationsCommon × Bool :=
  match ops.ongoingSingleEvents.find? (·.isOf id) with
  | none => (ops, false)
  | some found =>
      let erased :=
        { ops with ongoingSingleEvents := ops.ongoingSingleEvents.eraseP (·.isOf id) }.notify
          (.handleOff found.record.parent)
      ((erased.processOngoingEvents env).handleActiveAlarmsCountChange, true)

def turnOffSnoozedAlarm (ops : AlarmOperationsCommon) : AlarmOperationsCommon × Bool :=
  match ops.snoozedSingleEvents.find? (·.isOf id) with
  | none => (ops, false)
  | some _ =>
      let erased :=
        { ops with snoozedSingleEvents := ops.snoozedSingleEvents.eraseP (·.isOf id) }
      (erased.handleSnoozedAlarmsCountChange.handleActiveAlarmsCountChange, true)

/-- `snoozeRingingAlarm` up to `processOngoingEvents`, if it finds the event. -/
def moveToSnoozed (ops : AlarmOperationsCommon) : Option AlarmOperationsCommon :=
  match ops.ongoingSingleEvents.find? (·.isOf id) with
  | none => none
  | some found =>
      let others := ops.snoozedSingleEvents.filter fun event => event.parent.ID != id
      let moved :=
        { ops with
          snoozedSingleEvents := others ++ [found.newSnoozed env nextAlarmTime]
          ongoingSingleEvents := ops.ongoingSingleEvents.eraseP (·.isOf id) }
      some (if found.record.wasHandledDuringPhoneCall then moved
        else moved.notify (.handleOff found.record.parent))

def snoozeRingingAlarm (ops : AlarmOperationsCommon) : AlarmOperationsCommon × Bool :=
  match ops.moveToSnoozed env id nextAlarmTime with
  | none => (ops, false)
  | some moved =>
      ((moved.processOngoingEvents env).handleSnoozedAlarmsCountChange
        |>.handleActiveAlarmsCountChange, true)

def postponeSnooze (ops : AlarmOperationsCommon) : AlarmOperationsCommon × Bool :=
  match ops.snoozedSingleEvents.findIdx? (·.isOf id) with
  | none => (ops, false)
  | some i =>
      ({ ops with
          snoozedSingleEvents := ops.snoozedSingleEvents.modify i fun event =>
            { event with startDate := nextAlarmTime } },
        true)

def stopAllSnoozedAlarms (ops : AlarmOperationsCommon) : AlarmOperationsCommon :=
  { ops with snoozedSingleEvents := [] }.handleSnoozedAlarmsCountChange
    |>.handleActiveAlarmsCountChange

def stopAllRingingAlarms (ops : AlarmOperationsCommon) : AlarmOperationsCommon :=
  if ops.ongoingSingleEvents.isEmpty then ops
  else
    { ops with
      ongoingSingleEvents := []
      notices := ops.notices ++
        ops.ongoingSingleEvents.map fun (event : OngoingEvent) =>
          Notice.handleOff event.record.parent
      }.handleActiveAlarmsCountChange

/-! ## The recursion of the source -/

/-- What `processOngoingEvents` tells during a phone call before it snoozes the event in
front. -/
def tellFront (front : OngoingEvent) (rest : List OngoingEvent) (ops : AlarmOperationsCommon) :
    AlarmOperationsCommon :=
  if !front.record.wasHandledDuringPhoneCall && env.tellsAlarmDuringPhoneCall then
    { ops with ongoingSingleEvents := front.withHandled true :: rest }.notify
      .alarmDuringPhoneCall
  else ops

mutual

/-- `snoozeRingingAlarm`, with a bound on the depth of the calls; none if it is too low. -/
def snoozeRingingAlarmWithin :
    Nat → Nat → TimePoint → AlarmOperationsCommon → Option (AlarmOperationsCommon × Bool)
  | 0, _, _, _ => none
  | fuel + 1, id, nextAlarmTime, ops =>
      match ops.moveToSnoozed env id nextAlarmTime with
      | none => some (ops, false)
      | some moved =>
          (processOngoingEventsWithin fuel moved).map fun processed =>
            (processed.handleSnoozedAlarmsCountChange.handleActiveAlarmsCountChange, true)

/-- `processOngoingEvents`, in the same way. -/
def processOngoingEventsWithin :
    Nat → AlarmOperationsCommon → Option AlarmOperationsCommon
  | 0, _ => none
  | fuel + 1, ops =>
      match ops.ongoingSingleEvents with
      | [] => some ops
      | front :: rest =>
          if env.phoneCallIsOngoing then
            (snoozeRingingAlarmWithin fuel front.record.parent.ID
              (TimePointFloorMinutes env.timePointNow + minutes 1)
              (ops.tellFront env front rest)).map Prod.fst
          else
            some
              (({ ops with ongoingSingleEvents := front.withHandled false :: rest }.notify
                (.handle front.record.parent)).handleActiveAlarmsCountChange
                ).handleSnoozedAlarmsCountChange

end

/-- How many entries an alarm has. -/
def entries (ops : AlarmOperationsCommon) : Nat :=
  ops.ongoingSingleEvents.countP (·.isOf id) + ops.snoozedSingleEvents.countP (·.isOf id)

end AlarmOperationsCommon

/-! ## Sessions -/

inductive RingingOp
  | cache (op : AlarmOp)
  | snoozeRingingAlarm (env : Surroundings) (id : Nat) (nextAlarmTime : TimePoint)
  | postponeSnooze (id : Nat) (nextAlarmTime : TimePoint)
  | turnOffRingingAlarm (env : Surroundings) (id : Nat)
  | turnOffSnoozedAlarm (id : Nat)
  | stopAllSnoozedAlarms
  | stopAllRingingAlarms
  deriving DecidableEq, Repr

structure RingingCall where
  now : TimePoint
  op : RingingOp
  deriving DecidableEq, Repr

/-- A table in which `_id` is the primary key. -/
structure KeyedTable extends AlarmEventsTable where
  keyed : (rows.map AlarmEventRecord.ID).Nodup

/-- A session, with the alarms that have been triggered and not been turned off since. -/
structure RingingSession extends AlarmSession where
  live : List Nat
  deriving DecidableEq, Repr

namespace RingingSession

variable (cal : Calendar)

def start (now : TimePoint) (table : KeyedTable) : RingingSession where
  toAlarmSession := .start cal now table.toAlarmEventsTable
  live := []

def called (s : RingingSession) (call : RingingCall) : AlarmOperationsCommon :=
  match call.op with
  | .cache op => (s.toAlarmSession.step cal ⟨call.now, op⟩).ops
  | .snoozeRingingAlarm env id nextAlarmTime =>
      (s.ops.snoozeRingingAlarm env id nextAlarmTime).1
  | .postponeSnooze id nextAlarmTime => (s.ops.postponeSnooze id nextAlarmTime).1
  | .turnOffRingingAlarm env id => (s.ops.turnOffRingingAlarm env id).1
  | .turnOffSnoozedAlarm id => (s.ops.turnOffSnoozedAlarm id).1
  | .stopAllSnoozedAlarms => s.ops.stopAllSnoozedAlarms
  | .stopAllRingingAlarms => s.ops.stopAllRingingAlarms

/-- The alarms the call turns off: the one it names, if the operation succeeds, or all that are
snoozed or ring. -/
def turnsOff (s : RingingSession) (call : RingingCall) (id : Nat) : Bool :=
  match call.op with
  | .turnOffRingingAlarm env named => (s.ops.turnOffRingingAlarm env named).2 && id = named
  | .turnOffSnoozedAlarm named => (s.ops.turnOffSnoozedAlarm named).2 && id = named
  | .stopAllSnoozedAlarms => s.ops.snoozedSingleEvents.any (·.isOf id)
  | .stopAllRingingAlarms => s.ops.ongoingSingleEvents.any (·.isOf id)
  | _ => false

/-- The alarms the call triggers. -/
def triggers (s : RingingSession) (call : RingingCall) : List Nat :=
  match call.op with
  | .cache op =>
      (s.toAlarmSession.triggered cal ⟨call.now, op⟩).map fun event => event.record.parent.ID
  | _ => []

def step (s : RingingSession) (call : RingingCall) : RingingSession where
  ops := s.called cal call
  time := call.now
  live := s.live.filter (fun id => !s.turnsOff call id) ++ s.triggers cal call

/-- An alarm triggered and not turned off since has one entry, any other none. -/
def Conserved (s : RingingSession) : Prop :=
  ∀ id, s.ops.entries id = if id ∈ s.live then 1 else 0

/-- An alarm triggered has no entry yet, or all that is ongoing is snoozed at once. -/
def Unentered (s : RingingSession) (call : RingingCall) : Prop :=
  match call.op with
  | .cache (.minuteUpdated env) =>
      s.ops.due call.now →
        (s.ops.ongoingSingleEvents = [] ∧ env.phoneCallIsOngoing) ∨
          ∀ event ∈ s.ops.nextSingleEvents, s.ops.entries event.parent.ID = 0
  | _ => True

end RingingSession

end MuditaOS.Alarms

/-! ## The count of the snoozed alarms

All that may be called on the operations, and the count of the snoozed alarms that the last
call of `onSnoozedAlarmsCountChange` passed on. The callback is in place from the start; what
is asked of the surroundings while an operation runs is an argument of the call.
-/

namespace MuditaOS.Alarms

open Lib

/-- The count a notice passes to `onSnoozedAlarmsCountChange`. -/
def Notice.snoozedCount : Notice → Option Nat
  | snoozedAlarmsCount count => some count
  | _ => none

namespace AlarmOperationsCommon

variable (cal : Calendar)

/-- The operations as they are constructed. -/
def construct (table : AlarmEventsTable) : AlarmOperationsCommon where
  alarmEventsRepo := table
  nextSingleEvents := []
  ongoingSingleEvents := []
  snoozedSingleEvents := []
  isCriticalBatteryLevel := false
  notices := []

def handleCriticalBatteryLevel (ops : AlarmOperationsCommon) : AlarmOperationsCommon :=
  { ops with isCriticalBatteryLevel := true }.stopAllRingingAlarms.stopAllSnoozedAlarms

def handleNormalBatteryLevel (ops : AlarmOperationsCommon) : AlarmOperationsCommon :=
  { ops with isCriticalBatteryLevel := false }

/-- The count last passed on, 0 if none was. -/
def snoozedCountShown (ops : AlarmOperationsCommon) : Nat :=
  (ops.notices.filterMap Notice.snoozedCount).getLast?.getD 0

end AlarmOperationsCommon

inductive PublicOp
  | updateEventsCache
  /-- `getAlarm`, `getAlarmWithStatus`, `getAlarmsInRange`, `getNextSingleEvents` and
  `getSnoozedAlarms`, which only read. -/
  | get
  | addAlarm (record : AlarmEventRecord)
  | updateAlarm (record : AlarmEventRecord)
  | removeAlarm (alarmId : Nat)
  | toggleAll (toggle : Bool)
  | turnOffRingingAlarm (env : Surroundings) (id : Nat)
  | turnOffSnoozedAlarm (id : Nat)
  | snoozeRingingAlarm (env : Surroundings) (id : Nat) (nextAlarmTime : TimePoint)
  | postponeSnooze (id : Nat) (nextAlarmTime : TimePoint)
  | minuteUpdated (env : Surroundings)
  | stopAllSnoozedAlarms
  | handleCriticalBatteryLevel
  | handleNormalBatteryLevel
  deriving DecidableEq, Repr

structure PublicCall where
  now : TimePoint
  op : PublicOp
  deriving DecidableEq, Repr

namespace AlarmOperationsCommon

variable (cal : Calendar)

def called (ops : AlarmOperationsCommon) (call : PublicCall) : AlarmOperationsCommon :=
  match call.op with
  | .updateEventsCache => ops.updateEventsCache cal call.now
  | .get => ops
  | .addAlarm record => ops.addAlarm cal call.now record
  | .updateAlarm record => ops.updateAlarm cal call.now record
  | .removeAlarm alarmId => ops.removeAlarm cal call.now alarmId
  | .toggleAll toggle => ops.toggleAll cal call.now toggle
  | .turnOffRingingAlarm env id => (ops.turnOffRingingAlarm env id).1
  | .turnOffSnoozedAlarm id => (ops.turnOffSnoozedAlarm id).1
  | .snoozeRingingAlarm env id nextAlarmTime => (ops.snoozeRingingAlarm env id nextAlarmTime).1
  | .postponeSnooze id nextAlarmTime => (ops.postponeSnooze id nextAlarmTime).1
  | .minuteUpdated env => ops.minuteUpdated cal env call.now
  | .stopAllSnoozedAlarms => ops.stopAllSnoozedAlarms
  | .handleCriticalBatteryLevel => ops.handleCriticalBatteryLevel
  | .handleNormalBatteryLevel => ops.handleNormalBatteryLevel

/-- What is shown is how many alarms are snoozed. -/
def CountShown (ops : AlarmOperationsCommon) : Prop :=
  ops.snoozedCountShown = ops.snoozedSingleEvents.length

/-- No snoozed alarm's time has come when a minute finds another alarm ringing. -/
def AloneAwake (ops : AlarmOperationsCommon) (call : PublicCall) : Prop :=
  match call.op with
  | .minuteUpdated _ =>
      ops.ongoingSingleEvents = [] ∨ ∀ event ∈ ops.snoozedSingleEvents, call.now < event.startDate
  | _ => True

instance (ops : AlarmOperationsCommon) : Decidable ops.CountShown :=
  inferInstanceAs (Decidable (_ = _))

end AlarmOperationsCommon

end MuditaOS.Alarms
