import Mathlib.Data.Int.Order.Basic
import MuditaOS.Lib.Earliest
import MuditaOS.Lib.Run
import MuditaOS.Time.AlarmOperations

/-!
# Alarm operations over time

What the events in the cache are for: they should be the next single events of
the enabled alarms, as the table and the clock have them now, with the earliest
start date. A session is the operations with the time the last of them was
called at.
-/

namespace MuditaOS.Alarms

open Lib

variable (cal : Calendar)

/-- The next single event of a record that has one. -/
def occurrence (now : TimePoint) (record : AlarmEventRecord) :
    Option SingleEventRecord :=
  if (record.getNextSingleEvent cal now).startDate = TIME_POINT_INVALID then none
  else some (record.getNextSingleEvent cal now)

def upcoming (now : TimePoint) (table : AlarmEventsTable) :
    List SingleEventRecord :=
  table.getEnabled.filterMap (occurrence cal now)

def nextEvents (now : TimePoint) (table : AlarmEventsTable) :
    List SingleEventRecord :=
  earliest SingleEventRecord.startDate (upcoming cal now table)

inductive AlarmOp
  | addAlarm (record : AlarmEventRecord)
  | updateAlarm (record : AlarmEventRecord)
  | removeAlarm (alarmId : Nat)
  | toggleAll (toggle : Bool)
  | minuteUpdated (env : Surroundings)
  deriving DecidableEq, Repr

structure AlarmCall where
  now : TimePoint
  op : AlarmOp
  deriving DecidableEq, Repr

structure AlarmSession where
  ops : AlarmOperationsCommon
  time : TimePoint
  deriving DecidableEq, Repr

namespace AlarmSession

/-- The service over an existing table, after its first look at it. -/
def start (now : TimePoint) (table : AlarmEventsTable) : AlarmSession where
  ops := AlarmOperationsCommon.updateEventsCache cal now
    { alarmEventsRepo := table
      nextSingleEvents := []
      ongoingSingleEvents := []
      snoozedSingleEvents := []
      isCriticalBatteryLevel := false
      notices := [] }
  time := now

def step (s : AlarmSession) (call : AlarmCall) : AlarmSession where
  ops :=
    match call.op with
    | .addAlarm record => s.ops.addAlarm cal call.now record
    | .updateAlarm record => s.ops.updateAlarm cal call.now record
    | .removeAlarm alarmId => s.ops.removeAlarm cal call.now alarmId
    | .toggleAll toggle => s.ops.toggleAll cal call.now toggle
    | .minuteUpdated env => s.ops.minuteUpdated cal env call.now
  time := call.now

/-- What a call makes ring: the events `processNextEventsQueue` adds to those
that are ongoing. -/
def triggered (s : AlarmSession) (call : AlarmCall) : List OngoingEvent :=
  match call.op with
  | .minuteUpdated _ =>
      (s.ops.processNextEventsQueue cal call.now).ongoingSingleEvents.drop
        s.ops.ongoingSingleEvents.length
  | _ => []

def Agrees (s : AlarmSession) : Prop :=
  s.ops.nextSingleEvents = nextEvents cal s.time s.ops.alarmEventsRepo

/-- The cache agrees with the table after the call, what rings is the next event
of an enabled alarm, and every occurrence the clock has reached rings. -/
def Faithful (s : AlarmSession) (call : AlarmCall) : Prop :=
  (s.step cal call).Agrees cal ∧
  (∀ event ∈ s.triggered cal call, ∃ record ∈ s.ops.alarmEventsRepo.getEnabled,
    occurrence cal s.time record = some event.record) ∧
  ∀ record ∈ s.ops.alarmEventsRepo.getEnabled, ∀ event,
    occurrence cal s.time record = some event → event.startDate ≤ call.now →
      OngoingEvent.single event ∈ s.triggered cal call

/-! ## When a call keeps the cache faithful -/

/-- No enabled alarm's next occurrence was reached, or moved, since the last
call. -/
def Waiting (s : AlarmSession) (now : TimePoint) : Prop :=
  ∀ record ∈ s.ops.alarmEventsRepo.getEnabled,
    (record.getNextSingleEvent cal now).startDate =
        (record.getNextSingleEvent cal s.time).startDate ∧
      ∀ event ∈ occurrence cal s.time record, now < event.startDate

/-- The first enabled alarm in the table, if there is any, occurs again. -/
def FirstOccurs (now : TimePoint) (table : AlarmEventsTable) : Prop :=
  ∀ record ∈ table.getEnabled.head?, (occurrence cal now record).isSome

/-- If the record occurs again, it is later than now and at a date that counts
as valid. -/
def Ahead (now : TimePoint) (record : AlarmEventRecord) : Prop :=
  ∀ event ∈ occurrence cal now record, event.isValid ∧ now < event.startDate

/-- Some occurrence was reached since the last call, and no two at different
dates. -/
def OneDateReached (s : AlarmSession) (now : TimePoint) : Prop :=
  s.ops.due now ∧
  ∀ event ∈ upcoming cal s.time s.ops.alarmEventsRepo, event.startDate ≤ now →
    ∀ other ∈ upcoming cal s.time s.ops.alarmEventsRepo, other.startDate ≤ now →
      event.startDate = other.startDate

/-- The rule of the operations. -/
def InTime (s : AlarmSession) (call : AlarmCall) : Prop :=
  match call.op with
  | .addAlarm record =>
      s.Waiting cal call.now ∧ (record.enabled → Ahead cal call.now record) ∧
      (s.ops.entersCache cal call.now record →
        FirstOccurs cal call.now (s.ops.alarmEventsRepo.add record))
  | .updateAlarm record =>
      s.Waiting cal call.now ∧ (record.enabled → Ahead cal call.now record) ∧
      ((findSingleEventById s.ops.nextSingleEvents record.ID).isSome ∨
          s.ops.entersCache cal call.now record →
        FirstOccurs cal call.now (s.ops.alarmEventsRepo.update record))
  | .removeAlarm alarmId =>
      s.Waiting cal call.now ∧
      ((findSingleEventById s.ops.nextSingleEvents alarmId).isSome →
        s.ops.nextSingleEvents.length = 1 ∧
          FirstOccurs cal call.now (s.ops.alarmEventsRepo.removeById alarmId))
  | .toggleAll toggle =>
      s.Waiting cal call.now ∧
        FirstOccurs cal call.now (s.ops.alarmEventsRepo.toggleAll toggle)
  | .minuteUpdated _ =>
      s.Waiting cal call.now ∨
        s.OneDateReached cal call.now ∧
          FirstOccurs cal call.now s.ops.alarmEventsRepo

instance (s : AlarmSession) : Decidable (s.Agrees cal) :=
  inferInstanceAs (Decidable (_ = _))

instance (s : AlarmSession) (now : TimePoint) : Decidable (s.Waiting cal now) :=
  inferInstanceAs (Decidable (∀ record ∈ s.ops.alarmEventsRepo.getEnabled, _ ∧
    ∀ event ∈ occurrence cal s.time record, now < event.startDate))

instance (now : TimePoint) (table : AlarmEventsTable) :
    Decidable (FirstOccurs cal now table) :=
  inferInstanceAs (Decidable (∀ record ∈ table.getEnabled.head?, _))

instance (now : TimePoint) (record : AlarmEventRecord) :
    Decidable (Ahead cal now record) :=
  inferInstanceAs (Decidable (∀ event ∈ occurrence cal now record, _))

instance (s : AlarmSession) (now : TimePoint) :
    Decidable (s.OneDateReached cal now) :=
  inferInstanceAs (Decidable (_ ∧ ∀ event ∈ upcoming cal s.time _, _ →
    ∀ other ∈ upcoming cal s.time _, _))

instance (s : AlarmSession) (call : AlarmCall) : Decidable (s.InTime cal call) :=
  match call with
  | ⟨_, .addAlarm _⟩ => inferInstanceAs (Decidable (_ ∧ (_ → _) ∧ (_ → _)))
  | ⟨_, .updateAlarm _⟩ =>
      inferInstanceAs (Decidable (_ ∧ (_ → _) ∧ (_ ∨ _ → _)))
  | ⟨_, .removeAlarm _⟩ => inferInstanceAs (Decidable (_ ∧ (_ → _ ∧ _)))
  | ⟨_, .toggleAll _⟩ => inferInstanceAs (Decidable (_ ∧ _))
  | ⟨_, .minuteUpdated _⟩ => inferInstanceAs (Decidable (_ ∨ _ ∧ _))

end AlarmSession

end MuditaOS.Alarms
