import MuditaOS.Lib.BoundedQueue
import MuditaOS.Lib.Run
import MuditaOS.Proofs.LogBuffer

/-!
# The buffer of the logger is a bounded queue

Whatever is put in and taken out, a buffer holds the last of the pending messages, gives
them out from the oldest on, and counts the bytes of what it drops. The counter is a
`size_t`: the numbers it announces are right as long as fewer bytes than it can count are
lost in front of a message that is taken out.
-/

namespace MuditaOS.Log

open Lib

inductive BufferCall where
  | put (message : LogMessage)
  | get

/-- A buffer, the queue it should be, and the sum of the numbers announced so far. -/
structure BufferSession where
  buffer : LoggerBuffer
  queue : BoundedQueue LogMessage
  announced : Nat

def bytes (messages : List LogMessage) : Nat := (messages.map LogMessage.length).sum

namespace BufferSession

section

variable (capacity : ℕ+) (s : BufferSession)

def start : BufferSession := ⟨.create capacity, .empty, 0⟩

def step : BufferCall → BufferSession
  | .put message => { s with buffer := s.buffer.put message, queue := s.queue.put message }
  | .get =>
      let queue := s.queue.get capacity
      match s.buffer.get with
      | (none, buffer) => ⟨buffer, queue, s.announced⟩
      | (some entry, buffer) => ⟨buffer, queue, s.announced + entry.lost.toNat⟩

def run (calls : List BufferCall) : BufferSession := calls.foldl (step capacity) (start capacity)

/-- All bytes dropped so far are announced or counted. -/
def Accounted : Prop :=
  s.announced + s.buffer.numOfLostBytes.toNat = bytes (s.queue.dropped capacity)

instance : Decidable (s.Accounted capacity) := inferInstanceAs (Decidable (_ = _))

/-- The bytes lost in front of the next message can be counted. -/
def Countable : Prop := bytes (s.queue.lost capacity) < 2 ^ 32

/-- The buffer is the queue. -/
structure Queued : Prop where
  ok : s.buffer.Ok
  room : s.buffer.capacity = capacity
  contents : s.buffer.contents = s.queue.stored capacity
  lost : s.buffer.numOfLostBytes = .ofNat (bytes (s.queue.lost capacity))
  announced : s.announced % 2 ^ 32 = bytes s.queue.passed % 2 ^ 32

end

variable {capacity : ℕ+} {s : BufferSession} {message : LogMessage} {call : BufferCall}
  {calls : List BufferCall}

theorem bytes_append {front back : List LogMessage} :
    bytes (front ++ back) = bytes front + bytes back := by
  rw [bytes, List.map_append, List.sum_append, bytes, bytes]

theorem bytes_dropped :
    bytes (s.queue.dropped capacity) = bytes s.queue.passed + bytes (s.queue.lost capacity) :=
  bytes_append

theorem lost_start : (start capacity).queue.lost capacity = [] :=
  BoundedQueue.lost_eq_nil (Nat.zero_le _)

theorem queued_start : (start capacity).Queued capacity where
  ok := StringCircularBuffer.ok_create capacity.pos
  room := rfl
  contents := List.drop_nil.symm
  lost := by
    rw [lost_start]
    rfl
  announced := rfl

/-! ## One call -/

theorem Queued.isFull (h : s.Queued capacity) :
    s.buffer.isFull = true ↔ (s.queue.stored capacity).length = capacity := by
  rw [← h.contents, StringCircularBuffer.length_contents h.ok, ← h.room]
  exact h.ok.full

theorem Queued.remaining (h : s.Queued capacity) : s.buffer.remaining =
    if (s.queue.stored capacity).length = capacity then (s.queue.stored capacity).tail
    else s.queue.stored capacity := by
  rw [LoggerBuffer.remaining, h.contents]
  exact if_congr h.isFull rfl rfl

theorem Queued.oldest (h : s.Queued capacity) : s.buffer.oldest =
    if (s.queue.stored capacity).length = capacity then (s.queue.stored capacity).take 1
    else [] := by
  rw [LoggerBuffer.oldest, h.contents]
  exact if_congr h.isFull rfl rfl

theorem queued_put (h : s.Queued capacity) :
    (s.step capacity (.put message)).Queued capacity := by
  obtain ⟨hok, hcapacity, hcontents, hlost⟩ := @LoggerBuffer.put_spec s.buffer message h.ok
  refine ⟨hok, hcapacity.trans h.room, hcontents.trans ?_, hlost.trans ?_, h.announced⟩
  · rw [h.remaining]
    exact (BoundedQueue.stored_put capacity.pos).symm
  · rw [h.lost, h.oldest, ← UInt32.ofNat_add]
    congr 1
    have hqueue := @BoundedQueue.lost_put _ capacity s.queue message capacity.pos
    rw [step, hqueue, bytes_append]
    rfl

/-- What a call of `get` comes to: nothing is stored, or the oldest is given out. -/
theorem get_cases (h : s.Queued capacity) :
    s.queue.stored capacity = [] ∧ s.buffer.get.1 = none ∧ s.step capacity .get = s ∨
    ∃ (message : LogMessage) (rest : StringCircularBuffer),
      s.queue.stored capacity = message :: rest.contents ∧ rest.Ok ∧
      rest.capacity = capacity ∧
      s.buffer.get = (some ⟨s.buffer.numOfLostBytes, message⟩, ⟨rest, 0⟩) := by
  cases hempty : s.buffer.isEmpty with
  | true =>
      have hnil := (StringCircularBuffer.isEmpty_iff h.ok).1 hempty
      rw [h.contents] at hnil
      have hget : s.buffer.get = (none, s.buffer) := by
        rw [LoggerBuffer.get, StringCircularBuffer.get, hempty, if_pos rfl]
      refine .inl ⟨hnil, by rw [hget], ?_⟩
      rw [step, hget, BoundedQueue.get_of_nil hnil]
  | false =>
      obtain ⟨message, rest, hget, hok, hcapacity, -, -, hcontents⟩ :=
        StringCircularBuffer.get_cons h.ok hempty
      refine .inr ⟨message, rest, ?_, hok, hcapacity.trans h.room, ?_⟩
      · rw [← h.contents, hcontents]
      · rw [LoggerBuffer.get, hget]

theorem get_oldest (h : s.Queued capacity) :
    s.buffer.get.1.map LogEntry.message = (s.queue.stored capacity).head? := by
  rcases get_cases h with ⟨hnil, hnone, -⟩ | ⟨message, rest, hstored, -, -, hget⟩
  · rw [hnil, hnone]
    rfl
  · rw [hstored, hget]
    rfl

/-- A message that is taken out announces all that was lost in front of it. -/
theorem step_get {rest : StringCircularBuffer}
    (hget : s.buffer.get = (some ⟨s.buffer.numOfLostBytes, message⟩, ⟨rest, 0⟩)) :
    s.step capacity .get = ⟨⟨rest, 0⟩, s.queue.get capacity,
      s.announced + s.buffer.numOfLostBytes.toNat⟩ := by
  rw [step, hget]

theorem queued_step (h : s.Queued capacity) : (s.step capacity call).Queued capacity := by
  cases call with
  | put message => exact queued_put h
  | get =>
      rcases get_cases h with ⟨-, -, hsame⟩ | ⟨message, rest, hstored, hok, hcapacity, hget⟩
      · rwa [hsame]
      · have hne : s.queue.stored capacity ≠ [] := by
          rw [hstored]
          exact List.cons_ne_nil _ _
        rw [step_get hget]
        refine ⟨hok, hcapacity, ?_, ?_, ?_⟩
        · rw [BoundedQueue.stored_get hne, hstored, List.tail_cons]
        · rw [BoundedQueue.lost_get hne]
          rfl
        · dsimp only
          rw [BoundedQueue.get_of_ne_nil hne, bytes_dropped, h.lost, UInt32.toNat_ofNat',
            Nat.add_mod, h.announced, Nat.mod_mod, ← Nat.add_mod]

theorem queued_run : (run capacity calls).Queued capacity := by
  have hrun : ∀ {calls : List BufferCall} {s : BufferSession}, s.Queued capacity →
      (calls.foldl (step capacity) s).Queued capacity := by
    intro calls
    induction calls with
    | nil => exact id
    | cons call calls ih => exact fun h => ih (queued_step h)
  exact hrun queued_start

/-! ## Lost bytes -/

theorem accounted_mod (h : s.Queued capacity) :
    (s.announced + s.buffer.numOfLostBytes.toNat) % 2 ^ 32 =
      bytes (s.queue.dropped capacity) % 2 ^ 32 := by
  rw [h.lost, UInt32.toNat_ofNat', bytes_dropped, Nat.add_mod, h.announced, Nat.mod_mod,
    ← Nat.add_mod]

/-- The queue, and all announcements so far exact. -/
structure Exact (capacity : ℕ+) (s : BufferSession) : Prop extends Queued capacity s where
  exact : s.announced = bytes s.queue.passed

theorem Exact.accounted_iff (h : s.Exact capacity) :
    s.Accounted capacity ↔ s.Countable capacity := by
  rw [Accounted, Countable, h.exact, h.lost, UInt32.toNat_ofNat', bytes_dropped,
    Nat.add_left_cancel_iff]
  exact ⟨fun heq => heq ▸ Nat.mod_lt _ (by decide), Nat.mod_eq_of_lt⟩

/-- An announcement of what can be counted is exact. -/
theorem exact_step (h : s.Exact capacity) (hcount : s.Countable capacity) :
    (s.step capacity call).Exact capacity := by
  refine ⟨queued_step h.toQueued, ?_⟩
  cases call with
  | put message => exact h.exact
  | get =>
      rcases get_cases h.toQueued with ⟨-, -, hsame⟩ | ⟨message, rest, hstored, -, -, hget⟩
      · rw [hsame]
        exact h.exact
      · have hne : s.queue.stored capacity ≠ [] := by
          rw [hstored]
          exact List.cons_ne_nil _ _
        rw [step_get hget, BoundedQueue.get_of_ne_nil hne]
        exact h.accounted_iff.2 hcount

theorem everyStep_accounted_iff :
    EveryStep (fun s call => (s.step capacity call).Accounted capacity) (step capacity)
        (start capacity) calls ↔
      EveryStep (fun s call => (s.step capacity call).Countable capacity) (step capacity)
        (start capacity) calls := by
  refine @everyStep_congr _ _ (fun s => s.Exact capacity ∧ s.Countable capacity) _ _ _
    (fun s call h => ?_) (fun s call h hnext => ?_) _ _ ⟨⟨queued_start, rfl⟩, ?_⟩
  · exact (exact_step h.1 h.2).accounted_iff
  · exact ⟨exact_step h.1 h.2, hnext⟩
  · rw [Countable, lost_start]
    exact Nat.two_pow_pos 32

/-- A buffer holds the last of the pending messages, `get` gives out the oldest of them,
and what is announced and counted is what was dropped, up to what a `size_t` can count. -/
theorem run_bounded_queue :
    (run capacity calls).buffer.contents = (run capacity calls).queue.stored capacity ∧
    (run capacity calls).buffer.get.1.map LogEntry.message =
      ((run capacity calls).queue.stored capacity).head? ∧
    ((run capacity calls).announced + (run capacity calls).buffer.numOfLostBytes.toNat) %
        2 ^ 32 = bytes ((run capacity calls).queue.dropped capacity) % 2 ^ 32 ∧
    (EveryStep (fun s call => (s.step capacity call).Accounted capacity) (step capacity)
        (start capacity) calls ↔
      EveryStep (fun s call => (s.step capacity call).Countable capacity) (step capacity)
        (start capacity) calls) :=
  ⟨queued_run.contents, get_oldest queued_run, accounted_mod queued_run, everyStep_accounted_iff⟩

/-! ## Too many to count -/

/-- Messages are put into a buffer for one, and none is taken out. -/
theorem run_replicate {n : Nat} :
    (run 1 (List.replicate (n + 1) (.put message))).announced = 0 ∧
      (run 1 (List.replicate (n + 1) (.put message))).queue =
        ⟨List.replicate (n + 1) message, []⟩ := by
  induction n with
  | zero => exact ⟨rfl, rfl⟩
  | succ n ih =>
      rw [List.replicate_succ', run, List.foldl_append, ← run]
      refine ⟨ih.1, ?_⟩
      rw [List.foldl_cons, List.foldl_nil, step, ih.2, BoundedQueue.put, ← List.replicate_succ']

/-- All but the last of them are lost. -/
theorem accounted_replicate {n : Nat} (hone : message.length = 1) :
    (run 1 (List.replicate (n + 1) (.put message))).Accounted 1 ↔ n < 2 ^ 32 := by
  obtain ⟨hannounced, hqueue⟩ := @run_replicate message n
  have hexact : (run 1 (List.replicate (n + 1) (.put message))).Exact 1 :=
    ⟨queued_run, by rw [hannounced, hqueue]; rfl⟩
  have hlost : (⟨List.replicate (n + 1) message, []⟩ : BoundedQueue LogMessage).lost
      ((1 : ℕ+) : ℕ) = List.replicate n message := by
    rw [BoundedQueue.lost, BoundedQueue.excess, List.length_replicate, PNat.one_coe,
      Nat.add_sub_cancel, List.take_replicate, Nat.min_eq_left (Nat.le_succ n)]
  rw [hexact.accounted_iff, Countable, hqueue, hlost, bytes, List.map_replicate, hone,
    List.sum_replicate_nat, Nat.mul_one]

/-- With `2 ^ 32` bytes dropped, the counter is back at zero. -/
theorem lost_bytes_wrapped :
    ¬ (run 1 (List.replicate (2 ^ 32 + 1) (.put ⟨0, "a"⟩))).Accounted 1 :=
  mt (accounted_replicate rfl).1 (Nat.lt_irrefl (2 ^ 32))

end BufferSession

end MuditaOS.Log
