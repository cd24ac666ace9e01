import MuditaOS.Lib.Ring
import MuditaOS.Log.LoggerBuffer

/-!
# The buffers of the logger are queues

A ring holds the messages of its window, the oldest first. To take one out is to take the first,
to put one in is to add it behind the last, without the first if the ring is full; what is lost
so is counted.
-/

namespace MuditaOS.Log

open Lib

namespace StringCircularBuffer

variable {ring : StringCircularBuffer} {item : LogMessage}

/-- The messages of a ring, the oldest first. -/
def contents (ring : StringCircularBuffer) : List LogMessage :=
  window ring.buffer ring.tail ring.size

structure Ok (ring : StringCircularBuffer) : Prop where
  length : ring.buffer.length = ring.capacity
  positive : 0 < ring.capacity
  tail : ring.tail < ring.capacity
  size : ring.size ≤ ring.capacity
  head : ring.head = (ring.tail + ring.size) % ring.capacity
  full : ring.full = true ↔ ring.size = ring.capacity

theorem ok_create {size : Nat} (h : 0 < size) : (create size).Ok where
  length := List.length_replicate
  positive := h
  tail := h
  size := Nat.zero_le size
  head := (Nat.zero_mod size).symm
  full := by
    simp only [create, Bool.false_eq_true, false_iff]
    exact Nat.ne_of_lt h

theorem length_contents (h : ring.Ok) : ring.contents.length = ring.size :=
  length_window (List.length_pos_iff.1 (h.length ▸ h.positive))

theorem isEmpty_iff (h : ring.Ok) : ring.isEmpty = true ↔ ring.contents = [] := by
  rw [← List.length_eq_zero_iff, length_contents h, isEmpty, beq_iff_eq]

/-- The oldest message is the one that is taken out. -/
theorem get_cons (h : ring.Ok) (hsome : ring.isEmpty = false) :
    ∃ message rest, ring.get = (some message, rest) ∧ rest.Ok ∧
      rest.capacity = ring.capacity ∧ rest.full = false ∧ rest.size + 1 = ring.size ∧
      ring.contents = message :: rest.contents := by
  obtain ⟨size, hsize⟩ : ∃ size, ring.size = size + 1 := by
    refine Nat.exists_eq_succ_of_ne_zero fun hzero => ?_
    rw [isEmpty, hzero] at hsome
    cases hsome
  have hle : size + 1 ≤ ring.capacity := hsize ▸ h.size
  have htail : ring.tail < ring.buffer.length := h.length ▸ h.tail
  refine ⟨ring.buffer.getD ring.tail .blank,
    { ring with
      full := false, tail := (ring.tail + 1) % ring.capacity, size := size }, ?_, ?_, rfl, rfl,
    hsize.symm, ?_⟩
  · rw [get, hsome, hsize]
    rfl
  · refine ⟨h.length, h.positive, Nat.mod_lt _ h.positive, Nat.le_of_succ_le hle,
      ?_, ?_⟩
    · simp only []
      rw [h.head, hsize, Nat.mod_add_mod]
      congr 1
      omega
    · simp only [Bool.false_eq_true, false_iff]
      omega
  · have hrest : window ring.buffer ((ring.tail + 1) % ring.capacity) size =
        window ring.buffer (ring.tail + 1) size := by
      rw [← h.length, window_mod]
    rw [contents, contents, hsize, window_succ_front, hrest, Nat.mod_eq_of_lt htail,
      List.getD_eq_getElem?_getD, List.getElem?_eq_getElem htail]
    rfl

/-- A message put into a ring that is not full comes last. -/
theorem put_room (h : ring.Ok) (hroom : ring.full = false) :
    (ring.put item).Ok ∧ (ring.put item).capacity = ring.capacity ∧
      (ring.put item).size = ring.size + 1 ∧
      (ring.put item).contents = ring.contents ++ [item] := by
  have hlt : ring.size < ring.capacity := by
    refine Nat.lt_of_le_of_ne h.size fun heq => ?_
    rw [h.full.2 heq] at hroom
    cases hroom
  have hput : ring.put item =
      { ring with
        buffer := ring.buffer.set ring.head item
        size := ring.size + 1
        head := (ring.head + 1) % ring.capacity
        full := (ring.head + 1) % ring.capacity == ring.tail } := by
    rw [put, updateMembersBeforePut, hroom]
    rfl
  rw [hput]
  refine ⟨⟨?_, h.positive, h.tail, hlt, ?_, ?_⟩, rfl, rfl, ?_⟩
  · exact List.length_set.trans h.length
  · simp only []
    rw [h.head, Nat.mod_add_mod, Nat.add_assoc]
  · simp only [beq_iff_eq]
    rw [h.head, Nat.mod_add_mod, Nat.add_assoc]
    have hturn := @add_mod_eq_self ring.capacity ring.tail (ring.size + 1) hlt
    rw [Nat.mod_eq_of_lt h.tail] at hturn
    rw [hturn]
    omega
  · rw [contents, contents, h.head, ← h.length]
    exact window_set_succ (h.length ▸ hlt)

end StringCircularBuffer

namespace LoggerBuffer

variable {buffer : LoggerBuffer} {message : LogMessage}

/-- The messages that stay when a full buffer gives up the oldest. -/
def remaining (buffer : LoggerBuffer) : List LogMessage :=
  if buffer.isFull then buffer.contents.tail else buffer.contents

/-- The message a full buffer gives up. -/
def oldest (buffer : LoggerBuffer) : List LogMessage :=
  if buffer.isFull then buffer.contents.take 1 else []

theorem oldest_append_remaining : buffer.oldest ++ buffer.remaining = buffer.contents := by
  rw [oldest, remaining]
  split
  · cases buffer.contents <;> rfl
  · rfl

theorem updateNumOfLostBytes_spec (h : buffer.Ok) :
    buffer.updateNumOfLostBytes.Ok ∧
      buffer.updateNumOfLostBytes.full = false ∧
      buffer.updateNumOfLostBytes.capacity = buffer.capacity ∧
      buffer.updateNumOfLostBytes.contents = buffer.remaining ∧
      buffer.updateNumOfLostBytes.numOfLostBytes =
        buffer.numOfLostBytes + UInt32.ofNat (buffer.oldest.map LogMessage.length).sum := by
  rw [updateNumOfLostBytes, remaining, oldest]
  cases hfull : buffer.isFull with
  | false =>
      have hroom : buffer.full = false := hfull
      simp [h, hroom]
  | true =>
      have hsome : buffer.isEmpty = false := by
        rw [StringCircularBuffer.isEmpty, beq_eq_false_iff_ne, h.full.1 hfull]
        exact Nat.ne_of_gt h.positive
      obtain ⟨lost, rest, hget, hok, hcapacity, hroom, _, hcontents⟩ :=
        StringCircularBuffer.get_cons h hsome
      simp only [Bool.not_true, Bool.false_eq_true, if_false, if_true, hget]
      rw [hcontents]
      simp [hok, hroom, hcapacity]

/-- A message put into a buffer comes last, and a full buffer gives up its oldest for it. -/
theorem put_spec (h : buffer.Ok) :
    (buffer.put message).Ok ∧
      (buffer.put message).capacity = buffer.capacity ∧
      (buffer.put message).contents = buffer.remaining ++ [message] ∧
      (buffer.put message).numOfLostBytes =
        buffer.numOfLostBytes + UInt32.ofNat (buffer.oldest.map LogMessage.length).sum := by
  obtain ⟨hok, hroom, hcapacity, hcontents, hlost⟩ := updateNumOfLostBytes_spec h
  obtain ⟨hput, hkept, _, hlast⟩ := @StringCircularBuffer.put_room _ message hok hroom
  exact ⟨hput, hkept.trans hcapacity, by rw [← hcontents]; exact hlast, hlost⟩

/-- After as many rounds as there are messages, all have been taken, with the bytes lost. -/
theorem takeAll_spec : ∀ {rounds : Nat} {buffer : LoggerBuffer}, buffer.Ok →
    buffer.size ≤ rounds →
    (takeAll rounds buffer).1.map LogEntry.message = buffer.contents ∧
      (takeAll rounds buffer).2.Ok ∧
      (takeAll rounds buffer).2.capacity = buffer.capacity ∧
      (takeAll rounds buffer).2.contents = [] ∧
      ((takeAll rounds buffer).1.map LogEntry.lost).sum +
          (takeAll rounds buffer).2.numOfLostBytes = buffer.numOfLostBytes := by
  intro rounds
  induction rounds with
  | zero =>
      intro buffer h hsize
      have hnone : buffer.contents = [] := by
        rw [← List.length_eq_zero_iff, StringCircularBuffer.length_contents h]
        exact Nat.le_zero.1 hsize
      exact ⟨hnone.symm, h, rfl, hnone, UInt32.zero_add _⟩
  | succ rounds ih =>
      intro buffer h hsize
      rw [takeAll]
      cases hempty : buffer.isEmpty with
      | true =>
          have hnone := (StringCircularBuffer.isEmpty_iff h).1 hempty
          exact ⟨hnone.symm, h, rfl, hnone, UInt32.zero_add _⟩
      | false =>
          obtain ⟨message, rest, hget, hok, hcapacity, _, hless, hcontents⟩ :=
            StringCircularBuffer.get_cons h hempty
          obtain ⟨htaken, hend, hsame, hnone, hlost⟩ := @ih ⟨rest, 0⟩ hok (by
            simp only []
            omega)
          simp only [Bool.false_eq_true, if_false, get, hget]
          refine ⟨?_, hend, hsame.trans hcapacity, hnone, ?_⟩
          · rw [List.map_cons, htaken, hcontents]
          · rw [List.map_cons, List.sum_cons, UInt32.add_assoc, hlost]
            exact UInt32.add_zero _

end LoggerBuffer

end MuditaOS.Log
