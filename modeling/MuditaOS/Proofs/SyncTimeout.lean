import Mathlib.Data.Nat.Basic
import MuditaOS.Lib.Run
import MuditaOS.Sys.UnicastSync

/-!
# The timeout of a synchronous send

The deadline is kept in 64 bits and the clock wraps at 32, yet what remains comes out right
on both sides of the wrap as long as the clock is read before the deadline: the cut to 32
bits takes off what the clock has lost. A reading after the deadline is told from an early
one only if it is not below the deadline as it is kept, and past the wrap it is below. The
mailbox on its part begins the whole timeout anew when it is woken for nothing.
-/

namespace MuditaOS.Sys.SyncWait

open MuditaOS.Lib

variable {s : SyncWait} {e : WaitEvent} {start now deadline : Nat} {timeout ticks : UInt32}
  {events : List WaitEvent}

/-- The mailbox has never been asked to wait past the deadline, the call has not timed out
before it, and has returned once the clock is seen to have reached it. -/
structure Respects (deadline : Nat) (s : SyncWait) : Prop where
  asked : ∀ ask ∈ s.asked, ask.1 + ask.2.toNat ≤ deadline
  timeout : ∀ time, s.returned = some (time, .Timeout) → deadline ≤ time
  reached : deadline ≤ s.now → s.returned.isSome

/-- A message other than the response is read before the deadline, or at a reading of the
clock that is not below the deadline as it is kept; and a wait is woken for nothing only in
the tick in which it begins. -/
def InTime (start : Nat) (timeout : UInt32) (s : SyncWait) (e : WaitEvent) : Prop :=
  match s.waiting with
  | none => True
  | some ticks =>
      match e with
      | .unrelated after late =>
          Lasts ticks after → s.now + after + late < start + timeout.toNat ∨
            start % 4294967296 + timeout.toNat ≤ (s.now + after + late) % 4294967296
      | .signalled after late => Lasts ticks after → after + late = 0
      | .response _ _ | .expired _ => True

/-! ## Readings of the clock -/

theorem toNat_getTicks : (getTicks now).toUInt64.toNat = now % 4294967296 := by
  simp [getTicks]

theorem toNat_timeoutNeeded :
    ((getTicks start).toUInt64 + timeout.toUInt64).toNat
      = start % 4294967296 + timeout.toNat := by
  have := timeout.toNat_lt
  rw [UInt64.toNat_add, toNat_getTicks, UInt32.toNat_toUInt64]
  omega

/-- Before the deadline the clock reads less than the deadline as it is kept, -/
theorem ticks_lt (h : start ≤ now) (hnow : now < start + timeout.toNat) :
    now % 4294967296 < start % 4294967296 + timeout.toNat := by
  have := Nat.mod_add_div start 4294967296
  have := Nat.mod_add_div now 4294967296
  have := Nat.div_le_div_right (c := 4294967296) h
  omega

/-- and the difference, cut to 32 bits, is what remains. -/
theorem remaining {t n : UInt64} (h : start ≤ now) (hnow : now < start + timeout.toNat)
    (ht : t.toNat = start % 4294967296 + timeout.toNat) (hn : n.toNat = now % 4294967296) :
    (t - n).toUInt32.toNat = start + timeout.toNat - now := by
  have hlt := ticks_lt h hnow
  have := timeout.toNat_lt
  rw [UInt64.toNat_toUInt32, UInt64.toNat_sub_of_le _ _ (by rw [UInt64.le_iff_toNat_le]; omega), ht,
    hn]
  omega

/-! ## The loop -/

/-- A wait that is going on ends at the deadline. -/
structure Waits (start : Nat) (timeout : UInt32) (s : SyncWait) : Prop where
  respects : Respects (start + timeout.toNat) s
  kept : s.timeoutNeeded.toNat = start % 4294967296 + timeout.toNat
  began : start ≤ s.now
  waiting : ∀ ticks, s.waiting = some ticks →
    s.returned = none ∧ s.now < start + timeout.toNat ∧
      s.now + ticks.toNat = start + timeout.toNat

/-- The state in which the head of the loop is reached. -/
structure Looks (start : Nat) (timeout : UInt32) (s : SyncWait) : Prop where
  asked : ∀ ask ∈ s.asked, ask.1 + ask.2.toNat ≤ start + timeout.toNat
  kept : s.timeoutNeeded.toNat = start % 4294967296 + timeout.toNat
  elapsed : s.timeElapsed.toNat = s.now % 4294967296
  began : start ≤ s.now
  returned : s.returned = none

/-- The time is before the deadline, or reads as one that is not. -/
def Told (start : Nat) (timeout : UInt32) (now : Nat) : Prop :=
  now < start + timeout.toNat ∨ start % 4294967296 + timeout.toNat ≤ now % 4294967296

theorem Waits.wait (hasked : ∀ ask ∈ s.asked, ask.1 + ask.2.toNat ≤ start + timeout.toNat)
    (hkept : s.timeoutNeeded.toNat = start % 4294967296 + timeout.toNat)
    (hbegan : start ≤ s.now) (hret : s.returned = none)
    (hnow : s.now < start + timeout.toNat)
    (hticks : s.now + ticks.toNat = start + timeout.toNat) :
    Waits start timeout (s.wait ticks) where
  respects :=
    { asked := by
        intro ask hask
        rcases List.mem_append.1 hask with h | h
        · exact hasked ask h
        · rw [List.mem_singleton.1 h]
          exact Nat.le_of_eq hticks
      timeout := by
        intro time h
        rw [SyncWait.wait, hret] at h
        cases h
      reached := fun h => absurd h (by simpa [SyncWait.wait] using hnow) }
  kept := hkept
  began := hbegan
  waiting := by
    intro t ht
    cases ht
    exact ⟨hret, hnow, hticks⟩

theorem Waits.finish {retCode : ReturnCodes}
    (hasked : ∀ ask ∈ s.asked, ask.1 + ask.2.toNat ≤ start + timeout.toNat)
    (hkept : s.timeoutNeeded.toNat = start % 4294967296 + timeout.toNat)
    (hbegan : start ≤ s.now) (hnow : retCode = .Timeout → start + timeout.toNat ≤ s.now) :
    Waits start timeout (s.finish retCode) where
  respects :=
    { asked := hasked
      timeout := by
        intro time h
        cases h
        exact hnow rfl
      reached := fun _ => rfl }
  kept := hkept
  began := hbegan
  waiting := by
    intro t ht
    cases ht

theorem Looks.waits (h : Looks start timeout s) (hnow : Told start timeout s.now) :
    Waits start timeout s.loop := by
  rw [loop]
  split
  case isTrue hge =>
      rw [ge_iff_le, UInt64.le_iff_toNat_le, h.kept, h.elapsed] at hge
      refine Waits.finish h.asked h.kept h.began fun _ => ?_
      by_contra hlt
      have := ticks_lt h.began (Nat.lt_of_not_le hlt)
      omega
  case isFalse hlt =>
      rw [ge_iff_le, UInt64.le_iff_toNat_le, h.kept, h.elapsed] at hlt
      have hbefore := hnow.resolve_right hlt
      refine Waits.wait h.asked h.kept h.began h.returned hbefore ?_
      rw [remaining h.began hbefore h.kept h.elapsed]
      omega

theorem Looks.told (h : Looks start timeout s)
    (hresp : Respects (start + timeout.toNat) s.loop) : Told start timeout s.now := by
  by_contra hnot
  rw [Told, not_or, not_lt, not_le] at hnot
  have hlt : ¬ s.timeElapsed ≥ s.timeoutNeeded := by
    rw [ge_iff_le, UInt64.le_iff_toNat_le, h.kept, h.elapsed]
    omega
  rw [loop, if_neg hlt] at hresp
  have hret := hresp.reached hnot.1
  rw [SyncWait.wait, h.returned] at hret
  cases hret

theorem waits_unicastSync : Waits start timeout (unicastSync start timeout) := by
  refine Looks.waits ⟨by simp, toNat_timeoutNeeded, toNat_getTicks, le_rfl, rfl⟩ ?_
  change start < start + timeout.toNat ∨ start % 4294967296 + timeout.toNat ≤ start % 4294967296
  omega

theorem Waits.looks (h : Waits start timeout s) (hwait : s.waiting = some ticks)
    (hnow : s.now ≤ now) : Looks start timeout (s.readClock now) :=
  ⟨h.respects.asked, h.kept, toNat_getTicks, le_trans h.began hnow, (h.waiting ticks hwait).1⟩

/-! ## The events -/

theorem waits_step (h : Waits start timeout s) (hrule : InTime start timeout s e) :
    Waits start timeout (step s e) := by
  rw [step]
  split
  case h_1 => exact h
  case h_2 ticks hwait =>
      obtain ⟨hret, hnow, hend⟩ := h.waiting ticks hwait
      rw [InTime, hwait] at hrule
      cases e with
      | unrelated after late =>
          dsimp only
          split
          case isTrue hlast => exact (h.looks hwait (by omega)).waits (hrule hlast)
          case isFalse => exact h
      | response after late =>
          dsimp only
          split
          case isTrue =>
              refine Waits.finish h.respects.asked h.kept ?_ (by simp)
              have := h.began
              simp only [readClock]
              omega
          case isFalse => exact h
      | signalled after late =>
          dsimp only
          split
          case isTrue hlast =>
              have hsame : s.now + after + late = s.now := by
                have := hrule hlast
                omega
              rw [hsame]
              exact Waits.wait h.respects.asked h.kept h.began hret hnow hend
          case isFalse => exact h
      | expired late =>
          dsimp only
          split
          case isTrue => exact h
          case isFalse =>
              have := h.began
              refine Waits.finish h.respects.asked h.kept ?_ fun _ => ?_ <;>
                simp only [readClock] <;> omega

theorem inTime_of_respects (h : Waits start timeout s)
    (hresp : Respects (start + timeout.toNat) (step s e)) : InTime start timeout s e := by
  rw [InTime]
  split
  case h_1 => trivial
  case h_2 ticks hwait =>
      rw [step, hwait] at hresp
      cases e with
      | unrelated after late =>
          intro hlast
          dsimp only at hresp
          rw [if_pos hlast] at hresp
          exact (h.looks hwait (by omega)).told hresp
      | signalled after late =>
          intro hlast
          dsimp only at hresp
          rw [if_pos hlast] at hresp
          have hask := hresp.asked (s.now + after + late, ticks) (by simp [SyncWait.wait])
          have hend := (h.waiting ticks hwait).2.2
          dsimp only at hask
          omega
      | response after late => trivial
      | expired late => trivial

/-- In a run of the wait the timeout is respected throughout exactly when every unrelated
message is read before the deadline, or at a tick that is not below the deadline as it is
kept, and no wait is woken for nothing after the tick in which it begins. -/
theorem respects_iff_inTime :
    EveryStep (fun s e => Respects (start + timeout.toNat) (step s e)) step
        (unicastSync start timeout) events ↔
      EveryStep (InTime start timeout) step (unicastSync start timeout) events :=
  @everyStep_congr SyncWait WaitEvent (Waits start timeout) _ (InTime start timeout) step
    (fun _ _ h => ⟨inTime_of_respects h, fun hrule => (waits_step h hrule).respects⟩)
    (fun _ _ h hrule => waits_step h hrule) _ _ waits_unicastSync

/-- A message that comes in the tick of the deadline, one tick before the counter wraps, and
is read one tick later: the call goes on waiting, with no limit. -/
theorem wait_past_deadline :
    ¬ EveryStep (fun s e => Respects (4294967286 + 9) (step s e)) step
      (unicastSync 4294967286 9) [.unrelated 9 1] := by
  intro h
  have hreached := h.1.reached (by decide)
  revert hreached
  decide

end MuditaOS.Sys.SyncWait
