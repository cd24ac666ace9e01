import MuditaOS.Proofs.PduScan
import Mathlib.Data.Nat.Bitwise

/-!
# Variable-length integers

The encoding of a number has seven bits in an octet, most significant first, and the high bit
set on all but the last. `parseUintvar` takes exactly these octets; but it does not clear the
high bits before it shifts them in, so they stay in the number, seven places further left for
every octet behind them.
-/

namespace MuditaOS.Cellular.Pdu

open MuditaOS.Lib
open Pdu.Parser

/-! ## The encoding -/

/-- The octets behind which another one comes. -/
def continued (n : Nat) : List UInt8 :=
  if n = 0 then [] else continued (n / 128) ++ [UInt8.ofNat (n % 128 + 128)]
decreasing_by omega

def uintvar (n : Nat) : List UInt8 := continued (n / 128) ++ [UInt8.ofNat (n % 128)]

theorem continued_zero : continued 0 = [] := by rw [continued, if_pos rfl]

theorem continued_pos {n : Nat} (h : n ≠ 0) :
    continued n = continued (n / 128) ++ [UInt8.ofNat (n % 128 + 128)] := by
  rw [continued, if_neg h]

theorem length_continued : ∀ {k n : Nat}, n < 128 ^ k → (continued n).length ≤ k := by
  intro k
  induction k with
  | zero =>
      intro n h
      obtain rfl : n = 0 := by omega
      rw [continued_zero]
      exact Nat.le_refl 0
  | succ k ih =>
      intro n h
      by_cases hn : n = 0
      · rw [hn, continued_zero]
        exact Nat.zero_le _
      · have hless : n / 128 < 128 ^ k := by
          rw [Nat.div_lt_iff_lt_mul (by decide), ← Nat.pow_succ]
          exact h
        rw [continued_pos hn, List.length_append, List.length_singleton]
        exact Nat.succ_le_succ (ih hless)

theorem toNat_digit {d : Nat} (h : d < 128) :
    (UInt8.ofNat d).toNat = d ∧ (UInt8.ofNat (d + 128)).toNat = d + 128 := by
  rw [UInt8.toNat_ofNat', UInt8.toNat_ofNat']
  omega

/-- Another octet follows. -/
def Continues (octet : UInt8) : Prop := octet &&& 0x80 ≠ 0

theorem toNat_and_80 {octet : UInt8} :
    (octet &&& 0x80).toNat = if octet.toNat < 128 then 0 else 128 := by
  have hbit : ∀ octet : Fin 256, octet.val &&& 128 = if octet.val < 128 then 0 else 128 := by
    decide +kernel
  rw [UInt8.toNat_and]
  exact hbit ⟨octet.toNat, octet.toNat_lt⟩

theorem continues_iff {octet : UInt8} : Continues octet ↔ 128 ≤ octet.toNat := by
  rw [Continues, Ne, ← UInt8.toNat_inj, toNat_and_80, UInt8.toNat_zero]
  split <;> omega

theorem continues_of_mem : ∀ {n : Nat}, ∀ octet ∈ continued n, Continues octet := by
  intro n
  induction n using Nat.strongRecOn with
  | ind n ih =>
      intro octet hmem
      by_cases hn : n = 0
      · rw [hn, continued_zero] at hmem
        exact absurd hmem List.not_mem_nil
      · rw [continued_pos hn, List.mem_append, List.mem_singleton] at hmem
        rcases hmem with hmem | rfl
        · exact ih (n / 128) (by omega) octet hmem
        · rw [continues_iff, (toNat_digit (Nat.mod_lt n (by decide))).2]
          omega

/-! ## What is accumulated -/

def accumulate (val : UInt32) (octet : UInt8) : UInt32 := val <<< 7 ||| octet.toUInt32

theorem toNat_accumulate {val : UInt32} {octet : UInt8} :
    (accumulate val octet).toNat = (val.toNat * 128 ||| octet.toNat) % 2 ^ 32 := by
  have hoctet : octet.toNat % 2 ^ 32 = octet.toNat :=
    Nat.mod_eq_of_lt (Nat.lt_trans octet.toNat_lt (by decide))
  rw [accumulate, UInt32.toNat_or, UInt32.toNat_shiftLeft, UInt8.toNat_toUInt32,
    Nat.or_mod_two_pow, hoctet, Nat.shiftLeft_eq]
  rfl

/-- Octets that continue, and one that does not, are all taken. -/
theorem uintvar_append : ∀ {octets : List UInt8} {rounds : Nat} {val : UInt32} {last : UInt8}
    {r : List UInt8}, (∀ octet ∈ octets, Continues octet) → ¬ Continues last →
      octets.length < rounds →
      Grammar.uintvar rounds val (octets ++ last :: r) =
        some (accumulate (octets.foldl accumulate val) last, r) := by
  intro octets
  induction octets with
  | nil =>
      intro rounds val last r _ hlast hrounds
      obtain ⟨rounds, rfl⟩ := Nat.exists_eq_succ_of_ne_zero (Nat.ne_of_gt hrounds)
      rw [List.nil_append, Grammar.uintvar, Grammar.next, Option.bind_eq_bind, Option.bind_some]
      exact if_pos (not_not.1 hlast)
  | cons octet octets ih =>
      intro rounds val last r hall hlast hrounds
      obtain ⟨rounds, rfl⟩ := Nat.exists_eq_succ_of_ne_zero
        (Nat.ne_of_gt (Nat.zero_lt_of_lt hrounds))
      rw [List.cons_append, Grammar.uintvar, Grammar.next, Option.bind_eq_bind, Option.bind_some]
      dsimp only
      rw [if_neg (hall octet List.mem_cons_self), List.foldl_cons]
      exact ih (fun o ho => hall o (List.mem_cons_of_mem octet ho)) hlast
        (Nat.lt_of_succ_lt_succ hrounds)

/-- The high bits of the octets that continue, where they end up. -/
def marks (n : Nat) : Nat := if n = 0 then 0 else marks (n / 128) * 128 ||| 128
decreasing_by omega

theorem marks_zero : marks 0 = 0 := by rw [marks, if_pos rfl]

theorem marks_pos {n : Nat} (h : n ≠ 0) : marks n = marks (n / 128) * 128 ||| 128 := by
  rw [marks, if_neg h]

theorem or_mul_128 {a b : Nat} : (a ||| b) * 128 = a * 128 ||| b * 128 := by
  rw [show (128 : Nat) = 2 ^ 7 from rfl, ← Nat.shiftLeft_eq, ← Nat.shiftLeft_eq,
    ← Nat.shiftLeft_eq, Nat.shiftLeft_or_distrib]

theorem or_digit {a d : Nat} (h : d < 128) : a * 128 ||| d = a * 128 + d := by
  rw [Nat.mul_comm]
  exact (Nat.two_pow_add_eq_or_of_lt (i := 7) h a).symm

/-- One more digit behind a number and its marks. -/
theorem or_marks {n m : Nat} :
    (n / 128 ||| m) * 128 ||| n % 128 = n ||| m * 128 := by
  rw [or_mul_128, Nat.or_right_comm, or_digit (Nat.mod_lt n (by decide)), Nat.div_add_mod']

theorem or_mod {a b : Nat} : (a % 2 ^ 32 * 128 ||| b) % 2 ^ 32 = (a * 128 ||| b) % 2 ^ 32 := by
  rw [Nat.or_mod_two_pow, Nat.mod_mul_mod, ← Nat.or_mod_two_pow]

theorem toNat_foldl_continued : ∀ {n : Nat},
    ((continued n).foldl accumulate 0).toNat = (n ||| marks n) % 2 ^ 32 := by
  intro n
  induction n using Nat.strongRecOn with
  | ind n ih =>
      by_cases hn : n = 0
      · rw [hn, continued_zero, marks_zero]
        rfl
      · have hdigit : n % 128 + 128 = n % 128 ||| 128 := by
          rw [Nat.or_comm, ← Nat.mul_one 128]
          exact (or_digit (a := 1) (Nat.mod_lt n (by decide))).symm ▸ Nat.add_comm _ _
        rw [continued_pos hn, marks_pos hn, List.foldl_append, List.foldl_cons, List.foldl_nil,
          toNat_accumulate, ih (n / 128) (by omega), or_mod,
          (toNat_digit (Nat.mod_lt n (by decide))).2, hdigit, ← Nat.or_assoc, or_marks,
          Nat.or_assoc]

/-- What a number of 32 bits is decoded to. -/
def decoded (n : UInt32) : UInt32 := UInt32.ofNat (n.toNat ||| marks (n.toNat / 128) * 128)

theorem uintvar_decoded {n : UInt32} {r : List UInt8} :
    Grammar.uintvar 5 0 (uintvar n.toNat ++ r) = some (decoded n, r) := by
  have hdigit := Nat.mod_lt n.toNat (show 128 > 0 by decide)
  have hlast : ¬ Continues (UInt8.ofNat (n.toNat % 128)) := by
    rw [continues_iff, (toNat_digit hdigit).1]
    omega
  have hlength : (continued (n.toNat / 128)).length < 5 := by
    have hless := n.toNat_lt
    exact Nat.lt_succ_of_le (length_continued (by omega))
  rw [uintvar, List.append_assoc, List.singleton_append,
    uintvar_append continues_of_mem hlast hlength, Option.some_inj, Prod.mk.injEq]
  refine ⟨UInt32.toNat_inj.1 ?_, rfl⟩
  rw [toNat_accumulate, toNat_foldl_continued, or_mod, (toNat_digit hdigit).1, or_marks, decoded,
    UInt32.toNat_ofNat']

/-- A number that has a bit already is not changed where that bit is set. -/
theorem or_eq_self_iff {a b : Nat} : a ||| b = a ↔ a &&& b = b := by
  simp only [Nat.eq_iff_testBit_eq, Nat.testBit_or, Nat.testBit_and]
  refine forall_congr' fun i => ?_
  cases a.testBit i <;> cases b.testBit i <;> decide

/-- A bit above the number is a bit it does not have. -/
theorem or_ne_self {a b i : Nat} (h : a < 2 ^ i) (hi : b.testBit i) : a ||| b ≠ a := by
  intro heq
  have hbit := congrArg (Nat.testBit · i) heq
  rw [Nat.testBit_or, hi, Bool.or_true, Nat.testBit_lt_two_pow h] at hbit
  exact Bool.noConfusion hbit

/-- Above seven bits the mark of the first octet that stays in 32 bits is a bit that the number
cannot have, but for five octets: the first mark is lost then, and the number has the others
or has not. -/
theorem marks_cases {n : Nat} (h : n < 2 ^ 32) :
    (n < 128 ∧ marks (n / 128) * 128 = 0) ∨
    (∃ i < 32, 128 ≤ n ∧ n < 2 ^ i ∧ i ≤ 28 ∧ (marks (n / 128) * 128).testBit i) ∨
    (2 ^ 28 ≤ n ∧ marks (n / 128) * 128 % 2 ^ 32 = 0x10204000) := by
  by_cases h1 : n / 128 = 0
  · left
    rw [h1, marks_zero]
    omega
  right
  by_cases h2 : n / 128 / 128 = 0
  · exact .inl ⟨14, by decide, by omega, by omega, by decide, by
      rw [marks_pos h1, h2, marks_zero]; decide⟩
  by_cases h3 : n / 128 / 128 / 128 = 0
  · exact .inl ⟨21, by decide, by omega, by omega, by decide, by
      rw [marks_pos h1, marks_pos h2, h3, marks_zero]; decide⟩
  by_cases h4 : n / 128 / 128 / 128 / 128 = 0
  · exact .inl ⟨28, by decide, by omega, by omega, by decide, by
      rw [marks_pos h1, marks_pos h2, marks_pos h3, h4, marks_zero]; decide⟩
  have h5 : n / 128 / 128 / 128 / 128 / 128 = 0 := by omega
  exact .inr ⟨by omega, by
    rw [marks_pos h1, marks_pos h2, marks_pos h3, marks_pos h4, h5, marks_zero]
    decide⟩

theorem decoded_eq_iff {n : UInt32} :
    decoded n = n ↔ n < 128 ∨ 0x10000000 ≤ n ∧ n &&& 0x10204000 = 0x10204000 := by
  have hmod : n.toNat % 2 ^ 32 = n.toNat := Nat.mod_eq_of_lt n.toNat_lt
  rw [← UInt32.toNat_inj, ← UInt32.toNat_inj, decoded, UInt32.toNat_ofNat', Nat.or_mod_two_pow,
    hmod, UInt32.toNat_and, UInt32.lt_iff_toNat_lt, UInt32.le_iff_toNat_le]
  simp only [show (128 : UInt32).toNat = 128 from rfl,
    show (0x10000000 : UInt32).toNat = 2 ^ 28 from rfl,
    show (0x10204000 : UInt32).toNat = 0x10204000 from rfl]
  rcases marks_cases n.toNat_lt with ⟨hless, hmarks⟩ | ⟨i, hi, hmore, hless, hle, hbit⟩ |
    ⟨hmore, hmarks⟩
  · rw [hmarks]
    exact iff_of_true (by simp) (.inl hless)
  · refine iff_of_false (or_ne_self hless ?_) ?_
    · rw [Nat.testBit_mod_two_pow, hbit, Bool.and_true]
      exact decide_eq_true hi
    · have hpow : 2 ^ i ≤ 2 ^ 28 := Nat.pow_le_pow_right (by decide) hle
      omega
  · rw [hmarks, or_eq_self_iff]
    exact ⟨fun h => .inr ⟨hmore, h⟩, fun h => h.resolve_left (by omega) |>.2⟩

/-! ## What is decoded -/

theorem next_mEnd {mem : Memory} {octets : Octets} {p : UInt8 × Octets}
    (h : (octets.next mem).value = some p) : p.2.mEnd = octets.mEnd := by
  rw [CharRange.next] at h
  split at h
  · cases h
    rfl
  · cases h

theorem parseUintvarLoop_mEnd {mem : Memory} : ∀ {rounds : Nat} {val : UInt32} {octets : Octets}
    {p : UInt32 × Octets}, (parseUintvarLoop mem rounds val octets).value = some p →
      p.2.mEnd = octets.mEnd := by
  intro rounds
  induction rounds with
  | zero => intro val octets p h; cases h
  | succ rounds ih =>
      intro val octets p h
      rw [parseUintvarLoop, Traced.value_bind, Option.bind_eq_some_iff] at h
      obtain ⟨q, hq, h⟩ := h
      dsimp only at h
      split at h
      · cases h
        exact next_mEnd hq
      · exact (ih h).trans (next_mEnd hq)

/-- The message in which `octets` stand first and `r` behind them. -/
def memoryOf (octets r : List UInt8) (behind : List UInt8 → Nat → UInt8) : Memory :=
  ⟨octets ++ r, behind⟩

theorem parseUintvar_uintvar {n : UInt32} {r : List UInt8} {behind : List UInt8 → Nat → UInt8} :
    (parseUintvar (memoryOf (uintvar n.toNat) r behind)
        ⟨0, (uintvar n.toNat).length + r.length⟩).value =
      some (decoded n, ⟨(uintvar n.toNat).length, (uintvar n.toNat).length + r.length⟩) := by
  have hwhole : At (memoryOf (uintvar n.toNat) r behind)
      ⟨0, (uintvar n.toNat).length + r.length⟩ (uintvar n.toNat ++ r) :=
    ⟨[], [], by simp [memoryOf], by simp⟩
  have hvalue := (parseUintvar_reads hwhole).value
  rw [uintvar_decoded] at hvalue
  cases hparsed : (parseUintvar (memoryOf (uintvar n.toNat) r behind)
      ⟨0, (uintvar n.toNat).length + r.length⟩).value with
  | none => rw [hparsed] at hvalue; cases hvalue
  | some p =>
      obtain ⟨val, rest⟩ := p
      rw [hparsed] at hvalue
      cases hvalue with
      | some hrest =>
          -- The range ends where it did, so it begins as many octets before as there are left.
          have hend : rest.mEnd = (uintvar n.toNat).length + r.length :=
            parseUintvarLoop_mEnd hparsed
          have hbegin := hrest.2.mEnd
          dsimp only at hbegin
          obtain ⟨first, last⟩ := rest
          dsimp only at hend hbegin
          obtain rfl : val = decoded n := hrest.1
          obtain rfl : last = (uintvar n.toNat).length + r.length := hend
          obtain rfl : first = (uintvar n.toNat).length := by omega
          rfl

/-- A number is decoded exactly where it fits into one octet, or takes five and has the three
bits into which the high bits of the others run. -/
theorem uintvar_exact_iff {n : UInt32} {r : List UInt8} {behind : List UInt8 → Nat → UInt8} :
    (parseUintvar (memoryOf (uintvar n.toNat) r behind)
        ⟨0, (uintvar n.toNat).length + r.length⟩).value =
      some (n, ⟨(uintvar n.toNat).length, (uintvar n.toNat).length + r.length⟩) ↔
    n < 128 ∨ 0x10000000 ≤ n ∧ n &&& 0x10204000 = 0x10204000 := by
  rw [parseUintvar_uintvar, ← decoded_eq_iff, Option.some_inj, Prod.mk.injEq]
  exact and_iff_left rfl

/-- The two octets of 128 are decoded to 16512. -/
theorem uintvar_128_lost :
    (parseUintvar (memoryOf (uintvar 128) [] fun _ _ => 0) ⟨0, 2⟩).value ≠
      some (128, ⟨2, 2⟩) := by
  have hoctets : uintvar 128 = [0x81, 0x00] := by
    rw [uintvar, continued_pos (by decide), continued_zero]
    rfl
  rw [hoctets]
  decide

end MuditaOS.Cellular.Pdu
