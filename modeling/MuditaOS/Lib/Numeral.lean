import Mathlib.Data.List.Basic
import Mathlib.Data.Nat.Digits.Lemmas

/-!
# Numerals in text

`strtol` and the `std::sto*` functions over it, on byte strings: leading white
space, a sign, in base sixteen a `0x`, then the longest run of digits; anything
behind it is not looked at. `none` stands for the two exceptions,
`std::invalid_argument` where no digit follows and `std::out_of_range`.
-/

namespace MuditaOS.Lib

/-- `isspace` in the C locale. -/
def isSpace (c : UInt8) : Bool := c = 0x20 || (0x09 ≤ c && c ≤ 0x0D)

def digitValue (c : UInt8) : Option Nat :=
  if 0x30 ≤ c ∧ c ≤ 0x39 then some (c.toNat - 0x30)
  else if 0x41 ≤ c ∧ c ≤ 0x5A then some (c.toNat - 0x41 + 10)
  else if 0x61 ≤ c ∧ c ≤ 0x7A then some (c.toNat - 0x61 + 10)
  else none

/-- The value of a digit of the base. -/
def digit (base : Nat) (c : UInt8) : Option Nat :=
  (digitValue c).filter (· < base)

/-- The digits in front, accumulated onto `acc`. -/
def digits (base : Nat) : Nat → List UInt8 → Nat
  | acc, [] => acc
  | acc, c :: cs =>
      match digit base c with
      | some d => digits base (acc * base + d) cs
      | none => acc

/-- What may stand between the sign and the digits. -/
def skipHexPrefix (base : Nat) : List UInt8 → List UInt8
  | 0x30 :: x :: c :: cs =>
      if base = 16 ∧ (x = 0x78 ∨ x = 0x58) ∧ (digit 16 c).isSome then c :: cs
      else 0x30 :: x :: c :: cs
  | s => s

def magnitude (base : Nat) (s : List UInt8) : Option Nat :=
  match skipHexPrefix base s with
  | c :: cs => (digit base c).map fun d => digits base d cs
  | [] => none

/-- `strtol` without its range check. -/
def strtol (base : Nat) (s : List UInt8) : Option Int :=
  match s.dropWhile isSpace with
  | 0x2D :: rest => (magnitude base rest).map fun m => - (m : Int)
  | 0x2B :: rest => (magnitude base rest).map Int.ofNat
  | rest => (magnitude base rest).map Int.ofNat

/-- `std::stoi` and `std::stol` where the integer has `width` bits. -/
def stoSigned (width base : Nat) (s : List UInt8) : Option Int :=
  (strtol base s).filter fun v => - 2 ^ (width - 1) ≤ v ∧ v < 2 ^ (width - 1)

/-- `std::from_chars` in base ten, for an integer of `width` bits; `none` is either
error code. -/
def fromChars (width : Nat) (s : List UInt8) : Option Int :=
  let value : Option Int := match s with
    | 0x2D :: c :: cs => (digit 10 c).map fun d => - (digits 10 d cs : Int)
    | c :: cs => (digit 10 c).map fun d => (digits 10 d cs : Int)
    | [] => none
  value.filter fun v => - 2 ^ (width - 1) ≤ v ∧ v < 2 ^ (width - 1)

/-- Without an `x` in second place there is no prefix to skip. -/
theorem skipHexPrefix_eq_self {base : Nat} {s : List UInt8}
    (h : ∀ x, s[1]? = some x → x ≠ 0x78 ∧ x ≠ 0x58) :
    skipHexPrefix base s = s := by
  unfold skipHexPrefix
  split
  · next x c cs =>
      obtain ⟨hlower, hupper⟩ := h x rfl
      rw [if_neg]
      rintro ⟨-, hx | hx, -⟩
      · exact hlower hx
      · exact hupper hx
  · rfl

/-! ## Reading back what was written -/

/-- `f` writes the digits of the base as `strtol` reads them, and none of them as
a character that may stand in front of a numeral. -/
structure Writes (base : Nat) (f : Nat → UInt8) : Prop where
  digit : ∀ d < base, digit base (f d) = some d
  space : ∀ d < base, isSpace (f d) = false
  sign : ∀ d < base, f d ≠ 0x2D ∧ f d ≠ 0x2B
  noPrefix : ∀ d < base, f d ≠ 0x78 ∧ f d ≠ 0x58

namespace Writes

variable {base : Nat} {f : Nat → UInt8}

theorem digits_map (h : Writes base f) : ∀ {ds : List Nat} {acc : Nat},
    (∀ d ∈ ds, d < base) →
    digits base acc (ds.map f) = ds.foldl (fun a d => a * base + d) acc := by
  intro ds
  induction ds with
  | nil => intro acc _; rfl
  | cons d ds ih =>
      intro acc hlt
      rw [List.map_cons, digits, h.digit d (hlt d List.mem_cons_self)]
      exact ih fun e he => hlt e (List.mem_cons_of_mem d he)

theorem skipHexPrefix_map (h : Writes base f) {ds : List Nat}
    (hlt : ∀ d ∈ ds, d < base) : skipHexPrefix base (ds.map f) = ds.map f := by
  refine skipHexPrefix_eq_self fun x hx => ?_
  rw [List.getElem?_map] at hx
  obtain ⟨d, hd, rfl⟩ := Option.map_eq_some_iff.1 hx
  exact h.noPrefix d (hlt d (List.mem_of_getElem? hd))

theorem magnitude_map (h : Writes base f) {d : Nat} {ds : List Nat}
    (hlt : ∀ e ∈ d :: ds, e < base) :
    magnitude base ((d :: ds).map f) =
      some ((d :: ds).foldl (fun a e => a * base + e) 0) := by
  rw [magnitude, h.skipHexPrefix_map hlt, List.map_cons]
  simp only [h.digit d (hlt d List.mem_cons_self), Option.map_some]
  rw [h.digits_map fun e he => hlt e (List.mem_cons_of_mem d he),
    List.foldl_cons, Nat.zero_mul, Nat.zero_add]

/-- A run of digits is read back. -/
theorem strtol_map (h : Writes base f) {d : Nat} {ds : List Nat}
    (hlt : ∀ e ∈ d :: ds, e < base) :
    strtol base ((d :: ds).map f) =
      some (((d :: ds).foldl (fun a e => a * base + e) 0 : Nat) : Int) := by
  have hd := hlt d List.mem_cons_self
  have hspace : ((d :: ds).map f).dropWhile isSpace = (d :: ds).map f := by
    rw [List.map_cons, List.dropWhile_cons_of_neg (by rw [h.space d hd]; simp)]
  rw [strtol, hspace]
  split
  · next heq => exact absurd (List.cons.inj heq).1 (h.sign d hd).1
  · next heq => exact absurd (List.cons.inj heq).1 (h.sign d hd).2
  · rw [h.magnitude_map hlt]
    rfl

end Writes

/-! ## Decimal numerals -/

/-- The digits of `n`, most significant first. -/
def decimalDigits (n : Nat) : List Nat :=
  if n = 0 then [0] else (Nat.digits 10 n).reverse

theorem decimalDigits_lt {n : Nat} : ∀ d ∈ decimalDigits n, d < 10 := by
  intro d hd
  rw [decimalDigits] at hd
  split at hd
  · rw [List.mem_singleton.1 hd]
    omega
  · exact Nat.digits_lt_base (by omega) (List.mem_reverse.1 hd)

theorem decimalDigits_ne_nil {n : Nat} : decimalDigits n ≠ [] := by
  rw [decimalDigits]
  split
  · simp
  · next h => exact mt List.reverse_eq_nil_iff.1 (Nat.digits_ne_nil_iff_ne_zero.2 h)

theorem foldl_decimalDigits {n : Nat} :
    (decimalDigits n).foldl (fun a d => a * 10 + d) 0 = n := by
  rw [decimalDigits]
  split
  · next h => exact h.symm
  · rw [List.foldl_reverse]
    conv_rhs => rw [← Nat.ofDigits_digits 10 n, Nat.ofDigits_eq_foldr]
    congr 1
    funext d a
    rw [Nat.mul_comm, Nat.add_comm]
    rfl

/-- `std::to_string`, with the characters `f` of the digits. -/
def decimal (f : Nat → UInt8) (n : Nat) : List UInt8 := (decimalDigits n).map f

theorem Writes.strtol_decimal {f : Nat → UInt8} (h : Writes 10 f) {n : Nat} :
    strtol 10 (decimal f n) = some (n : Int) := by
  obtain ⟨d, ds, hds⟩ := List.exists_cons_of_ne_nil (@decimalDigits_ne_nil n)
  have hlt := @decimalDigits_lt n
  have hfold := @foldl_decimalDigits n
  rw [hds] at hlt hfold
  rw [decimal, hds, h.strtol_map hlt, hfold]

/-- `std::to_string` of a signed number. -/
def signedDecimal (f : Nat → UInt8) (n : Int) : List UInt8 :=
  (if n < 0 then [0x2D] else []) ++ decimal f n.natAbs

theorem Writes.strtol_signedDecimal {f : Nat → UInt8} (h : Writes 10 f) {n : Int} :
    strtol 10 (signedDecimal f n) = some n := by
  rw [signedDecimal]
  split
  · next hneg =>
      obtain ⟨d, ds, hds⟩ := List.exists_cons_of_ne_nil (@decimalDigits_ne_nil n.natAbs)
      have hlt := @decimalDigits_lt n.natAbs
      have hfold := @foldl_decimalDigits n.natAbs
      rw [hds] at hlt hfold
      have hspace : ([0x2D] ++ decimal f n.natAbs).dropWhile isSpace =
          0x2D :: decimal f n.natAbs := rfl
      have hmag := h.magnitude_map hlt
      rw [strtol, hspace, decimal, hds]
      simp only [hmag, hfold, Option.bind_some, Option.pure_def, Option.bind_eq_bind,
        Option.map_some]
      congr 1
      omega
  · next hpos =>
      rw [List.nil_append, h.strtol_decimal]
      congr 1
      omega

/-- The character of a digit. -/
def asciiDigit (d : Nat) : UInt8 := .ofNat (0x30 + d)

theorem writes_asciiDigit : Writes 10 asciiDigit where
  digit := by decide
  space := by decide
  sign := by decide
  noPrefix := by decide

end MuditaOS.Lib

/-! ## Numerals in the order of texts

The numeral of a number comes before that of the next one as a text, unless that has more
digits: then it is a one and zeros, behind a row of nines.
-/

namespace MuditaOS.Lib

/-! ### Texts that differ -/

section

variable {α : Type*} [LT α] {s t : List α}

/-- The texts differ before either ends, and the first is less there. -/
def Before (s t : List α) : Prop :=
  ∃ front a b, a < b ∧ (front ++ [a]) <+: s ∧ (front ++ [b]) <+: t

theorem Before.append (h : Before s t) (s' t' : List α) : Before (s ++ s') (t ++ t') := by
  obtain ⟨front, a, b, hlt, hs, ht⟩ := h
  exact ⟨front, a, b, hlt, hs.trans (List.prefix_append s s'), ht.trans (List.prefix_append t t')⟩

theorem Before.append_left (h : Before s t) (front : List α) :
    Before (front ++ s) (front ++ t) := by
  obtain ⟨front', a, b, hlt, hs, ht⟩ := h
  refine ⟨front ++ front', a, b, hlt, ?_, ?_⟩
  · rw [List.append_assoc]
    exact (List.prefix_append_right_inj front).2 hs
  · rw [List.append_assoc]
    exact (List.prefix_append_right_inj front).2 ht

theorem before_singleton {a b : α} (h : a < b) (s t : List α) : Before (a :: s) (b :: t) :=
  ⟨[], a, b, h, ⟨s, rfl⟩, ⟨t, rfl⟩⟩

theorem Before.lt (h : Before s t) : s < t := by
  obtain ⟨front, a, b, hlt, ⟨s', rfl⟩, ⟨t', rfl⟩⟩ := h
  rw [List.append_assoc, List.append_assoc]
  induction front with
  | nil => exact List.Lex.rel hlt
  | cons c front ih => exact List.Lex.cons ih

end

/-! ### Decimal numerals in order -/

def PowerOfTen (n : Nat) : Prop := ∃ m, n = 10 ^ m

theorem powerOfTen_mul_ten {q : Nat} : PowerOfTen (q * 10) ↔ PowerOfTen q := by
  constructor
  · intro ⟨m, hm⟩
    cases m with
    | zero => rw [Nat.pow_zero] at hm; omega
    | succ m => exact ⟨m, Nat.eq_of_mul_eq_mul_right (by omega) (hm.trans (Nat.pow_succ 10 m))⟩
  · intro ⟨m, hm⟩
    exact ⟨m + 1, by rw [hm, Nat.pow_succ]⟩

theorem not_powerOfTen {n : Nat} (hn : 1 < n) (hmod : n % 10 ≠ 0) : ¬ PowerOfTen n := by
  intro ⟨m, hm⟩
  cases m with
  | zero => rw [Nat.pow_zero] at hm; omega
  | succ m => rw [hm, Nat.pow_succ, Nat.mul_mod_left] at hmod; exact hmod rfl

variable {f : Nat → UInt8} {n : Nat}

theorem decimal_lt_ten (hn : n < 10) : decimal f n = [f n] := by
  rw [decimal, decimalDigits]
  split
  · next hzero => rw [hzero]; rfl
  · next hne => rw [Nat.digits_of_lt 10 n hne hn]; rfl

theorem decimal_of_ten_le (hn : 10 ≤ n) :
    decimal f n = decimal f (n / 10) ++ [f (n % 10)] := by
  rw [decimal, decimal, decimalDigits, decimalDigits, if_neg (by omega), if_neg (by omega),
    Nat.digits_def' (by omega) (by omega), List.reverse_cons, List.map_append, List.map_singleton]

/-- Where the next number is a power of ten, its numeral comes first, else behind. -/
theorem decimal_succ (hf : ∀ d e, d < e → e < 10 → f d < f e) (hn : 0 < n) :
    PowerOfTen (n + 1) ∧ Before (decimal f (n + 1)) (decimal f n) ∨
      ¬ PowerOfTen (n + 1) ∧ Before (decimal f n) (decimal f (n + 1)) := by
  induction n using Nat.strong_induction_on with
  | _ n ih =>
      by_cases hlast : n % 10 = 9
      · -- the last digit wraps, and the rest decides
        have hnext : decimal f (n + 1) = decimal f (n / 10 + 1) ++ [f 0] := by
          rw [decimal_of_ten_le (by omega), show (n + 1) / 10 = n / 10 + 1 by omega,
            show (n + 1) % 10 = 0 by omega]
        have hpower : PowerOfTen (n + 1) ↔ PowerOfTen (n / 10 + 1) := by
          rw [← @powerOfTen_mul_ten (n / 10 + 1), show (n / 10 + 1) * 10 = n + 1 by omega]
        by_cases hfirst : n < 10
        · obtain rfl : n = 9 := by omega
          exact .inl ⟨⟨1, rfl⟩, hnext ▸ before_singleton (hf 1 9 (by omega) (by omega)) _ _⟩
        · rw [hpower, hnext, decimal_of_ten_le (by omega : 10 ≤ n)]
          exact (ih (n / 10) (by omega) (by omega)).imp
            (And.imp_right fun h => h.append _ _) (And.imp_right fun h => h.append _ _)
      · refine .inr ⟨not_powerOfTen (by omega) (by omega), ?_⟩
        have hlt := hf (n % 10) (n % 10 + 1) (by omega) (by omega)
        by_cases hfirst : n < 10
        · rw [decimal_lt_ten hfirst, decimal_lt_ten (by omega : n + 1 < 10)]
          rw [Nat.mod_eq_of_lt hfirst] at hlt
          exact before_singleton hlt _ _
        · rw [decimal_of_ten_le (by omega : 10 ≤ n), decimal_of_ten_le (by omega : 10 ≤ n + 1),
            show (n + 1) / 10 = n / 10 by omega, show (n + 1) % 10 = n % 10 + 1 by omega]
          exact (before_singleton hlt _ _).append_left _

theorem asciiDigit_lt (d e : Nat) (h : d < e) (he : e < 10) : asciiDigit d < asciiDigit e := by
  rw [asciiDigit, asciiDigit, UInt8.lt_iff_toNat_lt, UInt8.toNat_ofNat', UInt8.toNat_ofNat']
  omega

end MuditaOS.Lib
