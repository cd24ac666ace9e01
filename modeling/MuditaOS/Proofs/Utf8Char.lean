import Mathlib
import MuditaOS.Unicode.Utf8Char

/-!
# The character functions on standard UTF-8

A code point is a `Char`, a Unicode scalar value, and its standard encoding is
`String.utf8EncodeChar`. On it `charLength` and `decode` are right, for every
code point; `encode` is right outside U+0800..U+FFFF, for which it has no
three-byte form and writes four bytes.
-/

namespace MuditaOS.Unicode

/-- The standard encoding of a text. -/
def utf8 (cs : List Char) : List UInt8 := cs.flatMap String.utf8EncodeChar

@[simp] theorem utf8_nil : utf8 [] = [] := rfl

@[simp] theorem utf8_cons {c : Char} {cs : List Char} :
    utf8 (c :: cs) = String.utf8EncodeChar c ++ utf8 cs := List.flatMap_cons

@[simp] theorem utf8_append {cs ds : List Char} :
    utf8 (cs ++ ds) = utf8 cs ++ utf8 ds := List.flatMap_append

/-- The four forms, by the base-64 digits of the code. -/
inductive Form : Nat → List UInt8 → Prop where
  | one {a : Nat} (ha : a < 128) : Form a [UInt8.ofNat a]
  | two {a b : Nat} (ha : a < 32) (hb : b < 64) (hv : 0x80 ≤ a * 64 + b) :
      Form (a * 64 + b) [UInt8.ofNat (a + 0xC0), UInt8.ofNat (b + 0x80)]
  | three {a b c : Nat} (ha : a < 16) (hb : b < 64) (hc : c < 64)
      (hv : 0x800 ≤ (a * 64 + b) * 64 + c) :
      Form ((a * 64 + b) * 64 + c) [UInt8.ofNat (a + 0xE0),
        UInt8.ofNat (b + 0x80), UInt8.ofNat (c + 0x80)]
  | four {a b c d : Nat} (ha : a < 8) (hb : b < 64) (hc : c < 64) (hd : d < 64)
      (hv : 0x10000 ≤ ((a * 64 + b) * 64 + c) * 64 + d) :
      Form (((a * 64 + b) * 64 + c) * 64 + d) [UInt8.ofNat (a + 0xF0),
        UInt8.ofNat (b + 0x80), UInt8.ofNat (c + 0x80), UInt8.ofNat (d + 0x80)]

theorem scalar_cases (c : Char) : c.val.toNat < 0xD800 ∨
    0xDFFF < c.val.toNat ∧ c.val.toNat < 0x110000 := c.valid

theorem form_utf8EncodeChar (c : Char) :
    Form c.val.toNat (String.utf8EncodeChar c) := by
  have hmax := scalar_cases c
  unfold String.utf8EncodeChar
  generalize c.val.toNat = v at hmax ⊢
  simp only []
  split
  · next h => exact Form.one (by omega)
  · split
    · next h =>
        have hform := @Form.two (v / 64 % 0x20) (v % 0x40) (by omega) (by omega)
          (by omega)
        rwa [show v / 64 % 0x20 * 64 + v % 0x40 = v by omega] at hform
    · split
      · next h =>
          have hform := @Form.three (v / 4096 % 0x10) (v / 64 % 0x40) (v % 0x40)
            (by omega) (by omega) (by omega) (by omega)
          rwa [show (v / 4096 % 0x10 * 64 + v / 64 % 0x40) * 64 + v % 0x40 = v by
            omega] at hform
      · next h =>
          have hform := @Form.four (v / 262144 % 0x08) (v / 4096 % 0x40)
            (v / 64 % 0x40) (v % 0x40) (by omega) (by omega) (by omega)
            (by omega) (by omega)
          rwa [show ((v / 262144 % 0x08 * 64 + v / 4096 % 0x40) * 64 +
            v / 64 % 0x40) * 64 + v % 0x40 = v by omega] at hform

/-! ## Bytes of the four forms -/

theorem ascii_byte : ∀ a < 128, UInt8.ofNat a &&& 0x80 = 0 := by decide

theorem inner_byte : ∀ b < 64, charIsInner (UInt8.ofNat (b + 0x80)) = true := by
  decide

theorem lead_two : ∀ a < 32, UInt8.ofNat (a + 0xC0) &&& 0x80 ≠ 0 ∧
    UInt8.ofNat (a + 0xC0) &&& 0xE0 = 0xC0 ∧
    (UInt8.ofNat (a + 0xC0) &&& 0x1F).toUInt32 = UInt32.ofNat a := by decide

theorem lead_three : ∀ a < 16, UInt8.ofNat (a + 0xE0) &&& 0x80 ≠ 0 ∧
    UInt8.ofNat (a + 0xE0) &&& 0xE0 ≠ 0xC0 ∧
    UInt8.ofNat (a + 0xE0) &&& 0xF0 = 0xE0 ∧
    (UInt8.ofNat (a + 0xE0) &&& 0x0F).toUInt32 = UInt32.ofNat a := by decide

theorem lead_four : ∀ a < 8, UInt8.ofNat (a + 0xF0) &&& 0x80 ≠ 0 ∧
    UInt8.ofNat (a + 0xF0) &&& 0xE0 ≠ 0xC0 ∧
    UInt8.ofNat (a + 0xF0) &&& 0xF0 ≠ 0xE0 ∧
    UInt8.ofNat (a + 0xF0) &&& 0xF8 = 0xF0 ∧
    (UInt8.ofNat (a + 0xF0) &&& 0x07).toUInt32 = UInt32.ofNat a := by decide

/-- One more digit of the code. -/
theorem shiftIn_ofNat {a b : Nat} (hb : b < 64) :
    shiftIn (UInt32.ofNat a) (UInt8.ofNat (b + 0x80)) =
      UInt32.ofNat (a * 64 + b) := by
  have hlow : ∀ b < 64,
      (UInt8.ofNat (b + 0x80) &&& 0x3F).toUInt32 = UInt32.ofNat b := by decide
  rw [shiftIn, hlow b hb, ← UInt32.toNat_inj]
  simp [Nat.shiftLeft_eq]

/-! ## The reading functions -/

theorem Form.charLength {v : Nat} {bytes rest : List UInt8} (h : Form v bytes) :
    charLength (bytes ++ rest) = bytes.length := by
  cases h with
  | one ha => simp [Unicode.charLength, charIs1Byte, byteAt, ascii_byte _ ha]
  | two ha hb hv =>
      obtain ⟨h1, h2, -⟩ := lead_two _ ha
      simp [-UInt8.ofNat_add, Unicode.charLength, charIs1Byte, charIs2Byte,
        byteAt, h1, h2, inner_byte _ hb]
  | three ha hb hc hv =>
      obtain ⟨h1, h2, h3, -⟩ := lead_three _ ha
      simp [-UInt8.ofNat_add, Unicode.charLength, charIs1Byte, charIs2Byte,
        charIs3Byte, byteAt, h1, h2, h3, inner_byte _ hb, inner_byte _ hc]
  | four ha hb hc hd hv =>
      obtain ⟨h1, h2, h3, h4, -⟩ := lead_four _ ha
      simp [-UInt8.ofNat_add, Unicode.charLength, charIs1Byte, charIs2Byte,
        charIs3Byte, charIs4Byte, byteAt, h1, h2, h3, h4, inner_byte _ hb,
        inner_byte _ hc, inner_byte _ hd]

theorem Form.decode {v : Nat} {bytes rest : List UInt8} (h : Form v bytes) :
    decode (bytes ++ rest) = (UInt32.ofNat v, some bytes.length) := by
  cases h with
  | one ha =>
      have hcode : ∀ a < 128, (UInt8.ofNat a).toUInt32 = UInt32.ofNat a := by
        decide
      simp [Unicode.decode, byteAt, ascii_byte _ ha, hcode _ ha]
  | two ha hb hv =>
      obtain ⟨h1, h2, h3⟩ := lead_two _ ha
      simp [-UInt8.ofNat_add, -UInt32.ofNat_add, -UInt32.ofNat_mul,
        Unicode.decode, byteAt, h1, h2, h3,
        inner_byte _ hb, shiftIn_ofNat hb]
  | three ha hb hc hv =>
      obtain ⟨h1, h2, h3, h4⟩ := lead_three _ ha
      simp [-UInt8.ofNat_add, -UInt32.ofNat_add, -UInt32.ofNat_mul,
        Unicode.decode, byteAt, h1, h2, h3, h4,
        inner_byte _ hb, inner_byte _ hc, shiftIn_ofNat hb, shiftIn_ofNat hc]
  | four ha hb hc hd hv =>
      obtain ⟨h1, h2, h3, h4, h5⟩ := lead_four _ ha
      simp [-UInt8.ofNat_add, -UInt32.ofNat_add, -UInt32.ofNat_mul,
        Unicode.decode, byteAt, h1, h2, h3, h4, h5,
        inner_byte _ hb, inner_byte _ hc, inner_byte _ hd, shiftIn_ofNat hb,
        shiftIn_ofNat hc, shiftIn_ofNat hd]

theorem Form.length_pos {v : Nat} {bytes : List UInt8} (h : Form v bytes) :
    0 < bytes.length := by
  cases h with
  | one => exact Nat.one_pos
  | two => exact Nat.succ_pos _
  | three => exact Nat.succ_pos _
  | four => exact Nat.succ_pos _

theorem Form.length_le {v : Nat} {bytes : List UInt8} (h : Form v bytes) :
    bytes.length ≤ 4 := by
  cases h with
  | one => exact Nat.le_of_ble_eq_true rfl
  | two => exact Nat.le_of_ble_eq_true rfl
  | three => exact Nat.le_of_ble_eq_true rfl
  | four => exact Nat.le_refl 4

theorem ofNat_ne_zero {n : Nat} (hpos : 0 < n) (hlt : n < 256) : UInt8.ofNat n ≠ 0 := by
  intro hzero
  have hnat := congrArg UInt8.toNat hzero
  rw [UInt8.toNat_ofNat_of_lt' hlt] at hnat
  exact Nat.ne_of_gt hpos hnat

/-- Only the code zero has a zero byte. -/
theorem Form.ne_zero {v : Nat} {bytes : List UInt8} (h : Form v bytes)
    (hv : v ≠ 0) : ∀ x ∈ bytes, x ≠ 0 := by
  have hinner : ∀ b < 64, UInt8.ofNat (b + 0x80) ≠ 0 :=
    fun b hb => ofNat_ne_zero (by omega) (by omega)
  cases h with
  | one ha =>
      have hlead : UInt8.ofNat v ≠ 0 := ofNat_ne_zero (Nat.pos_of_ne_zero hv) (by omega)
      simpa [-UInt8.ofNat_add] using hlead
  | @two a b ha hb =>
      have hlead : UInt8.ofNat (a + 0xC0) ≠ 0 := ofNat_ne_zero (by omega) (by omega)
      simpa [-UInt8.ofNat_add] using ⟨hlead, hinner _ hb⟩
  | @three a b c ha hb hc =>
      have hlead : UInt8.ofNat (a + 0xE0) ≠ 0 := ofNat_ne_zero (by omega) (by omega)
      simpa [-UInt8.ofNat_add] using ⟨hlead, hinner _ hb, hinner _ hc⟩
  | @four a b c d ha hb hc hd =>
      have hlead : UInt8.ofNat (a + 0xF0) ≠ 0 := ofNat_ne_zero (by omega) (by omega)
      simpa [-UInt8.ofNat_add] using ⟨hlead, hinner _ hb, hinner _ hc, hinner _ hd⟩

theorem charLength_char (c : Char) (rest : List UInt8) :
    charLength (String.utf8EncodeChar c ++ rest) =
      (String.utf8EncodeChar c).length :=
  (form_utf8EncodeChar c).charLength

theorem decode_char (c : Char) (rest : List UInt8) :
    decode (String.utf8EncodeChar c ++ rest) =
      (c.val, some (String.utf8EncodeChar c).length) := by
  rw [(form_utf8EncodeChar c).decode, UInt32.ofNat_toNat]

/-! ## The writing function -/

/-- A base-64 digit of the code. -/
theorem codeBits_ofNat {v k m : Nat} (hv : v < 2 ^ 32) (hk : k < 32)
    (hm : m < 32) :
    codeBits (UInt32.ofNat v) (UInt32.ofNat k) (UInt32.ofNat (2 ^ m - 1)) =
      UInt32.ofNat (v / 2 ^ k % 2 ^ m) := by
  have hpow : 2 ^ m < 2 ^ 32 := Nat.pow_lt_pow_right (by omega) hm
  have hlt : v / 2 ^ k % 2 ^ m < 2 ^ 32 :=
    Nat.lt_of_le_of_lt (Nat.mod_le _ _) (Nat.lt_of_le_of_lt (Nat.div_le_self _ _) hv)
  rw [codeBits, ← UInt32.toNat_inj, UInt32.toNat_and, UInt32.toNat_shiftRight,
    UInt32.toNat_ofNat_of_lt' hv, UInt32.toNat_ofNat_of_lt' hlt,
    UInt32.toNat_ofNat_of_lt' (show k < 2 ^ 32 by omega), Nat.mod_eq_of_lt hk,
    UInt32.toNat_ofNat_of_lt' (show 2 ^ m - 1 < 2 ^ 32 by omega),
    Nat.shiftRight_eq_div_pow, Nat.and_two_pow_sub_one_eq_mod]

theorem charOf_or {x y : UInt32} {i : Nat} :
    charOf (x ||| y) i = charOf x i ||| charOf y i := by
  rw [charOf, UInt32.shiftRight_or, UInt32.toUInt8_or]
  rfl

/-- A digit lands in its own byte and in no other. -/
theorem charOf_digit : ∀ a < 64, ∀ i < 4,
    charOf (UInt32.ofNat a) i = (if i = 0 then UInt8.ofNat a else 0) ∧
    charOf (UInt32.ofNat a <<< 8) i = (if i = 1 then UInt8.ofNat a else 0) ∧
    charOf (UInt32.ofNat a <<< 16) i = (if i = 2 then UInt8.ofNat a else 0) ∧
    charOf (UInt32.ofNat a <<< 24) i = (if i = 3 then UInt8.ofNat a else 0) := by
  decide

/-- The mark of a byte is above its digit. -/
theorem mark_or {k m a : Nat} (ha : a < 2 ^ k) (hlt : 2 ^ k * m + a < 256) :
    UInt8.ofNat (2 ^ k * m) ||| UInt8.ofNat a = UInt8.ofNat (a + 2 ^ k * m) := by
  rw [← UInt8.toNat_inj, UInt8.toNat_or, UInt8.toNat_ofNat_of_lt' (show 2 ^ k * m < 256 by omega),
    UInt8.toNat_ofNat_of_lt' (show a < 256 by omega),
    UInt8.toNat_ofNat_of_lt' (show a + 2 ^ k * m < 256 by omega),
    ← Nat.two_pow_add_eq_or_of_lt ha, Nat.add_comm]

theorem lead_two_or : ∀ a < 32, (0xC0 : UInt8) ||| UInt8.ofNat a =
    UInt8.ofNat (a + 0xC0) := fun a ha => @mark_or 5 6 a ha (by omega)

theorem lead_four_or : ∀ a < 8, (0xF0 : UInt8) ||| UInt8.ofNat a =
    UInt8.ofNat (a + 0xF0) := fun a ha => @mark_or 3 30 a ha (by omega)

theorem inner_or : ∀ b < 64, (0x80 : UInt8) ||| UInt8.ofNat b =
    UInt8.ofNat (b + 0x80) := fun b hb => @mark_or 6 2 b hb (by omega)

theorem u8char_one : ∀ a < 128, u8char (UInt32.ofNat a) = [UInt8.ofNat a] := by
  decide

theorem encode_two {v : Nat} (hlo : 0x80 ≤ v) (hhi : v < 0x800) :
    encode (UInt32.ofNat v) = some ((0x0000C080 : UInt32) |||
      UInt32.ofNat (v % 64) ||| (UInt32.ofNat (v / 64 % 32) <<< 8), 2) := by
  have hv : v < 2 ^ 32 := by omega
  have h0 : codeBits (UInt32.ofNat v) 0 0x3F = UInt32.ofNat (v % 64) := by
    have h := @codeBits_ofNat v 0 6 hv (by omega) (by omega)
    rw [Nat.pow_zero, Nat.div_one] at h
    exact h
  have h6 : codeBits (UInt32.ofNat v) 6 0x1F = UInt32.ofNat (v / 64 % 32) :=
    @codeBits_ofNat v 6 5 hv (by omega) (by omega)
  rw [encode, if_neg, if_neg, if_pos, h0, h6]
  · simp [UInt32.lt_iff_toNat_lt]; omega
  · simp [UInt32.lt_iff_toNat_lt]; omega
  · simp [UInt32.le_iff_toNat_le]; omega

theorem encode_four {v : Nat} (hlo : 0x10000 ≤ v) (hv : v < 2 ^ 32) :
    encode (UInt32.ofNat v) = some ((0xF0808080 : UInt32) |||
      UInt32.ofNat (v % 64) ||| (UInt32.ofNat (v / 64 % 64) <<< 8) |||
      (UInt32.ofNat (v / 4096 % 64) <<< 16) |||
      (UInt32.ofNat (v / 262144 % 8) <<< 24), 4) := by
  have h0 : codeBits (UInt32.ofNat v) 0 0x3F = UInt32.ofNat (v % 64) := by
    have h := @codeBits_ofNat v 0 6 hv (by omega) (by omega)
    rw [Nat.pow_zero, Nat.div_one] at h
    exact h
  have h6 : codeBits (UInt32.ofNat v) 6 0x3F = UInt32.ofNat (v / 64 % 64) :=
    @codeBits_ofNat v 6 6 hv (by omega) (by omega)
  have h12 : codeBits (UInt32.ofNat v) 12 0x3F = UInt32.ofNat (v / 4096 % 64) :=
    @codeBits_ofNat v 12 6 hv (by omega) (by omega)
  have h18 : codeBits (UInt32.ofNat v) 18 0x07 = UInt32.ofNat (v / 262144 % 8) :=
    @codeBits_ofNat v 18 3 hv (by omega) (by omega)
  rw [encode, if_neg, if_neg, if_neg, h0, h6, h12, h18]
  · simp [UInt32.lt_iff_toNat_lt]; omega
  · simp [UInt32.lt_iff_toNat_lt]; omega
  · simp [UInt32.le_iff_toNat_le]; omega

theorem u8char_two {a b : Nat} (ha : a < 32) (hb : b < 64)
    (hv : 0x80 ≤ a * 64 + b) :
    u8char (UInt32.ofNat (a * 64 + b)) =
      [UInt8.ofNat (a + 0xC0), UInt8.ofNat (b + 0x80)] := by
  have hA := charOf_digit a (by omega)
  have hB := charOf_digit b hb
  have hhigh : charOf 0x0000C080 1 = 0xC0 := by decide
  have hlow : charOf 0x0000C080 0 = 0x80 := by decide
  rw [u8char, encode_two hv (by omega), show (a * 64 + b) % 64 = b by omega,
    show (a * 64 + b) / 64 % 32 = a by omega, ← lead_two_or a ha,
    ← inner_or b hb]
  simp [List.range_succ, charOf_or, hA 0, hA 1, hB 0, hB 1, hhigh, hlow]

theorem u8char_four {a b c d : Nat} (ha : a < 8) (hb : b < 64) (hc : c < 64)
    (hd : d < 64) (hv : 0x10000 ≤ ((a * 64 + b) * 64 + c) * 64 + d) :
    u8char (UInt32.ofNat (((a * 64 + b) * 64 + c) * 64 + d)) =
      [UInt8.ofNat (a + 0xF0), UInt8.ofNat (b + 0x80), UInt8.ofNat (c + 0x80),
        UInt8.ofNat (d + 0x80)] := by
  have hA := charOf_digit a (by omega)
  have hB := charOf_digit b hb
  have hC := charOf_digit c hc
  have hD := charOf_digit d hd
  have h3 : charOf 0xF0808080 3 = 0xF0 := by decide
  have h2 : charOf 0xF0808080 2 = 0x80 := by decide
  have h1 : charOf 0xF0808080 1 = 0x80 := by decide
  have h0 : charOf 0xF0808080 0 = 0x80 := by decide
  rw [u8char, encode_four hv (by omega),
    show (((a * 64 + b) * 64 + c) * 64 + d) % 64 = d by omega,
    show (((a * 64 + b) * 64 + c) * 64 + d) / 64 % 64 = c by omega,
    show (((a * 64 + b) * 64 + c) * 64 + d) / 4096 % 64 = b by omega,
    show (((a * 64 + b) * 64 + c) * 64 + d) / 262144 % 8 = a by omega,
    ← lead_four_or a ha, ← inner_or b hb, ← inner_or c hc, ← inner_or d hd]
  simp [List.range_succ, charOf_or, hA 0, hA 1, hA 2, hA 3, hB 0, hB 1, hB 2,
    hB 3, hC 0, hC 1, hC 2, hC 3, hD 0, hD 1, hD 2, hD 3, h0, h1, h2, h3]

/-- Outside U+0800..U+FFFF a code point is written in its standard form. -/
theorem u8char_char {c : Char}
    (hc : c.val.toNat < 0x800 ∨ 0x10000 ≤ c.val.toNat) :
    u8char c.val = String.utf8EncodeChar c := by
  have hform := form_utf8EncodeChar c
  rw [show c.val = UInt32.ofNat c.val.toNat from UInt32.ofNat_toNat.symm]
  generalize String.utf8EncodeChar c = bytes at hform ⊢
  generalize c.val.toNat = v at hc hform ⊢
  cases hform with
  | one ha => exact u8char_one _ ha
  | two ha hb hv => exact u8char_two ha hb hv
  | three ha hb hc' hv => omega
  | four ha hb hc' hd hv => exact u8char_four ha hb hc' hd hv

/-- Surrogates are refused. -/
theorem u8char_surrogate {code : UInt32}
    (h : 0xD800 ≤ code ∧ code ≤ 0xDFFF) : u8char code = [] := by
  rw [u8char, encode, if_pos h]

end MuditaOS.Unicode
