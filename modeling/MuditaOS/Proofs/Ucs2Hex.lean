import MuditaOS.Unicode.Ucs2

/-!
# The buffer and the hexadecimal form

`append` compares a size in bytes with a size in units and copies a quarter of
the old buffer; as every unit is counted with four bytes the quarter is all that
is in use, so the units are exactly what was appended. The hexadecimal form
writes a unit of the base plane in four digits and a surrogate pair in eight,
and the string constructor reads it back in chunks of four.
-/

namespace MuditaOS.Unicode

open MuditaOS.Lib

namespace UCS2

/-! ## The buffer -/

/-- The sizes agree, each in its own measure. -/
structure Sized (u : UCS2) : Prop where
  used : u.sizeUsed = 4 * u.length
  allocated : u.buffer.length = u.sizeAllocated
  room : u.sizeUsed ≤ u.sizeAllocated
  whole : u.sizeAllocated % 4 = 0

def units (u : UCS2) : List UInt32 := u.buffer.take u.length

theorem sized_cleared : Sized cleared :=
  ⟨rfl, rfl, Nat.zero_le _, rfl⟩

@[simp] theorem units_cleared : units cleared = [] := rfl

theorem length_units {u : UCS2} (h : Sized u) : u.units.length = u.length := by
  obtain ⟨hused, hallocated, hroom, -⟩ := h
  rw [units, List.length_take]
  omega

theorem set_take {l : List UInt32} {n : Nat} {c : UInt32} (hn : n < l.length) :
    (l.set n c).take (n + 1) = l.take n ++ [c] := by
  rw [List.take_add_one, List.getElem?_set_self hn, List.take_set_of_le (Nat.le_refl n)]
  rfl

theorem append_spec {u : UCS2} (h : Sized u) (c : UInt32) :
    Sized (u.append c) ∧ (u.append c).units = u.units ++ [c] := by
  obtain ⟨hused, hallocated, hroom, hwhole⟩ := h
  rw [append]
  by_cases hfull : u.sizeUsed = u.sizeAllocated
  · have hquarter : u.sizeAllocated / 4 = u.length := by omega
    have hlen : (u.buffer.take u.length ++
        List.replicate (u.sizeAllocated + Ucs2.bufferExt - u.length) 0).length =
          u.sizeAllocated + Ucs2.bufferExt := by
      rw [List.length_append, List.length_take, List.length_replicate]
      omega
    rw [if_pos hfull]
    simp only [hquarter]
    have hext : Ucs2.bufferExt = 32 := rfl
    refine ⟨⟨?_, ?_, ?_, ?_⟩, ?_⟩
    · simp only []
      omega
    · simp only [List.length_set]
      exact hlen
    · simp only []
      omega
    · simp only []
      omega
    · simp only [units]
      rw [set_take (by rw [hlen]; omega), List.take_append_of_le_length (by
        rw [List.length_take]; omega), List.take_take, Nat.min_self]
  · rw [if_neg hfull]
    refine ⟨⟨?_, ?_, ?_, hwhole⟩, ?_⟩
    · simp only []
      omega
    · simp only [List.length_set]
      exact hallocated
    · simp only []
      omega
    · exact set_take (by omega)

/-! ## Hexadecimal digits -/

theorem writes_hexDigit : Writes 16 hexDigit :=
  ⟨by decide, by decide, by decide, by decide⟩

/-! ## Four digits and eight -/

/-- The four digits of a 16-bit value. -/
def nibbles (v : Nat) : List Nat := [v / 4096 % 16, v / 256 % 16, v / 16 % 16, v % 16]

def hex4 (v : Nat) : List UInt8 := (nibbles v).map hexDigit

theorem nibbles_lt {v : Nat} : ∀ d ∈ nibbles v, d < 16 := by
  intro d hd
  simp [nibbles] at hd
  omega

@[simp] theorem length_hex4 {v : Nat} : (hex4 v).length = 4 := rfl

theorem strtol_hex4 {v : Nat} (hv : v < 65536) : strtol 16 (hex4 v) = some (v : Int) := by
  rw [hex4, nibbles, writes_hexDigit.strtol_map nibbles_lt]
  simp only [List.foldl_cons, List.foldl_nil]
  exact congrArg (fun n : Nat => some (n : Int)) (by omega)

theorem strtol_hex8 {a b : Nat} (ha : a < 65536) (hb : b < 65536) :
    strtol 16 (hex4 a ++ hex4 b) = some ((a * 65536 + b : Nat) : Int) := by
  have hlt : ∀ d ∈ nibbles a ++ nibbles b, d < 16 := by
    intro d hd
    rcases List.mem_append.1 hd with hd | hd
    · exact nibbles_lt d hd
    · exact nibbles_lt d hd
  have happ : hex4 a ++ hex4 b = (nibbles a ++ nibbles b).map hexDigit := by
    rw [List.map_append, hex4, hex4]
  rw [nibbles, List.cons_append] at hlt happ
  rw [happ, writes_hexDigit.strtol_map hlt]
  simp only [nibbles, List.foldl_cons, List.foldl_nil, List.cons_append,
    List.nil_append]
  exact congrArg (fun n : Nat => some (n : Int)) (by omega)

theorem hexDigits_last {fuel v : Nat} (hv : v < 16) :
    hexDigits (fuel + 1) v = [hexDigit v] := by
  rw [hexDigits, if_pos hv]

theorem hexDigits_step {fuel v : Nat} (hv : 16 ≤ v) :
    hexDigits (fuel + 1) v = hexDigits fuel (v / 16) ++ [hexDigit (v % 16)] := by
  rw [hexDigits, if_neg (by omega)]

theorem hexDigits_four {fuel a b : Nat} (ha : 0 < a) (hb : b < 65536) :
    hexDigits (fuel + 4) (a * 65536 + b) = hexDigits fuel a ++ hex4 b := by
  rw [hexDigits_step (by omega), hexDigits_step (by omega),
    hexDigits_step (by omega), hexDigits_step (by omega)]
  simp only [hex4, nibbles, List.map_cons, List.map_nil, List.append_assoc,
    List.cons_append, List.nil_append]
  rw [show (a * 65536 + b) / 16 / 16 / 16 / 16 = a by omega,
    show (a * 65536 + b) / 16 / 16 / 16 % 16 = b / 4096 % 16 by omega,
    show (a * 65536 + b) / 16 / 16 % 16 = b / 256 % 16 by omega,
    show (a * 65536 + b) / 16 % 16 = b / 16 % 16 by omega,
    show (a * 65536 + b) % 16 = b % 16 by omega]

theorem hexDigits_full {fuel v : Nat} (hlo : 4096 ≤ v) (hhi : v < 65536) :
    hexDigits (fuel + 4) v = hex4 v := by
  rw [hexDigits_step (by omega), hexDigits_step (by omega),
    hexDigits_step (by omega), hexDigits_last (by omega)]
  simp only [hex4, nibbles, List.map_cons, List.map_nil, List.cons_append,
    List.nil_append]
  rw [show v / 16 / 16 / 16 = v / 4096 % 16 by omega,
    show v / 16 / 16 % 16 = v / 256 % 16 by omega]

/-- The digits with leading zeros, case by case on their number. -/
theorem pad_hexDigits {fuel v : Nat} (hv : v < 65536) :
    List.replicate (4 - (hexDigits (fuel + 4) v).length) 0x30 ++
      hexDigits (fuel + 4) v = hex4 v := by
  have hzero : (0x30 : UInt8) = hexDigit 0 := rfl
  rw [hzero]
  by_cases h3 : 4096 ≤ v
  · rw [hexDigits_full h3 hv]
    rfl
  · by_cases h2 : 256 ≤ v
    · rw [hexDigits_step (by omega), hexDigits_step (by omega),
        hexDigits_last (by omega)]
      simp only [hex4, nibbles, List.map_cons, List.map_nil]
      rw [show v / 4096 % 16 = 0 by omega, show v / 256 % 16 = v / 16 / 16 by omega]
      rfl
    · by_cases h1 : 16 ≤ v
      · rw [hexDigits_step h1, hexDigits_last (by omega)]
        simp only [hex4, nibbles, List.map_cons, List.map_nil]
        rw [show v / 4096 % 16 = 0 by omega, show v / 256 % 16 = 0 by omega,
          show v / 16 % 16 = v / 16 by omega]
        rfl
      · rw [hexDigits_last (by omega)]
        simp only [hex4, nibbles, List.map_cons, List.map_nil]
        rw [show v / 4096 % 16 = 0 by omega, show v / 256 % 16 = 0 by omega,
          show v / 16 % 16 = 0 by omega, show v % 16 = v by omega]
        rfl

theorem hexPadded_base {v : UInt32} (hv : v.toNat < 65536) :
    hexPadded v = hex4 v.toNat :=
  pad_hexDigits hv

theorem hexPadded_pair {v : UInt32} {a b : Nat} (ha : a < 65536) (hb : b < 65536)
    (hlead : 4096 ≤ a) (hv : v.toNat = a * 65536 + b) :
    hexPadded v = hex4 a ++ hex4 b := by
  have hdigits : hexDigits 8 (a * 65536 + b) = hex4 a ++ hex4 b := by
    rw [@hexDigits_four 4 a b (by omega) hb, @hexDigits_full 0 a hlead ha]
  rw [hexPadded, hv, hdigits]
  rfl

/-! ## Reading the chunks -/

/-- The hexadecimal form of a list of 16-bit values. -/
def hexText (ns : List Nat) : List UInt8 := ns.flatMap hex4

@[simp] theorem hexText_cons {n : Nat} {ns : List Nat} :
    hexText (n :: ns) = hex4 n ++ hexText ns := List.flatMap_cons

theorem hexText_append {ms ns : List Nat} :
    hexText (ms ++ ns) = hexText ms ++ hexText ns := List.flatMap_append

theorem length_hexText : ∀ {ns : List Nat}, (hexText ns).length = 4 * ns.length := by
  intro ns
  induction ns with
  | nil => rfl
  | cons n ns ih =>
      rw [hexText_cons, List.length_append, length_hex4, ih, List.length_cons]
      omega

theorem drop_hexText {pre rest : List Nat} :
    (hexText (pre ++ rest)).drop (pre.length * 4) = hexText rest := by
  rw [hexText_append, Nat.mul_comm, ← length_hexText, List.drop_left]

theorem ofInt_natCast {n : Nat} : UInt32.ofInt (n : Int) = UInt32.ofNat n := by
  rw [← UInt32.toNat_inj]
  simp [UInt32.ofInt]
  omega

theorem stoiChunk_hexText {pre rest : List Nat} {n : Nat} (hn : n < 65536) :
    stoiChunk (hexText (pre ++ n :: rest)) pre.length = some (n : Int) := by
  rw [stoiChunk, substr, drop_hexText, hexText_cons, Option.getD_some,
    List.take_left' length_hex4, stoSigned, strtol_hex4 hn, Option.filter_some,
    if_pos]
  simp
  omega

theorem readHex_hexText {pre rest : List Nat} {a b : Nat} (ha : a < 65536)
    (hb : b < 65536) :
    readHex (substr (hexText (pre ++ a :: b :: rest)) (pre.length * 4) (some 8)) =
      UInt32.ofNat (a * 65536 + b) := by
  rw [substr, drop_hexText, hexText_cons, hexText_cons, ← List.append_assoc,
    Option.getD_some, List.take_left' (by rw [List.length_append]; rfl), readHex,
    strtol_hex8 ha hb]
  exact ofInt_natCast

/-- The upper half of a word. -/
theorem upper_ne_zero {v : UInt32} :
    (0xffff0000 : UInt32) &&& v ≠ 0 ↔ 65536 ≤ v.toNat := by
  have hv : v.toNat < 2 ^ 32 := v.toNat_lt
  have hhigh : (0xffff0000 &&& v.toNat) / 65536 = v.toNat / 65536 % 65536 := by
    have h := @Nat.shiftRight_and_distrib 16 0xffff0000 v.toNat
    rw [Nat.shiftRight_eq_div_pow, Nat.shiftRight_eq_div_pow,
      Nat.shiftRight_eq_div_pow] at h
    exact h.trans ((Nat.and_comm _ _).trans (Nat.and_two_pow_sub_one_eq_mod _ 16))
  have hlow : (0xffff0000 &&& v.toNat) % 65536 = 0 := by
    have h := @Nat.and_mod_two_pow 0xffff0000 v.toNat 16
    exact h.trans (Nat.zero_and _)
  rw [Ne, ← UInt32.toNat_inj, UInt32.toNat_and,
    show (0xffff0000 : UInt32).toNat = 0xffff0000 from rfl,
    show (0 : UInt32).toNat = 0 from rfl]
  omega

/-- Two chunks are taken for a surrogate pair. -/
def Paired (a b : Nat) : Prop := a &&& 0xD800 ≠ 0 ∧ b &&& 0xDC00 ≠ 0

instance {a b : Nat} : Decidable (Paired a b) :=
  inferInstanceAs (Decidable (_ ∧ _))

/-- The units that the string constructor makes of its chunks. -/
def pairUp : List Nat → List UInt32
  | [] => []
  | [a] => [UInt32.ofNat a]
  | a :: b :: rest =>
      if Paired a b then UInt32.ofNat (a * 65536 + b) :: pairUp rest
      else UInt32.ofNat a :: pairUp (b :: rest)

theorem getUcs2Char_last {u : UCS2} {pre : List Nat} {a : Nat} (ha : a < 65536) :
    getUcs2Char u (hexText (pre ++ [a])) pre.length = (UInt32.ofNat a, u) := by
  rw [getUcs2Char, stoiChunk_hexText ha]
  simp only []
  rw [if_neg, ofInt_natCast]
  rw [length_hexText, List.length_append, List.length_singleton]
  omega

theorem getUcs2Char_next {u : UCS2} {pre rest : List Nat} {a b : Nat}
    (ha : a < 65536) (hb : b < 65536) :
    getUcs2Char u (hexText (pre ++ a :: b :: rest)) pre.length =
      (if Paired a b then UInt32.ofNat (a * 65536 + b) else UInt32.ofNat a, u) := by
  have hnext : stoiChunk (hexText (pre ++ a :: b :: rest)) (pre.length + 1) =
      some (b : Int) := by
    have := @stoiChunk_hexText (pre ++ [a]) rest b hb
    rwa [List.append_assoc, List.singleton_append, List.length_append,
      List.length_singleton] at this
  have hpaired : (UInt32.ofInt (a : Int) &&& 0xD800 ≠ 0 ∧
      (UInt32.ofInt (b : Int)).toUInt16 &&& 0xDC00 ≠ 0) ↔ Paired a b := by
    rw [Paired, ofInt_natCast, ofInt_natCast, Ne, Ne, ← UInt32.toNat_inj,
      ← UInt16.toNat_inj, UInt32.toNat_and, UInt16.toNat_and]
    simp [Nat.mod_eq_of_lt hb, Nat.mod_eq_of_lt (show a < 4294967296 by omega)]
  rw [getUcs2Char, stoiChunk_hexText ha]
  simp only []
  rw [if_pos (by rw [length_hexText, List.length_append]; simp), hnext]
  simp only [hpaired]
  by_cases h : Paired a b
  · rw [if_pos h, if_pos h, readHex_hexText ha hb]
  · rw [if_neg h, if_neg h, ofInt_natCast]

theorem ofStringLoop_hexText : ∀ {fuel : Nat} {pre rest : List Nat} {u : UCS2},
    (∀ n ∈ rest, n < 65536) → rest.length ≤ fuel → Sized u →
    Sized (ofStringLoop (hexText (pre ++ rest)) fuel pre.length u) ∧
      (ofStringLoop (hexText (pre ++ rest)) fuel pre.length u).units =
        u.units ++ pairUp rest := by
  intro fuel
  induction fuel using Nat.strongRecOn with
  | ind fuel ih =>
      intro pre rest u hlt hfuel hu
      have hcount : (hexText (pre ++ rest)).length / 4 =
          pre.length + rest.length := by
        rw [length_hexText, List.length_append]
        omega
      rcases rest with _ | ⟨a, rest⟩
      · cases fuel with
        | zero => exact ⟨hu, (List.append_nil _).symm⟩
        | succ fuel =>
            rw [ofStringLoop, hcount, if_neg (by simp)]
            exact ⟨hu, (List.append_nil _).symm⟩
      · obtain ⟨fuel, rfl⟩ : ∃ n, fuel = n + 1 :=
          ⟨fuel - 1, by rw [List.length_cons] at hfuel; omega⟩
        have ha := hlt a List.mem_cons_self
        -- what one more round does with the unit it made
        have hone : ∀ (c : UInt32) (used tail : List Nat),
            a :: rest = used ++ tail → 0 < used.length →
            Sized (ofStringLoop (hexText (pre ++ a :: rest)) fuel
              (pre.length + used.length) (u.append c)) ∧
            (ofStringLoop (hexText (pre ++ a :: rest)) fuel
              (pre.length + used.length) (u.append c)).units =
                u.units ++ c :: pairUp tail := by
          intro c used tail hsplit hpos
          obtain ⟨hsized, hunits⟩ := append_spec hu c
          have hlen := congrArg List.length hsplit
          rw [List.length_append] at hlen
          obtain ⟨h1, h2⟩ := @ih fuel (Nat.lt_succ_self _) (pre ++ used) tail
            (u.append c) (fun n hn => hlt n (by rw [hsplit]; simp [hn]))
            (by omega) hsized
          rw [List.append_assoc, ← hsplit, List.length_append] at h1 h2
          rw [hunits, List.append_assoc, List.singleton_append] at h2
          exact ⟨h1, h2⟩
        rw [ofStringLoop, hcount, if_pos (by rw [List.length_cons]; omega)]
        rcases rest with _ | ⟨b, rest⟩
        · rw [getUcs2Char_last ha]
          simp only []
          rw [if_neg]
          · exact hone (UInt32.ofNat a) [a] [] rfl Nat.one_pos
          · rw [upper_ne_zero, UInt32.toNat_ofNat']
            omega
        · have hb := hlt b (by simp)
          rw [getUcs2Char_next ha hb]
          simp only []
          by_cases hpair : Paired a b
          · have hne : a ≠ 0 := by
              rintro rfl
              exact hpair.1 (Nat.zero_and _)
            rw [if_pos hpair, if_pos, pairUp, if_pos hpair]
            · exact hone _ [a, b] rest rfl Nat.two_pos
            · rw [upper_ne_zero, UInt32.toNat_ofNat']
              omega
          · rw [if_neg hpair, if_neg, pairUp, if_neg hpair]
            · exact hone _ [a] (b :: rest) rfl Nat.one_pos
            · rw [upper_ne_zero, UInt32.toNat_ofNat']
              omega

/-- The units read from a hexadecimal form, behind them the terminator. -/
theorem ofString_hexText {ns : List Nat} (hlt : ∀ n ∈ ns, n < 65536) :
    Sized (ofString (hexText ns)) ∧
      (ofString (hexText ns)).units = pairUp ns ++ [0] := by
  have hcount : (hexText ns).length / 4 = ns.length := by
    rw [length_hexText]
    omega
  obtain ⟨hsized, hunits⟩ := @ofStringLoop_hexText ns.length [] ns cleared hlt
    (Nat.le_refl _) sized_cleared
  obtain ⟨hsized', hunits'⟩ := append_spec hsized 0
  rw [ofString, hcount]
  refine ⟨hsized', hunits'.trans ?_⟩
  rw [hunits, units_cleared, List.nil_append]

end UCS2

end MuditaOS.Unicode
