import Mathlib
import MuditaOS.Proofs.Ucs2Hex
import MuditaOS.Proofs.Utf8Ops

/-!
# The round trip of a message text

The encoder writes a character of the base plane as one chunk of four digits
and any other as two, and the decoder looks at two chunks at a time. Two things
can go wrong. The mask with which the encoder takes the upper ten bits has a
hole at bit 11 and stops at bit 15, so the pair it writes is the pair of another
character when bit 11 is set or the plane is above the first. And the decoder
takes for a pair any two chunks that have some bit of the surrogate marks, which
most characters above U+07FF have.

A text comes back exactly when neither happens; the proof follows the text
character by character, because up to the first fault the bytes agree and there
the lead bytes or the characters differ.
-/

namespace MuditaOS.Unicode

open MuditaOS.Lib

namespace UCS2

/-! ## The encoder -/

/-- The bits of a code that go into the first surrogate. -/
def upperBits (v : Nat) : Nat := v / 1024 &&& 0x3D

def highSurrogate (v : Nat) : Nat := 0xD800 + upperBits v

def lowSurrogate (v : Nat) : Nat := 0xDC00 + v % 1024

theorem upperBits_lt {v : Nat} : upperBits v < 64 :=
  Nat.and_lt_two_pow _ (show 0x3D < 2 ^ 6 by decide)

theorem convertFromUtf_base {v : UInt32} (hv : v.toNat < 65536) :
    convertFromUtf v = v := by
  rw [convertFromUtf, if_neg (by rw [upper_ne_zero]; omega)]

theorem convertFromUtf_pair {v : UInt32} (hv : 65536 ≤ v.toNat) :
    (convertFromUtf v).toNat =
      highSurrogate v.toNat * 65536 + lowSurrogate v.toNat := by
  have hbits := @upperBits_lt v.toNat
  have hx : (v &&& 0x3FF).toUInt16.toNat = v.toNat % 1024 := by
    rw [UInt32.toNat_toUInt16, UInt32.toNat_and]
    have h := Nat.and_two_pow_sub_one_eq_mod v.toNat 10
    rw [show (0x3FF : UInt32).toNat = 2 ^ 10 - 1 from rfl, h]
    omega
  have hy : ((v &&& 0xF400).toUInt16 >>> (10 : UInt16)).toNat =
      upperBits v.toNat := by
    rw [UInt16.toNat_shiftRight, UInt32.toNat_toUInt16, UInt32.toNat_and]
    have hlt : v.toNat &&& (0xF400 : UInt32).toNat < 2 ^ 16 :=
      Nat.and_lt_two_pow _ (by decide)
    rw [Nat.mod_eq_of_lt hlt, show (10 : UInt16).toNat % 16 = 10 from rfl,
      Nat.shiftRight_and_distrib, Nat.shiftRight_eq_div_pow]
    rfl
  rw [convertFromUtf, if_pos (upper_ne_zero.2 hv)]
  simp only []
  rw [UInt32.toNat_add, UInt32.toNat_shiftLeft, UInt16.toNat_toUInt32,
    UInt16.toNat_toUInt32, UInt16.toNat_add, UInt16.toNat_add, hx, hy,
    highSurrogate, lowSurrogate]
  simp [Nat.shiftLeft_eq]
  omega

/-- The chunks of four digits a character is written in. -/
def chunks (c : Char) : List Nat :=
  if c.val.toNat < 65536 then [c.val.toNat]
  else [highSurrogate c.val.toNat, lowSurrogate c.val.toNat]

theorem hexPadded_char (c : Char) :
    hexPadded (convertFromUtf c.val) = hexText (chunks c) := by
  have hbits := @upperBits_lt c.val.toNat
  rw [chunks]
  split
  · next hbase =>
      rw [convertFromUtf_base hbase, hexPadded_base hbase, hexText_cons]
      exact (List.append_nil _).symm
  · next hpair =>
      rw [hexPadded_pair (by rw [highSurrogate]; omega)
        (by rw [lowSurrogate]; omega) (by rw [highSurrogate]; omega)
        (convertFromUtf_pair (by omega)), hexText_cons, hexText_cons]
      exact congrArg _ (List.append_nil _).symm

theorem ofUtf8Loop_units {cs : List Char} : ∀ {i : Nat} {string : UTF8} {u : UCS2},
    Sound string cs → i ≤ cs.length → Sized u →
    Sized (ofUtf8Loop cs.length i string u) ∧
      (ofUtf8Loop cs.length i string u).units = u.units ++
        (cs.drop (cs.length - i)).map fun c => convertFromUtf c.val := by
  intro i
  induction i with
  | zero =>
      intro string u _ _ hu
      rw [Nat.sub_zero, List.drop_length]
      exact ⟨hu, (List.append_nil _).symm⟩
  | succ i ih =>
      intro string u hstring hi hu
      have hlt : cs.length - (i + 1) < cs.length := by omega
      obtain ⟨hsized, hunits⟩ :=
        append_spec hu (convertFromUtf cs[cs.length - (i + 1)].val)
      have hread := UTF8.index_eq hstring hlt
      have hnext := UTF8.index_sound hstring (cs.length - (i + 1))
      rw [hread] at hnext
      rw [ofUtf8Loop, hread]
      obtain ⟨h1, h2⟩ := ih hnext (by omega) hsized
      refine ⟨h1, h2.trans ?_⟩
      rw [hunits, List.drop_eq_getElem_cons hlt, List.map_cons,
        show cs.length - (i + 1) + 1 = cs.length - i by omega]
      simp

theorem ofUtf8_str {u : UTF8} {cs : List Char} (h : Sound u cs) :
    (ofUtf8 u).str = hexText (cs.flatMap chunks) := by
  obtain ⟨-, hunits⟩ := ofUtf8Loop_units h (Nat.le_refl _) sized_cleared
  rw [Nat.sub_self, List.drop_zero, units_cleared, List.nil_append] at hunits
  rw [str, ← units, ofUtf8, h.text.strLength, hunits]
  clear hunits h
  induction cs with
  | nil => rfl
  | cons c cs ih =>
      rw [List.map_cons, List.flatMap_cons, ih, hexPadded_char,
        List.flatMap_cons, hexText_append]

/-! ## The decoder -/

/-- The character a pair of chunks decodes to. -/
def pairChar (a b : Nat) : Char := Char.ofNat (0x10000 + a % 1024 * 1024 + b % 1024)

/-- A field of a word, cut out by a mask and shifted down. -/
theorem field_eq {v s m : Nat} {mask shift : UInt32} (hv : v < 2 ^ 32)
    (hmask : mask.toNat >>> s = 2 ^ m - 1) (hshift : shift.toNat % 32 = s) :
    (UInt32.ofNat v &&& mask) >>> shift = UInt32.ofNat (v / 2 ^ s % 2 ^ m) := by
  have hle : v / 2 ^ s % 2 ^ m < 2 ^ 32 :=
    Nat.lt_of_le_of_lt (Nat.mod_le _ _)
      (Nat.lt_of_le_of_lt (Nat.div_le_self _ _) hv)
  rw [← UInt32.toNat_inj, UInt32.toNat_shiftRight, UInt32.toNat_and, hshift,
    Nat.shiftRight_and_distrib, hmask, Nat.and_two_pow_sub_one_eq_mod,
    UInt32.toNat_ofNat_of_lt' hv, UInt32.toNat_ofNat_of_lt' hle,
    Nat.shiftRight_eq_div_pow]

theorem decodeUnit_pair {a b : Nat} (ha : a < 65536) (hb : b < 65536) (hne : a ≠ 0) :
    decodeUnit (UInt32.ofNat (a * 65536 + b)) =
      String.utf8EncodeChar (pairChar a b) := by
  have hv : a * 65536 + b < 2 ^ 32 := by omega
  have hy : (UInt32.ofNat (a * 65536 + b) &&& 0x03FF0000) >>> (16 : UInt32) =
      UInt32.ofNat (a % 1024) := by
    rw [@field_eq _ 16 10 _ _ hv rfl rfl]
    congr 1
    omega
  have hx : (UInt32.ofNat (a * 65536 + b) &&& 0x03FF).toNat = b % 1024 := by
    rw [UInt32.toNat_and, UInt32.toNat_ofNat_of_lt' hv,
      show (0x03FF : UInt32).toNat = 2 ^ 10 - 1 from rfl,
      Nat.and_two_pow_sub_one_eq_mod]
    omega
  rw [decodeUnit, if_pos]
  · simp only []
    rw [hy, convertToUtf8String, pairChar]
    congr 2
    rw [UInt32.toNat_add, UInt32.toNat_add, UInt32.toNat_shiftLeft,
      UInt16.toNat_toUInt32, UInt16.toNat_toUInt32, UInt32.toNat_toUInt16,
      UInt32.toNat_toUInt16, hx]
    simp [Nat.shiftLeft_eq]
    omega
  · rw [gt_iff_lt, UInt32.lt_iff_toNat_lt, UInt32.toNat_ofNat_of_lt' hv,
      show (0xffff : UInt32).toNat = 65535 from rfl]
    omega

theorem ascii_unit : ∀ a < 128, (UInt32.ofNat a).toUInt8 = UInt8.ofNat a := by
  decide

theorem inner_unit : ∀ b < 64, ((0x0080 : UInt32) ||| UInt32.ofNat b).toUInt8 =
    UInt8.ofNat (b + 0x80) := by
  intro b hb
  rw [UInt32.toUInt8_or, ascii_unit b (by omega)]
  exact inner_or b hb

theorem lead_two_unit : ∀ a < 32, ((0x00C0 : UInt32) ||| UInt32.ofNat a).toUInt8 =
    UInt8.ofNat (a + 0xC0) := by
  intro a ha
  rw [UInt32.toUInt8_or, ascii_unit a (by omega)]
  exact lead_two_or a ha

theorem lead_three_unit : ∀ a < 16, ((0x00E0 : UInt32) ||| UInt32.ofNat a).toUInt8 =
    UInt8.ofNat (a + 0xE0) := by
  intro a ha
  rw [UInt32.toUInt8_or, ascii_unit a (by omega)]
  exact @mark_or 4 14 a ha (by omega)

theorem lt_ofNat {m : UInt32} {v : Nat} (hv : v < 2 ^ 32) :
    UInt32.ofNat v > m ↔ m.toNat < v := by
  rw [gt_iff_lt, UInt32.lt_iff_toNat_lt, UInt32.toNat_ofNat_of_lt' hv]

theorem and_low {v m : Nat} {mask : UInt32} (hv : v < 2 ^ 32)
    (hmask : mask.toNat = 2 ^ m - 1) :
    UInt32.ofNat v &&& mask = UInt32.ofNat (v % 2 ^ m) := by
  have h := @field_eq v 0 m mask 0 hv hmask rfl
  rw [Nat.pow_zero, Nat.div_one] at h
  exact (UInt32.shiftRight_zero).symm.trans h

theorem decodeUnit_form {v : Nat} {bytes : List UInt8} (h : Form v bytes)
    (hv : v < 65536) : decodeUnit (UInt32.ofNat v) = bytes := by
  have hv32 : v < 2 ^ 32 := by omega
  rw [decodeUnit, if_neg (by rw [lt_ofNat hv32]; show ¬ 65535 < v; omega)]
  cases h with
  | one ha =>
      rw [if_neg (by rw [lt_ofNat hv32]; show ¬ 2047 < _; omega),
        if_neg (by rw [lt_ofNat hv32]; show ¬ 127 < _; omega), ascii_unit _ ha]
  | @two a b ha hb hlo =>
      rw [if_neg (by rw [lt_ofNat hv32]; show ¬ 2047 < _; omega),
        if_pos (by rw [lt_ofNat hv32]; show 127 < _; omega),
        @field_eq _ 6 5 _ _ hv32 rfl rfl, @and_low _ 6 _ hv32 rfl,
        show (a * 64 + b) / 2 ^ 6 % 2 ^ 5 = a by omega,
        show (a * 64 + b) % 2 ^ 6 = b by omega, lead_two_unit a ha,
        inner_unit b hb]
  | @three a b c ha hb hc hlo =>
      rw [if_pos (by rw [lt_ofNat hv32]; show 2047 < _; omega),
        @field_eq _ 12 4 _ _ hv32 rfl rfl, @field_eq _ 6 6 _ _ hv32 rfl rfl,
        @and_low _ 6 _ hv32 rfl,
        show ((a * 64 + b) * 64 + c) / 2 ^ 12 % 2 ^ 4 = a by omega,
        show ((a * 64 + b) * 64 + c) / 2 ^ 6 % 2 ^ 6 = b by omega,
        show ((a * 64 + b) * 64 + c) % 2 ^ 6 = c by omega,
        lead_three_unit a ha, inner_unit b hb, inner_unit c hc]
  | four ha hb hc hd hlo => omega

theorem decodeUnit_base {c : Char} (hc : c.val.toNat < 65536) :
    decodeUnit c.val = String.utf8EncodeChar c := by
  have h := decodeUnit_form (form_utf8EncodeChar c) hc
  rwa [UInt32.ofNat_toNat] at h

/-! ## Which texts survive -/

/-- The pair that is written is the pair of the character. -/
def Plain (c : Char) : Prop :=
  c.val.toNat < 0x10000 ∨ c.val.toNat < 0x20000 ∧ c.val.toNat &&& 0x800 = 0

/-- A character of the base plane that the decoder takes, with the chunk behind
it, for a pair. -/
def TakenForPair (c d : Char) : Prop :=
  c.val.toNat < 0x10000 ∧ c.val.toNat &&& 0xD800 ≠ 0 ∧
    (0x10000 ≤ d.val.toNat ∨ d.val.toNat &&& 0xDC00 ≠ 0)

/-- No character is written as another, and no two are taken for a pair. -/
def Survives (cs : List Char) : Prop :=
  (∀ c ∈ cs, Plain c) ∧ cs.IsChain fun c d => ¬ TakenForPair c d

instance : DecidablePred Plain := fun _ => inferInstanceAs (Decidable (_ ∨ _))

instance : DecidableRel TakenForPair := fun _ _ => inferInstanceAs (Decidable (_ ∧ _))

instance : DecidablePred Survives := fun cs =>
  @instDecidableAnd _ _ (List.decidableBAll _ cs) _

theorem survives_cons_cons {c d : Char} {cs : List Char} :
    Survives (c :: d :: cs) ↔
      Plain c ∧ ¬ TakenForPair c d ∧ Survives (d :: cs) := by
  rw [Survives, Survives, List.isChain_cons_cons, List.forall_mem_cons]
  exact ⟨fun ⟨⟨h1, h2⟩, h3, h4⟩ => ⟨h1, h3, h2, h4⟩,
    fun ⟨h1, h3, h2, h4⟩ => ⟨⟨h1, h2⟩, h3, h4⟩⟩

theorem survives_singleton {c : Char} : Survives [c] ↔ Plain c := by
  rw [Survives, List.forall_mem_singleton]
  exact and_iff_left (List.isChain_singleton c)

/-- A bit of the code, as a bit of its upper part. -/
theorem and_shifted {v m : Nat} : v &&& m * 1024 = (v / 1024 &&& m) * 1024 := by
  have hdiv : (v &&& m * 1024) / 1024 = v / 1024 &&& m := by
    have h := @Nat.shiftRight_and_distrib 10 v (m * 1024)
    rw [Nat.shiftRight_eq_div_pow, Nat.shiftRight_eq_div_pow,
      Nat.shiftRight_eq_div_pow] at h
    rw [show (2 : Nat) ^ 10 = 1024 from rfl, Nat.mul_div_cancel m (by omega)] at h
    exact h
  have hmod : (v &&& m * 1024) % 1024 = 0 := by
    have h := @Nat.and_mod_two_pow v (m * 1024) 10
    rw [show (2 : Nat) ^ 10 = 1024 from rfl, Nat.mul_mod_left, Nat.and_zero] at h
    exact h
  omega

theorem and_small {t m : Nat} (hm : m < 64) : t &&& m = t % 64 &&& m := by
  have h := @Nat.and_mod_two_pow t m 6
  have hlt : t &&& m < 2 ^ 6 := Nat.and_lt_two_pow t hm
  rw [Nat.mod_eq_of_lt hlt, show (2 : Nat) ^ 6 = 64 from rfl,
    Nat.mod_eq_of_lt hm] at h
  exact h

/-- Which characters above the base plane get their own pair. -/
theorem code_of_pair {v : Nat} (hlo : 65536 ≤ v) :
    v = 0x10000 + highSurrogate v % 1024 * 1024 + lowSurrogate v % 1024 ↔
      v < 0x20000 ∧ v &&& 0x800 = 0 := by
  have hbits := @upperBits_lt v
  have hole : ∀ t < 64, (t &&& 0x3D = t ↔ t &&& 2 = 0) := by decide
  have ht := hole (v / 1024 % 64) (by omega)
  rw [← and_small (show 0x3D < 64 by decide), ← and_small (show 2 < 64 by decide)] at ht
  have hbit : v &&& 0x800 = (v / 1024 &&& 2) * 1024 := @and_shifted v 2
  rw [hbit, highSurrogate, lowSurrogate]
  change upperBits v = _ ↔ _ at ht
  omega

theorem pairChar_val {a b : Nat} :
    (pairChar a b).val.toNat = 0x10000 + a % 1024 * 1024 + b % 1024 := by
  have hvalid : (0x10000 + a % 1024 * 1024 + b % 1024).isValidChar :=
    .inr ⟨by omega, by omega⟩
  rw [pairChar, Char.ofNat, dif_pos hvalid]
  rfl

theorem char_eq_iff {c d : Char} : c = d ↔ c.val.toNat = d.val.toNat :=
  ⟨fun h => h ▸ rfl, fun h => Char.ext (UInt32.toNat_inj.1 h)⟩

/-- A text starts with one character only. -/
theorem append_char_inj {c d : Char} {s t : List UInt8} :
    String.utf8EncodeChar c ++ s = String.utf8EncodeChar d ++ t ↔
      c = d ∧ s = t := by
  refine ⟨fun h => ?_, fun ⟨h1, h2⟩ => by rw [h1, h2]⟩
  have hdecode := decode_char c s
  rw [h, decode_char] at hdecode
  have hcd : c = d := Char.ext (congrArg Prod.fst hdecode).symm
  subst hcd
  exact ⟨rfl, List.append_cancel_left h⟩

/-! ## Character by character -/

/-- The bytes the decoder makes of the chunks of a text, to the terminator. -/
def decoded (ns : List Nat) : List UInt8 :=
  ((pairUp ns).flatMap decodeUnit ++ [0]).takeWhile (· ≠ 0)

theorem decoded_cons {c : Char} {ns ms : List Nat} {unit : UInt32}
    (hc : c ≠ '\x00') (hpair : pairUp ns = unit :: pairUp ms)
    (hunit : decodeUnit unit = String.utf8EncodeChar c) :
    decoded ns = String.utf8EncodeChar c ++ decoded ms := by
  have hne : ∀ x ∈ String.utf8EncodeChar c, x ≠ 0 :=
    (form_utf8EncodeChar c).ne_zero fun h => hc (char_eq_iff.2 h)
  rw [decoded, hpair, List.flatMap_cons, hunit, List.append_assoc,
    List.takeWhile_append_of_pos fun x hx => by simpa using hne x hx]
  rfl

theorem paired_surrogates {v : Nat} :
    Paired (highSurrogate v) (lowSurrogate v) := by
  have hhigh : ∀ h < 64, 0xD800 + h &&& 0xD800 ≠ 0 := by decide
  refine ⟨hhigh _ upperBits_lt, fun hzero => ?_⟩
  -- the mark of a low surrogate is above the ten bits of the code
  have hmark : (0xDC00 + v % 1024 &&& 0x37 * 1024) = 0 := hzero
  rw [and_shifted, show (0xDC00 + v % 1024) / 1024 = 0x37 by omega] at hmark
  exact absurd hmark (by decide)

theorem pairUp_supplementary {c : Char} {ns : List Nat}
    (hc : 0x10000 ≤ c.val.toNat) :
    pairUp (chunks c ++ ns) = UInt32.ofNat (highSurrogate c.val.toNat * 65536 +
      lowSurrogate c.val.toNat) :: pairUp ns := by
  rw [chunks, if_neg (by omega)]
  exact if_pos paired_surrogates

theorem chunks_lt {c : Char} : ∀ n ∈ chunks c, n < 65536 := by
  have hbits := @upperBits_lt c.val.toNat
  intro n hn
  rw [chunks] at hn
  split at hn
  · rw [List.mem_singleton.1 hn]
    assumption
  · rcases List.mem_cons.1 hn with h | h
    · rw [h, highSurrogate]
      omega
    · rw [List.mem_singleton.1 h, lowSurrogate]
      omega

/-- The chunk behind a character of the base plane decides. -/
theorem paired_head {c d : Char} {ns : List Nat} (hc : c.val.toNat < 0x10000) :
    ∃ n ms, chunks d ++ ns = n :: ms ∧ n < 65536 ∧
      (Paired c.val.toNat n ↔ TakenForPair c d) := by
  by_cases hd : d.val.toNat < 65536
  · refine ⟨d.val.toNat, ns, by rw [chunks, if_pos hd]; rfl, hd, ?_⟩
    exact ⟨fun h => ⟨hc, h.1, .inr h.2⟩,
      fun h => ⟨h.2.1, h.2.2.resolve_left (by omega)⟩⟩
  · have hbits := @upperBits_lt d.val.toNat
    have hhigh : ∀ h < 64, 0xD800 + h &&& 0xDC00 ≠ 0 := by decide
    refine ⟨highSurrogate d.val.toNat, lowSurrogate d.val.toNat :: ns,
      by rw [chunks, if_neg hd]; rfl, by rw [highSurrogate]; omega, ?_⟩
    exact ⟨fun h => ⟨hc, h.1, .inl (by omega)⟩,
      fun h => ⟨h.2.1, hhigh _ hbits⟩⟩

theorem pairChar_ne_nul {a b : Nat} : pairChar a b ≠ '\x00' := by
  rw [Ne, char_eq_iff, pairChar_val]
  have : ('\x00' : Char).val.toNat = 0 := rfl
  omega

/-- A character of the base plane comes back if its chunk does not pair with the next. -/
theorem decoded_base_iff {c : Char} {cs : List Char} (hc : c ≠ '\x00')
    (hbase : c.val.toNat < 65536)
    (ih : decoded (cs.flatMap chunks) = utf8 cs ↔ Survives cs) :
    decoded (chunks c ++ cs.flatMap chunks) = String.utf8EncodeChar c ++ utf8 cs ↔
      Survives (c :: cs) := by
  have hplain : Plain c := .inl hbase
  rcases cs with _ | ⟨d, ds⟩
  · have hsingle : pairUp (chunks c ++ [].flatMap chunks) =
        c.val :: pairUp ([].flatMap chunks) := by
      rw [chunks, if_pos hbase]
      exact congrArg (· :: []) UInt32.ofNat_toNat
    rw [decoded_cons hc hsingle (decodeUnit_base hbase), append_char_inj,
      survives_singleton, ih]
    exact ⟨fun _ => hplain, fun _ => ⟨rfl, ⟨by simp, List.isChain_nil⟩⟩⟩
  · obtain ⟨n, ms, hhead, hn, htaken⟩ := @paired_head c d (ds.flatMap chunks) hbase
    have hcons : chunks c ++ (d :: ds).flatMap chunks = c.val.toNat :: n :: ms := by
      rw [chunks, if_pos hbase, List.flatMap_cons, hhead]
      rfl
    rw [survives_cons_cons]
    by_cases hpaired : Paired c.val.toNat n
    · -- the two chunks become one character above the base plane
      have hne : c.val.toNat ≠ 0 := by
        intro hzero
        rw [Paired, hzero, Nat.zero_and] at hpaired
        exact hpaired.1 rfl
      have hunit : pairUp (c.val.toNat :: n :: ms) =
          UInt32.ofNat (c.val.toNat * 65536 + n) :: pairUp ms := by
        rw [pairUp, if_pos hpaired]
      rw [hcons, decoded_cons pairChar_ne_nul hunit (decodeUnit_pair hbase hn hne),
        append_char_inj]
      constructor
      · rintro ⟨heq, -⟩
        have hval := pairChar_val (a := c.val.toNat) (b := n)
        rw [heq] at hval
        omega
      · rintro ⟨-, hnot, -⟩
        exact absurd (htaken.1 hpaired) hnot
    · have hunit : pairUp (c.val.toNat :: n :: ms) = c.val :: pairUp (n :: ms) := by
        rw [pairUp, if_neg hpaired, UInt32.ofNat_toNat]
      rw [List.flatMap_cons, hhead] at ih
      rw [hcons, decoded_cons hc hunit (decodeUnit_base hbase), append_char_inj, ih]
      constructor
      · rintro ⟨-, h⟩
        exact ⟨hplain, fun ht => hpaired (htaken.2 ht), h⟩
      · rintro ⟨-, -, h⟩
        exact ⟨rfl, h⟩

/-- Behind a character above the base plane the text begins anew. -/
theorem survives_supplementary {c : Char} {cs : List Char} (hbase : ¬ c.val.toNat < 65536) :
    Survives (c :: cs) ↔ Plain c ∧ Survives cs := by
  rcases cs with _ | ⟨d, ds⟩
  · rw [survives_singleton]
    exact (and_iff_left ⟨by simp, List.isChain_nil⟩).symm
  · rw [survives_cons_cons]
    constructor
    · rintro ⟨h1, -, h3⟩
      exact ⟨h1, h3⟩
    · intro ⟨h1, h3⟩
      exact ⟨h1, fun ht => hbase ht.1, h3⟩

theorem decoded_supplementary_iff {c : Char} {cs : List Char} (hbase : ¬ c.val.toNat < 65536)
    (ih : decoded (cs.flatMap chunks) = utf8 cs ↔ Survives cs) :
    decoded (chunks c ++ cs.flatMap chunks) = String.utf8EncodeChar c ++ utf8 cs ↔
      Survives (c :: cs) := by
  have hhigh : 65536 ≤ c.val.toNat := Nat.not_lt.1 hbase
  have hbits := @upperBits_lt c.val.toNat
  have hplain : pairChar (highSurrogate c.val.toNat) (lowSurrogate c.val.toNat) = c ↔
      Plain c := by
    rw [char_eq_iff, pairChar_val, eq_comm, code_of_pair hhigh, Plain, or_iff_right hbase]
  rw [decoded_cons pairChar_ne_nul (pairUp_supplementary hhigh)
    (decodeUnit_pair (by rw [highSurrogate]; omega) (by rw [lowSurrogate]; omega)
      (by rw [highSurrogate]; omega)),
    append_char_inj, hplain, ih, survives_supplementary hbase]

/-- The text comes back exactly when it survives. -/
theorem decoded_iff : ∀ {cs : List Char}, '\x00' ∉ cs →
    (decoded (cs.flatMap chunks) = utf8 cs ↔ Survives cs) := by
  intro cs
  induction cs with
  | nil =>
      intro _
      exact ⟨fun _ => ⟨by simp, List.isChain_nil⟩, fun _ => rfl⟩
  | cons c cs ih =>
      intro hnul
      have hc : c ≠ '\x00' := fun h => hnul (h ▸ List.mem_cons_self)
      have ih := ih fun h => hnul (List.mem_cons_of_mem c h)
      rw [List.flatMap_cons, utf8_cons]
      by_cases hbase : c.val.toNat < 65536
      · exact decoded_base_iff hc hbase ih
      · exact decoded_supplementary_iff hbase ih

/-! ## The whole trip -/

theorem toUTF8_units {addr : Nat} {u : UCS2} (hu : Sized u) (hne : u.units ≠ []) :
    toUTF8 addr u = UTF8.ofCString addr (u.units.flatMap decodeUnit) := by
  have hlen : u.length ≠ 0 := by
    rw [← length_units hu]
    exact fun h => hne (List.eq_nil_of_length_eq_zero h)
  rw [toUTF8, if_neg hlen]
  rfl

theorem toUTF8_hexText {addr : Nat} {ns : List Nat} (hlt : ∀ n ∈ ns, n < 65536) :
    toUTF8 addr (ofString (hexText ns)) = UTF8.ofBytes addr (decoded ns) := by
  obtain ⟨hsized, hunits⟩ := ofString_hexText hlt
  rw [toUTF8_units hsized (by rw [hunits]; simp), hunits, List.flatMap_append]
  rfl

theorem flatMap_chunks_lt {cs : List Char} :
    ∀ n ∈ cs.flatMap chunks, n < 65536 := by
  intro n hn
  obtain ⟨c, _, hc⟩ := List.mem_flatMap.1 hn
  exact chunks_lt n hc

theorem toUTF8_ofUtf8 {addr : Nat} {u : UTF8} {cs : List Char} (h : Sound u cs) :
    toUTF8 addr (ofString (ofUtf8 u).str) =
      UTF8.ofBytes addr (decoded (cs.flatMap chunks)) := by
  rw [ofUtf8_str h, toUTF8_hexText flatMap_chunks_lt]

/-- Two texts are equal when their bytes are. -/
theorem equal_ofBytes {addr : Nat} {u : UTF8} {cs : List Char} {s : List UInt8}
    (h : Sound u cs) (hnul : '\x00' ∉ cs) :
    (UTF8.ofBytes addr s).equal u = true ↔ s = utf8 cs := by
  refine ⟨fun heq => ?_, fun heq => ?_⟩
  · rw [UTF8.equal, Bool.and_eq_true, Bool.and_eq_true, beq_iff_eq, beq_iff_eq,
      beq_iff_eq] at heq
    obtain ⟨⟨_, hsize⟩, hbytes⟩ := heq
    have hroom := lt_getDataBufferSize (s.length + 1)
    have hused : (UTF8.ofBytes addr s).bytes.take (s.length + 1) = s ++ [0] := by
      rw [UTF8.ofBytes, UTF8.bytes]
      simp only []
      rw [memcpy_zeroed, List.take_left' (by simp)]
    rw [hsize, h.text.used, ← hsize] at hbytes
    exact List.append_cancel_right (hused.symm.trans hbytes)
  · have hs := @UTF8.ofBytes_sound addr cs hnul
    rw [← heq] at hs
    have hused := h.text.used
    rw [h.text.sizeUsed] at hused
    rw [UTF8.equal, hs.text.used, hs.text.strLength, hs.text.sizeUsed, hused,
      h.text.strLength, h.text.sizeUsed]
    simp

theorem equal_iff_survives {addr : Nat} {u : UTF8} {cs : List Char}
    (h : Sound u cs) (hnul : '\x00' ∉ cs) :
    (toUTF8 addr (ofString (ofUtf8 u).str)).equal u = true ↔ Survives cs := by
  rw [toUTF8_ofUtf8 h, equal_ofBytes h hnul, decoded_iff hnul]

/-- Both surrogates of a code, as UTF-16 has them. -/
def surrogatePair (v : Nat) : Nat :=
  (0xD800 + (v - 0x10000) / 0x400) * 0x10000 + (0xDC00 + (v - 0x10000) % 0x400)

theorem convertFromUtf_surrogates {c : Char} (hc : 0x10000 ≤ c.val.toNat) :
    (convertFromUtf c.val).toNat = surrogatePair c.val.toNat ↔ Plain c := by
  have hbits := @upperBits_lt c.val.toNat
  have hcode := code_of_pair hc
  have hmax : c.val.toNat < 0x110000 := by
    rcases c.valid with h | h
    · omega
    · exact h.2
  rw [Plain, or_iff_right (by omega), ← hcode, convertFromUtf_pair hc, surrogatePair,
    highSurrogate, lowSurrogate]
  omega

/-- Which texts an SMS brings back, every pair in it the standard one. -/
theorem toUTF8_ofUtf8_equal_iff {addr : Nat} {u : UTF8} {cs : List Char}
    (h : Sound u cs) (hnul : '\x00' ∉ cs) :
    ((toUTF8 addr (ofString (ofUtf8 u).str)).equal u = true ∧
      ∀ c ∈ cs, 0x10000 ≤ c.val.toNat →
        (convertFromUtf c.val).toNat = surrogatePair c.val.toNat) ↔
    Survives cs := by
  rw [equal_iff_survives h hnul]
  exact and_iff_left_of_imp fun hs c hc hhigh =>
    (convertFromUtf_surrogates hhigh).2 (hs.1 c hc)

theorem toUTF8_ofUtf8_emoji : Survives ['ę', 'ą', '😁', 'ę', 'ą'] ∧
    (toUTF8 2 (ofString (ofUtf8
      (UTF8.ofBytes 1 (utf8 ['ę', 'ą', '😁', 'ę', 'ą']))).str)).equal
        (UTF8.ofBytes 1 (utf8 ['ę', 'ą', '😁', 'ę', 'ą'])) = true :=
  ⟨by decide, ((toUTF8_ofUtf8_equal_iff (UTF8.ofBytes_sound (by decide))
    (by decide)).2 (by decide)).1⟩

/-- Two ideographs, and an emoji with bit 11 set. -/
theorem toUTF8_ofUtf8_lost :
    (toUTF8 2 (ofString (ofUtf8 (UTF8.ofBytes 1 (utf8 ['中', '中']))).str)).equal
        (UTF8.ofBytes 1 (utf8 ['中', '中'])) = false ∧
      (toUTF8 2 (ofString (ofUtf8 (UTF8.ofBytes 1 (utf8 ['🤔']))).str)).equal
        (UTF8.ofBytes 1 (utf8 ['🤔'])) = false := by
  decide +kernel

end UCS2

end MuditaOS.Unicode
