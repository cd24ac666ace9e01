import MuditaOS.Proofs.Utf8Char
import MuditaOS.Unicode.Utf8String

/-!
# Characters in their shortest form

The encoder has no form of three bytes and no upper bound. What the decoder reads from three
bytes is written in four, and read back from these it is the same code: only the bytes differ.
-/

namespace MuditaOS.Unicode

variable {code : UInt32} {c : Char}

/-- The character is written in its standard encoding, and read from it and written again. -/
structure Written (c : Char) : Prop where
  encoded : ∃ val, encode c.val = some (val, (String.utf8EncodeChar c).length)
  bytes : u8char c.val = String.utf8EncodeChar c
  inserted : ∀ addr (u : UTF8) index,
    u.insertCode addr c.val index = u.insert addr (String.utf8EncodeChar c) index
  decoded : ∀ rest, decode (u8char c.val ++ rest) = (c.val, some (u8char c.val).length)
  back : ∀ rest, u8char (decode (String.utf8EncodeChar c ++ rest)).1 = String.utf8EncodeChar c

structure Refused (code : UInt32) : Prop where
  encoded : encode code = none
  inserted : ∀ addr (u : UTF8) index, u.insertCode addr code index = (false, u)

/-- Scalar values are written, and no others. -/
structure Canonical (code : UInt32) : Prop where
  written : ∀ c : Char, c.val = code → Written c
  refused : (∀ c : Char, c.val ≠ code) → Refused code

/-! ## Lengths -/

theorem length_u8char {val : UInt32} {size : Nat} (hencode : encode code = some (val, size)) :
    (u8char code).length = size := by
  rw [u8char, hencode]
  simp

/-- From U+0800 on there is only the form of four bytes. -/
theorem encode_from_0x800 (hlow : 0x800 ≤ code) (hsur : ¬ (0xD800 ≤ code ∧ code ≤ 0xDFFF)) :
    ∃ val, encode code = some (val, 4) := by
  have h80 : ¬ code < 0x80 := by
    rw [UInt32.lt_iff_toNat_lt]
    rw [UInt32.le_iff_toNat_le] at hlow
    simp at hlow ⊢
    omega
  have h800 : ¬ code < 0x800 := UInt32.not_lt.mpr hlow
  rw [encode, if_neg hsur, if_neg h80, if_neg h800]
  exact ⟨_, rfl⟩

theorem length_three (hlow : 0x800 ≤ c.val.toNat) (hhigh : c.val.toNat < 0x10000) :
    (String.utf8EncodeChar c).length = 3 := by
  have hform := form_utf8EncodeChar c
  generalize String.utf8EncodeChar c = bytes at hform ⊢
  generalize c.val.toNat = v at hlow hhigh hform
  cases hform with
  | one ha => omega
  | two ha hb hv => omega
  | three ha hb hc hv => rfl
  | four ha hb hc hd hv => omega

/-! ## The codes -/

theorem written_of_bytes (hbytes : u8char c.val = String.utf8EncodeChar c) : Written c := by
  have hpos : 0 < (String.utf8EncodeChar c).length := (form_utf8EncodeChar c).length_pos
  refine ⟨?_, hbytes, ?_, ?_, ?_⟩
  · cases hencode : encode c.val with
    | none =>
        rw [← hbytes, u8char, hencode] at hpos
        exact absurd hpos (Nat.lt_irrefl 0)
    | some out =>
        obtain ⟨val, size⟩ := out
        rw [← hbytes, length_u8char hencode]
        exact ⟨val, rfl⟩
  · intro addr u index
    rw [UTF8.insertCode]
    simp only [hbytes]
    rw [if_neg (Nat.ne_of_gt hpos)]
  · intro rest
    rw [hbytes, decode_char]
  · intro rest
    rw [decode_char, hbytes]

theorem refused_of_surrogate (hsur : 0xD800 ≤ code ∧ code ≤ 0xDFFF) : Refused code where
  encoded := if_pos hsur
  inserted addr u index := by
    rw [UTF8.insertCode]
    simp only [u8char_surrogate hsur]
    rfl

theorem length_u8char_of_three (hlow : 0x800 ≤ c.val.toNat) : (u8char c.val).length = 4 := by
  have hvalid := scalar_cases c
  have hsur : ¬ (0xD800 ≤ c.val ∧ c.val ≤ 0xDFFF) := by
    simp only [UInt32.le_iff_toNat_le, UInt32.reduceToNat]
    omega
  have hle : 0x800 ≤ c.val := by
    simpa only [UInt32.le_iff_toNat_le, UInt32.reduceToNat] using hlow
  obtain ⟨val, hencode⟩ := encode_from_0x800 hle hsur
  exact length_u8char hencode

theorem not_written (hlow : 0x800 ≤ c.val.toNat) (hhigh : c.val.toNat < 0x10000) : ¬ Written c := by
  intro hwritten
  have hlength := congrArg List.length hwritten.bytes
  rw [length_u8char_of_three hlow, length_three hlow hhigh] at hlength
  exact absurd hlength (by decide)

/-- Of the characters all are written right but those of three bytes. -/
theorem written_iff : Written c ↔ c.val.toNat < 0x800 ∨ 0x10000 ≤ c.val.toNat := by
  constructor
  · intro hwritten
    by_contra hthree
    exact not_written (by omega) (by omega) hwritten
  · exact fun hother => written_of_bytes (u8char_char hother)

theorem not_refused (hhigh : 0x10FFFF < code) : ¬ Refused code := by
  intro hrefused
  simp only [UInt32.lt_iff_toNat_lt, UInt32.reduceToNat] at hhigh
  have hsur : ¬ (0xD800 ≤ code ∧ code ≤ 0xDFFF) := by
    simp only [UInt32.le_iff_toNat_le, UInt32.reduceToNat]
    omega
  have hle : 0x800 ≤ code := by
    simp only [UInt32.le_iff_toNat_le, UInt32.reduceToNat]
    omega
  obtain ⟨val, hencode⟩ := encode_from_0x800 hle hsur
  exact nomatch hrefused.encoded.symm.trans hencode

/-- The encoder is right up to U+07FF and from U+10000 to U+10FFFF, and for surrogates. -/
theorem encode_canonical_iff : Canonical code ↔
    code < 0x800 ∨ (0xD800 ≤ code ∧ code ≤ 0xDFFF) ∨ (0x10000 ≤ code ∧ code ≤ 0x10FFFF) := by
  constructor
  · intro hcanonical
    by_contra hother
    simp only [UInt32.lt_iff_toNat_lt, UInt32.le_iff_toNat_le, UInt32.reduceToNat] at hother
    by_cases hhigh : 0x10FFFF < code.toNat
    · have hbeyond : ∀ c : Char, c.val ≠ code := by
        rintro c rfl
        have hvalid := scalar_cases c
        omega
      exact not_refused (by rwa [UInt32.lt_iff_toNat_lt]) (hcanonical.refused hbeyond)
    · have hvalid : code.isValidChar := by
        unfold UInt32.isValidChar Nat.isValidChar
        omega
      exact not_written (c := ⟨code, hvalid⟩) (by simp only; omega) (by simp only; omega)
        (hcanonical.written _ rfl)
  · intro hcode
    simp only [UInt32.lt_iff_toNat_lt, UInt32.le_iff_toNat_le, UInt32.reduceToNat] at hcode
    constructor
    · rintro c rfl
      have hvalid := scalar_cases c
      exact written_iff.mpr (by omega)
    · intro hnone
      refine refused_of_surrogate ?_
      by_contra hsur
      simp only [UInt32.le_iff_toNat_le, UInt32.reduceToNat] at hsur
      have hvalid : code.isValidChar := by
        unfold UInt32.isValidChar Nat.isValidChar
        omega
      exact hnone ⟨code, hvalid⟩ rfl

/-- The euro sign, written in four bytes. -/
theorem euro_sign_four_bytes : u8char 0x20AC = [0xF0, 0x82, 0x82, 0xAC] ∧ ¬ Canonical 0x20AC := by
  have hbytes : u8char 0x20AC = [0xF0, 0x82, 0x82, 0xAC] := by decide
  refine ⟨hbytes, fun hcanonical => ?_⟩
  have hstandard := (hcanonical.written '€' rfl).bytes
  exact absurd (hbytes.symm.trans hstandard) (by decide)

/-! ## Texts -/

theorem length_le_u8char : (String.utf8EncodeChar c).length ≤ (u8char c.val).length := by
  by_cases hwritten : Written c
  · rw [hwritten.bytes]
  · rw [written_iff] at hwritten
    rw [length_three (by omega) (by omega), length_u8char_of_three (by omega)]
    decide

theorem length_le_typed : ∀ {cs : List Char},
    (utf8 cs).length ≤ (cs.flatMap fun c => u8char c.val).length
  | [] => Nat.le_refl 0
  | c :: cs => by
      rw [utf8_cons, List.flatMap_cons, List.length_append, List.length_append]
      exact Nat.add_le_add length_le_u8char length_le_typed

/-- Typed and received, a text has the same bytes if no character of it is of three. -/
theorem typed_eq_received_iff : ∀ {cs : List Char},
    (cs.flatMap fun c => u8char c.val) = utf8 cs ↔ ∀ c ∈ cs, Written c
  | [] => by simp
  | c :: cs => by
      rw [List.flatMap_cons, utf8_cons, List.forall_mem_cons, ← typed_eq_received_iff]
      constructor
      · intro heq
        -- neither part is shorter than the other's, so both have its length
        have hlength := congrArg List.length heq
        rw [List.length_append, List.length_append] at hlength
        have hhead := length_le_u8char (c := c)
        have htail := @length_le_typed cs
        obtain ⟨hbytes, hrest⟩ := List.append_inj heq (by omega)
        exact ⟨written_of_bytes hbytes, hrest⟩
      · rintro ⟨hwritten, hrest⟩
        rw [hwritten.bytes, hrest]

end MuditaOS.Unicode
