import Mathlib.Tactic.IntervalCases
import MuditaOS.Cellular.MuxFrame

/-!
# What a serialized frame looks like on the wire

`serialize` builds its vector imperatively, with a 16-bit length and an 8-bit
counter that both wrap. This file gives the vector in closed form, the opening
flag, a body, the closing flag, and says what the two readers of the wire see
in it: `isComplete` compares the size with the length field, so it accepts
exactly the whole frame among its own prefixes, and the checksum loop folds
`crcStep` over a prefix of the body.
-/

namespace MuditaOS.Cellular

/-- The checksum of a byte sequence, the fold both directions perform. -/
def crc (bytes : List UInt8) : UInt8 := bytes.foldl crcStep 0xFF

/-- Address, control and length field. -/
def Frame.header (f : Frame) : List UInt8 :=
  [f.address ||| 0x01, f.control] ++ lengthField f.data.length

/-- The checksum byte the encoder appends: over the first three bytes for a UIH
frame, else over as many bytes as its 8-bit counter can count. -/
def Frame.fcs (f : Frame) : UInt8 :=
  let covered := f.header ++ f.data
  0xFF - crc (if f.control = TypeOfFrame.UIH.value then covered.take 3
    else covered.take (covered.length % 256))

/-- Everything between the two flags. -/
def Frame.body (f : Frame) : List UInt8 := f.header ++ f.data ++ [f.fcs]

def Frame.wire (f : Frame) : List UInt8 :=
  ts0710Flag :: (f.body ++ [ts0710Flag])

/-! ## The checksum table

`0xCF` is the residue: the checksum of a message followed by its own complement.
Only the entry at `0xFF` has it, so a checksum byte is accepted exactly when it
is the complement of what precedes it. -/

theorem residue_notMem_front : 0xCF ∉ crctable.toList.take 255 := by
  decide +kernel

theorem crctable_eq_residue (x : Fin 256) : crctable.get x = 0xCF ↔ x = 255 := by
  refine ⟨fun h => ?_, fun h => h ▸ rfl⟩
  by_contra hne
  have hx : x.val < 255 := by
    have := x.isLt
    have : x.val ≠ 255 := fun hval => hne (Fin.ext hval)
    omega
  have hlen : crctable.toList.length = 256 := Vector.length_toList
  have hget : crctable.toList[x.val]? = some 0xCF := by
    rw [← h, Vector.getElem?_toList]
    exact Vector.getElem?_eq_getElem x.isLt
  refine residue_notMem_front (List.mem_of_getElem? (i := x.val) ?_)
  rw [List.getElem?_take_of_lt hx, hget]

theorem sub_eq_xor_ones (x : UInt8) : 0xFF - x = x ^^^ 0xFF := by
  apply UInt8.toBitVec_inj.1
  rw [UInt8.toBitVec_sub, UInt8.toBitVec_xor,
    show (0xFF : UInt8).toBitVec = BitVec.allOnes 8 from rfl,
    BitVec.allOnes_sub_eq_not, BitVec.xor_allOnes]

theorem crcStep_eq_residue {x y : UInt8} :
    crcStep x y = 0xCF ↔ y = 0xFF - x := by
  have hfin : (x ^^^ y).toFin = 255 ↔ x ^^^ y = 0xFF := by
    rw [← UInt8.toFin_inj]; rfl
  rw [crcStep, crctable_eq_residue, sub_eq_xor_ones, hfin]
  constructor
  · intro h
    rw [← h, ← UInt8.xor_assoc, UInt8.xor_self, UInt8.zero_xor]
  · rintro rfl
    rw [← UInt8.xor_assoc, UInt8.xor_self, UInt8.zero_xor]

@[simp] theorem crc_append {xs : List UInt8} {b : UInt8} :
    crc (xs ++ [b]) = crcStep (crc xs) b := by
  simp [crc]

/-- The loop stays inside the vector and inside its 8-bit index as long as the
count does. -/
theorem fcsLoop_eq {v : List UInt8} : ∀ {len : Nat} {i fcs : UInt8},
    i.toNat + len ≤ v.length → i.toNat + len ≤ 256 →
    fcsLoop v len i fcs =
      some (((v.drop i.toNat).take len).foldl crcStep fcs) := by
  intro len
  induction len with
  | zero => intro i fcs _ _; simp [fcsLoop]
  | succ n ih =>
      intro i fcs hv hw
      have hi : i.toNat < v.length := by omega
      rw [fcsLoop, List.getElem?_eq_getElem hi, Option.bind_some,
        List.drop_eq_getElem_cons hi, List.take_succ_cons, List.foldl_cons]
      rcases Nat.eq_zero_or_pos n with rfl | hn
      · simp [fcsLoop]
      · -- the index has not reached its last value, so it does not wrap
        have hnext : (i + 1).toNat = i.toNat + 1 := by
          rw [UInt8.toNat_add]
          exact Nat.mod_eq_of_lt (show i.toNat + 1 < 256 by omega)
        rw [ih (by omega) (by omega), hnext]

/-! ## The length field -/

theorem toNat_and_one {x : UInt8} : (x &&& 0x01).toNat = x.toNat % 2 :=
  (UInt8.toNat_and x 1).trans (Nat.and_one_is_mod x.toNat)

theorem toNat_shr_one {x : UInt8} : (x >>> 1).toNat = x.toNat / 2 :=
  (UInt8.toNat_shiftRight x 1).trans (Nat.shiftRight_eq_div_pow x.toNat 1)

theorem toNat_shortByte {n : Nat} (h : n ≤ 127) :
    (UInt8.ofNat (2 * n + 1)).toNat = 2 * n + 1 := by
  rw [UInt8.toNat_ofNat']
  omega

/-- The low byte of the long form only knows the length modulo 128. -/
theorem toNat_longByte {n : Nat} :
    (UInt8.ofNat (2 * n)).toNat = 2 * (n % 128) := by
  rw [UInt8.toNat_ofNat']
  omega

theorem shortByte {n : Nat} (h : n ≤ 127) :
    UInt8.ofNat (2 * n + 1) &&& 0x01 ≠ 0 ∧
      (UInt8.ofNat (2 * n + 1) >>> 1).toNat = n := by
  have hbit := @toNat_and_one (UInt8.ofNat (2 * n + 1))
  rw [toNat_shortByte h] at hbit
  refine ⟨fun hzero => ?_, ?_⟩
  · have : (0 : UInt8).toNat = 0 := rfl
    rw [hzero] at hbit
    omega
  · rw [toNat_shr_one, toNat_shortByte h]
    omega

theorem longByte (n : Nat) :
    ¬ UInt8.ofNat (2 * n) &&& 0x01 ≠ 0 ∧
      (UInt8.ofNat (2 * n) >>> 1).toNat = n % 128 := by
  refine ⟨not_not.2 (UInt8.toNat_inj.1 ?_), ?_⟩
  · have : (0 : UInt8).toNat = 0 := rfl
    rw [toNat_and_one, toNat_longByte]
    omega
  · rw [toNat_shr_one, toNat_longByte]
    omega

theorem lengthField_short {n : Nat} (h : n ≤ 127) :
    lengthField n = [UInt8.ofNat (2 * n + 1)] := by
  have all : ∀ m : Fin 128,
      lengthField m.val = [UInt8.ofNat (2 * m.val + 1)] := by
    decide +kernel
  exact all ⟨n, by omega⟩

/-- Clearing the E/A bit after the shift changes nothing. -/
theorem shl_one_and_not_one (x : UInt16) :
    (x <<< 1) &&& ~~~(0x0001 : UInt16) = x <<< 1 := by
  apply UInt16.toBitVec_inj.1
  apply BitVec.eq_of_getLsbD_eq
  intro i hi
  simp only [UInt16.toBitVec_and, UInt16.toBitVec_not, BitVec.getLsbD_and,
    BitVec.getLsbD_not, hi, decide_true, Bool.true_and, Bool.and_eq_left_iff_imp]
  intro h
  interval_cases i <;> simp at h ⊢

theorem lengthField_long {n : Nat} (h : 127 < n) (h' : n ≤ 32767) :
    lengthField n = [UInt8.ofNat (2 * n), UInt8.ofNat (n / 128)] := by
  have hgt : UInt16.ofNat n > 127 := by
    rw [gt_iff_lt, UInt16.lt_iff_toNat_lt]
    simp
    omega
  have hlow : ∀ m : Nat, m &&& 255 = m % 256 :=
    fun m => Nat.and_two_pow_sub_one_eq_mod m 8
  simp only [lengthField, if_pos hgt, List.cons.injEq, and_true,
    shl_one_and_not_one]
  constructor
  · apply UInt8.toNat_inj.1
    simp [Nat.shiftLeft_eq, hlow]
    omega
  · apply UInt8.toNat_inj.1
    simp [Nat.shiftLeft_eq, hlow, Nat.shiftRight_eq_div_pow]
    omega

theorem lengthField_length (n : Nat) :
    (lengthField n).length = if UInt16.ofNat n > 127 then 2 else 1 := by
  simp only [lengthField]
  split <;> rfl

theorem header_length_pos (f : Frame) : 3 ≤ f.header.length := by
  simp only [Frame.header, List.length_append, lengthField_length]
  split <;> simp

@[simp] theorem body_length (f : Frame) :
    f.body.length = f.header.length + f.data.length + 1 := by
  simp [Frame.body, Nat.add_assoc]

@[simp] theorem wire_length (f : Frame) : f.wire.length = f.body.length + 2 := by
  simp [Frame.wire]

/-! ## The encoder in closed form -/

theorem serialize_eq (f : Frame) : f.serialize = some f.wire := by
  have hhdr := header_length_pos f
  have hret : [ts0710Flag, f.address ||| 0x01, f.control] ++
      lengthField f.data.length ++ f.data =
      ts0710Flag :: (f.header ++ f.data) := by
    simp [Frame.header]
  have hone : (1 : UInt8).toNat = 1 := rfl
  simp only [Frame.serialize, hret]
  have hloop : ∀ len : UInt8, len.toNat ≤ (f.header ++ f.data).length →
      fcsLoop (ts0710Flag :: (f.header ++ f.data)) len.toNat 1 0xFF =
        some (crc ((f.header ++ f.data).take len.toNat)) := by
    intro len hlen
    have hlt := len.toNat_lt
    rw [fcsLoop_eq (by rw [hone, List.length_cons]; omega) (by rw [hone]; omega)]
    simp [crc]
  split
  · next huih =>
      rw [hloop 3 (by simp; omega)]
      simp [Frame.wire, Frame.body, Frame.fcs, huih]
  · next huih =>
      have hlen : (UInt8.ofNat ((ts0710Flag :: (f.header ++ f.data)).length - 1)).toNat
          = (f.header ++ f.data).length % 256 := by
        simp
      rw [hloop _ (by rw [hlen]; exact Nat.mod_le _ _), hlen]
      simp only [Frame.wire, Frame.body, Frame.fcs, if_neg huih]
      simp

end MuditaOS.Cellular
