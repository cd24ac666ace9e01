import MuditaOS.Proofs.MuxRoundTrip

/-!
# A complete frame and its declared length

`isComplete` and `deserialize` read the length field each for itself. They agree on
the short form. In the long form the decoder shifts the low byte where the high one
belongs and takes the high byte for payload, so that a long frame is read past its
end, or dropped for its checksum, or comes out as declared only where all the bytes
in question are the same.
-/

namespace MuditaOS.Cellular

/-- The payload where `isComplete` looks for it, in the length that it computes. -/
def declaredData : List UInt8 → List UInt8
  | _ :: _ :: _ :: b3 :: b4 :: rest =>
      if b3 &&& 0x01 ≠ 0 then (b4 :: rest).take (b3 >>> 1).toNat
      else rest.take ((b3 >>> 1).toNat + (b4.toNat <<< 7))
  | _ => []

/-- No read outside the vector, and a frame that is accepted has the declared payload. -/
def DecodedAsDeclared (g : Frame) (v : List UInt8) : Prop :=
  ∃ r, g.deserialize v = some r ∧ (r.frameStatus = .OK → r.data = declaredData v)

/-- The checksum that `deserialize` asks for. -/
def Checked (v : List UInt8) (control : UInt8) : Prop :=
  receivedFcs v (control &&& ~~~((0x01 : UInt8) <<< 4)) (frameLen v false 0) = some 0xCF

/-- The short form; or a frame that reaches as far as the low byte says twice over, and
whose checksum is wrong or whose bytes from the length field on are all that byte. -/
def LengthAgrees : List UInt8 → Prop
  | v@(_ :: _ :: control :: b3 :: rest) =>
      b3 &&& 0x01 ≠ 0 ∨ 4 + declaredLength b3 ≤ v.length ∧
        (¬ Checked v control ∨ ∀ b ∈ rest.take (declaredLength b3 + 1), b = b3)
  | _ => False

instance (v : List UInt8) (control : UInt8) : Decidable (Checked v control) :=
  inferInstanceAs (Decidable (_ = _))

instance : ∀ v, Decidable (LengthAgrees v)
  | _ :: _ :: _ :: _ :: _ => inferInstanceAs (Decidable (_ ∨ _))
  | [_, _, _] | [_, _] | [_] | [] => inferInstanceAs (Decidable False)

variable {v : List UInt8} {a c b3 b4 : UInt8} {rest : List UInt8} {address control : UInt8}

/-! ## The form of a complete frame -/

/-- Between two flags there are four bytes at least. -/
theorem isComplete_bounds (h : isComplete v = true) :
    v.head? = some ts0710Flag ∧ v.getLast? = some ts0710Flag ∧ 6 ≤ v.length := by
  rw [isComplete.eq_def] at h
  split at h
  case h_1 first a c b3 rest =>
      split at h
      · cases h
      · rename_i hflags
        rw [not_or, not_not, not_not] at hflags
        refine ⟨congrArg some hflags.1, hflags.2, ?_⟩
        split at h
        · have hle := of_decide_eq_true h
          exact Nat.le_trans (Nat.le_add_right _ _) hle
        · split at h
          · have hle := of_decide_eq_true h
            exact Nat.le_trans (Nat.le_trans (Nat.le_add_right _ _) (Nat.le_succ _)) hle
          · cases h
  case h_2 => cases h

theorem isComplete_form (h : isComplete v = true) :
    ∃ a c b3 b4 rest, v = ts0710Flag :: ((a :: c :: b3 :: b4 :: rest) ++ [ts0710Flag]) := by
  obtain ⟨hhead, hlast, hlen⟩ := isComplete_bounds h
  obtain ⟨front, rfl⟩ := List.getLast?_eq_some_iff.1 hlast
  rw [List.length_append, List.length_singleton] at hlen
  match front, hlen, hhead with
  | _ :: a :: c :: b3 :: b4 :: rest, _, hhead =>
      obtain rfl := Option.some.inj hhead
      exact ⟨a, c, b3, b4, rest, rfl⟩

/-- The declared length, and that the frame is long enough for it. -/
theorem isComplete_iff :
    isComplete (ts0710Flag :: ((a :: c :: b3 :: b4 :: rest) ++ [ts0710Flag])) = true ↔
      if b3 &&& 0x01 ≠ 0 then (b3 >>> 1).toNat ≤ rest.length
      else (b3 >>> 1).toNat + (b4.toNat <<< 7) + 1 ≤ rest.length := by
  have hlast : (ts0710Flag :: ((a :: c :: b3 :: b4 :: rest) ++ [ts0710Flag])).getLast? =
      some ts0710Flag := by
    rw [← List.cons_append]
    exact List.getLast?_concat
  rw [List.cons_append, List.cons_append, List.cons_append, List.cons_append] at hlast ⊢
  simp only [isComplete, hlast, ne_eq, not_true_eq_false, or_self, if_false]
  split
  · simp [ts0710FrameHdrLen]
    omega
  · simp [ts0710FrameHdrLen]
    omega

/-! ## What the decoder makes of it -/

/-- A read outside, a dropped frame, or as many bytes behind the low length byte as that
byte says twice over. -/
theorem decodedAsDeclared_iff_read (hff : b3 ≠ 0xFF) :
    DecodedAsDeclared (Frame.uninit address control)
        (ts0710Flag :: ((a :: c :: b3 :: b4 :: rest) ++ [ts0710Flag])) ↔
      declaredLength b3 ≤ rest.length + 2 ∧
        (Checked (ts0710Flag :: ((a :: c :: b3 :: b4 :: rest) ++ [ts0710Flag])) c →
          ((b4 :: rest) ++ [ts0710Flag]).take (declaredLength b3) =
            declaredData (ts0710Flag :: ((a :: c :: b3 :: b4 :: rest) ++ [ts0710Flag]))) := by
  have hlen : 3 ≤ (a :: c :: b3 :: b4 :: rest).length := by simp
  have hread := @deserialize_flagged (Frame.uninit address control) _ a c b3 (b4 :: rest) rfl
  rw [Frame.deserializeBody, if_neg fun h => hff h.1, if_neg hff,
    receivedFcs_flagged hlen] at hread
  dsimp only at hread
  rw [Option.map_some] at hread
  rw [DecodedAsDeclared, hread, Checked, frameLen_flagged, receivedFcs_flagged hlen,
    Option.some.injEq]
  have hsize : (ts0710Flag :: ((a :: c :: b3 :: b4 :: rest) ++ [ts0710Flag])).length =
      rest.length + 6 := by simp
  rw [hsize]
  by_cases hout : rest.length + 6 < 4 + declaredLength b3
  · rw [if_pos hout]
    refine iff_of_false ?_ fun h => absurd h.1 (by omega)
    intro h
    obtain ⟨r, hnone, _⟩ := h
    cases hnone
  · have hin : declaredLength b3 ≤ rest.length + 2 := by omega
    rw [if_neg hout, and_iff_right hin]
    by_cases hcrc : checksum (a :: c :: b3 :: b4 :: rest) (c &&& ~~~((0x01 : UInt8) <<< 4)) =
        0xCF
    · rw [if_neg fun h => h.1 hcrc]
      simp [hcrc, Frame.uninit]
    · rw [if_pos ⟨hcrc, hff, cleared_ne_UA c⟩]
      simp [hcrc, Frame.drop]

theorem declaredLength_of_short (hodd : b3 &&& 0x01 ≠ 0) :
    declaredLength b3 = (b3 >>> 1).toNat := if_pos hodd

theorem declaredLength_of_long (heven : ¬ b3 &&& 0x01 ≠ 0) :
    declaredLength b3 = (b3 >>> 1).toNat + (b3.toNat <<< 7) := if_neg heven

/-- With the high byte read as payload, the payload comes out right only where the two
length bytes and all of the payload are one byte. -/
theorem take_eq_declared_iff {n l : Nat} {payload : List UInt8}
    (hn : n = (b3 >>> 1).toNat + (b3.toNat <<< 7))
    (hl : l = (b3 >>> 1).toNat + (b4.toNat <<< 7)) (hin : n ≤ payload.length + 1)
    (hfits : l ≤ payload.length) :
    (b4 :: payload).take n = payload.take l ↔ ∀ b ∈ (b4 :: payload).take (n + 1), b = b3 := by
  have hsame : n = l ↔ b4 = b3 := by
    rw [hn, hl, Nat.shiftLeft_eq, Nat.shiftLeft_eq, ← UInt8.toNat_inj]
    omega
  have hshift : n ≤ payload.length → ((b4 :: payload).take n = payload.take n ↔
      ∀ b ∈ payload.take n, b = b4) := by
    intro hle
    have hself := @cons_take_eq_self b4 (payload.drop n) (payload.take n)
    rwa [List.take_append_drop, List.length_take_of_le hle] at hself
  rw [List.take_succ_cons, List.forall_mem_cons]
  constructor
  · intro heq
    have hlen := congrArg List.length heq
    rw [List.length_take_of_le (by rwa [List.length_cons]), List.length_take_of_le hfits] at hlen
    obtain rfl := hsame.1 hlen
    rw [← hlen] at heq
    exact ⟨rfl, (hshift (hlen ▸ hfits)).1 heq⟩
  · intro h
    obtain ⟨rfl, hall⟩ := h
    obtain rfl := hsame.2 rfl
    exact (hshift hfits).2 hall

/-- A complete frame is decoded as declared exactly when the two readings of its length
agree. -/
theorem decodedAsDeclared_iff (h : isComplete v = true) (hff : v[3]? ≠ some 0xFF) :
    DecodedAsDeclared (Frame.uninit address control) v ↔ LengthAgrees v := by
  obtain ⟨a, c, b3, b4, rest, rfl⟩ := isComplete_form h
  have hff' : b3 ≠ 0xFF := fun heq => hff (congrArg some heq)
  rw [isComplete_iff] at h
  rw [decodedAsDeclared_iff_read hff']
  rw [List.cons_append, List.cons_append, List.cons_append, List.cons_append, LengthAgrees,
    declaredData]
  have hsize : (ts0710Flag :: a :: c :: b3 :: b4 :: (rest ++ [ts0710Flag])).length =
      rest.length + 6 := by simp
  rw [hsize]
  by_cases hodd : b3 &&& 0x01 ≠ 0
  · rw [if_pos hodd] at h
    rw [if_pos hodd, declaredLength_of_short hodd]
    exact iff_of_true ⟨by omega, fun _ => rfl⟩ (.inl hodd)
  · rw [if_neg hodd] at h
    rw [if_neg hodd, or_iff_right hodd]
    have hreach : 4 + declaredLength b3 ≤ rest.length + 6 ↔
        declaredLength b3 ≤ rest.length + 2 := by omega
    rw [hreach, ← imp_iff_not_or]
    refine and_congr_right fun hin => imp_congr_right fun _ => ?_
    refine take_eq_declared_iff (declaredLength_of_long hodd) rfl ?_ ?_
    · rw [List.length_append]
      exact hin
    · rw [List.length_append]
      omega

theorem at_command_as_declared :
    DecodedAsDeclared (Frame.uninit 0 0)
      [0xF9, 0x09, 0xEF, 0x07, 0x41, 0x54, 0x0D, 0x35, 0xF9] :=
  (decodedAsDeclared_iff (by decide) (by decide)).2 (by decide)

/-- One payload byte under the long form: its length is taken for 257. -/
theorem long_form_read_past_end :
    ¬ ∀ v : List UInt8, isComplete v = true → v[3]? ≠ some 0xFF →
      DecodedAsDeclared (Frame.uninit 0 0) v := by
  intro h
  obtain ⟨r, hsome, _⟩ := h [0xF9, 0x03, 0xEF, 0x02, 0x00, 0x41, 0x31, 0xF9] (by decide)
    (by decide)
  have hnone : (Frame.uninit 0 0).deserialize [0xF9, 0x03, 0xEF, 0x02, 0x00, 0x41, 0x31, 0xF9] =
      none := by decide +kernel
  rw [hnone] at hsome
  cases hsome

end MuditaOS.Cellular
