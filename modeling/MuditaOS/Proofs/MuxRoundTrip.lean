import Mathlib
import MuditaOS.Proofs.MuxWire

/-!
# When a frame survives `serialize` and `deserialize`

The decoder finds the end of the frame by searching for the second flag byte,
and the flag is not escaped: a body that contains `0xF9` is taken for a shorter
frame. What the decoder then checks and copies is a function of `seen`, the body
up to that byte, and of the length field. So the whole question comes down to
three facts about the frame: how long the payload is, where the first `0xF9` of
the body stands, and whether the bytes in front of it pass the checksum.

The long length form is decoded from its low byte alone, so a payload above 127
bytes comes back only in a degenerate case: the length is `257 * r`, and the
payload repeats the high length byte, which the decoder copies as data.
-/

namespace MuditaOS.Cellular

/-- What the decoder takes for the frame. -/
def seen (body : List UInt8) : List UInt8 :=
  body.takeWhile (fun b => b ≠ ts0710Flag)

/-- The checksum the decoder computes from a body. -/
def checksum (body : List UInt8) (control : UInt8) : UInt8 :=
  if control = TypeOfFrame.UIH.value then
    crcStep (crc (body.take 3)) ((seen body).getLastD ts0710Flag)
  else crc ((seen body).take ((seen body).length % 256))

/-- `deserialize(serialize(f))`, into a frame that held `g`. -/
def Frame.RoundTrips (f g : Frame) : Prop :=
  ∃ v r, f.serialize = some v ∧ g.deserialize v = some r ∧
    r.frameStatus = .OK ∧ r.data = f.data ∧
    r.address = f.address ||| 0x01 ∧
    r.control = f.control &&& ~~~((0x01 : UInt8) <<< 4)

/-- The frames that survive, read off the frame alone. -/
def Frame.Survives (f : Frame) : Prop :=
  if f.data.length = 127 then ts0710Flag ∉ f.body
  else
    checksum f.body (f.control &&& ~~~((0x01 : UInt8) <<< 4)) = 0xCF ∧
    (127 < f.data.length →
      f.data.length = 257 * (f.data.length % 128) ∧
      ∀ b ∈ f.data, b = UInt8.ofNat (f.data.length / 128))

/-! ## The decoder on a flagged body -/

theorem frameLen_after_flag : ∀ {body rest : List UInt8} {n : Nat},
    frameLen (body ++ ts0710Flag :: rest) true n =
      n + (seen body).length + 1 := by
  intro body
  induction body with
  | nil => intro rest n; simp [frameLen, seen]
  | cons b body ih =>
      intro rest n
      rw [List.cons_append, frameLen]
      by_cases hb : b = ts0710Flag
      · simp [seen, hb]
      · simp only [seen] at ih
        simp [hb, ih, seen]
        omega

theorem frameLen_flagged {body : List UInt8} :
    frameLen (ts0710Flag :: (body ++ [ts0710Flag])) false 0 =
      (seen body).length + 2 := by
  rw [frameLen, if_pos (by simp), frameLen_after_flag]
  omega

theorem seen_cases (body : List UInt8) :
    (seen body = body ∧ ts0710Flag ∉ body) ∨
      ∃ rest, body = seen body ++ ts0710Flag :: rest := by
  induction body with
  | nil => exact .inl ⟨rfl, by simp⟩
  | cons b body ih =>
      by_cases hb : b = ts0710Flag
      · exact .inr ⟨body, by simp [seen, hb]⟩
      · have hstep : seen (b :: body) = b :: seen body := by simp [seen, hb]
        rw [hstep]
        rcases ih with ⟨hself, hmem⟩ | ⟨rest, hrest⟩
        · refine .inl ⟨by rw [hself], ?_⟩
          rw [List.mem_cons, not_or]
          exact ⟨fun h => hb h.symm, hmem⟩
        · exact .inr ⟨rest, by rw [List.cons_append, ← hrest]⟩

theorem seen_eq_take (body : List UInt8) :
    seen body = body.take (seen body).length :=
  List.prefix_iff_eq_take.1 (List.takeWhile_prefix _)

theorem seen_length_le (body : List UInt8) :
    (seen body).length ≤ body.length :=
  (List.takeWhile_prefix _).length_le

theorem take_seen {body : List UInt8} {k : Nat} (hk : k ≤ (seen body).length) :
    (seen body).take k = body.take k := by
  obtain ⟨t, ht⟩ := List.takeWhile_prefix (fun b => b ≠ ts0710Flag) (l := body)
  calc (seen body).take k = (seen body ++ t).take k :=
        (List.take_append_of_le_length hk).symm
    _ = body.take k := by rw [seen]; simp only [ht]

/-- The body is read to its end exactly when it holds no flag byte. -/
theorem seen_length_eq_iff {body : List UInt8} :
    (seen body).length = body.length ↔ ts0710Flag ∉ body := by
  rcases seen_cases body with ⟨hself, hmem⟩ | ⟨rest, hrest⟩
  · exact ⟨fun _ => hmem, fun _ => by rw [hself]⟩
  · refine ⟨fun h => ?_, fun h => ?_⟩
    · have := congrArg List.length hrest
      rw [List.length_append, List.length_cons] at this
      omega
    · exact absurd (hrest ▸ by simp : ts0710Flag ∈ body) h

/-- The search stops at a flag byte, inside the body or at the closing one. -/
theorem getElem?_after_seen (body : List UInt8) :
    (body ++ [ts0710Flag])[(seen body).length]? = some ts0710Flag := by
  rcases seen_cases body with ⟨hself, _⟩ | ⟨rest, hrest⟩
  · rw [hself]; simp
  · have hsplit : body ++ [ts0710Flag] =
        seen body ++ ts0710Flag :: (rest ++ [ts0710Flag]) := by
      conv_lhs => rw [hrest]
      simp
    rw [hsplit, List.getElem?_append_right (Nat.le_refl _), Nat.sub_self]
    rfl

/-- The byte in front of the flag the search stops at. -/
theorem getElem?_seen_length (body : List UInt8) :
    (ts0710Flag :: (body ++ [ts0710Flag]))[(seen body).length]? =
      some ((seen body).getLastD ts0710Flag) := by
  have hle := seen_length_le body
  cases hlen : (seen body).length with
  | zero =>
      rw [List.length_eq_zero_iff.1 hlen]
      rfl
  | succ k =>
      have hne : seen body ≠ [] := by
        intro h; rw [h] at hlen; cases hlen
      rw [List.getElem?_cons_succ, List.getElem?_append_left (by omega),
        List.getLastD_eq_getLast?, List.getLast?_eq_getElem?, hlen,
        Nat.add_sub_cancel]
      conv_rhs => rw [seen_eq_take, hlen]
      rw [List.getElem?_take_of_lt (by omega),
        List.getElem?_eq_getElem (by omega), Option.getD_some]

theorem receivedFcs_flagged {body : List UInt8} {control : UInt8}
    (h : 3 ≤ body.length) :
    receivedFcs (ts0710Flag :: (body ++ [ts0710Flag])) control
      ((seen body).length + 2) = some (checksum body control) := by
  have hle := seen_length_le body
  have hone : (1 : UInt8).toNat = 1 := rfl
  have hloop : ∀ len : UInt8, len.toNat ≤ body.length →
      fcsLoop (ts0710Flag :: (body ++ [ts0710Flag])) len.toNat 1 0xFF =
        some (crc (body.take len.toNat)) := by
    intro len hlen
    have hlt := len.toNat_lt
    rw [fcsLoop_eq (by simp only [hone, List.length_cons, List.length_append]; omega)
      (by rw [hone]; omega)]
    simp only [hone, List.drop_succ_cons, List.drop_zero, crc]
    rw [List.take_append_of_le_length hlen]
  rw [receivedFcs, Nat.add_sub_cancel]
  by_cases huih : control = TypeOfFrame.UIH.value
  · simp only [if_pos huih, checksum]
    rw [hloop 3 h, Option.bind_some, getElem?_seen_length, Option.map_some]
    rfl
  · simp only [if_neg huih, checksum]
    have hlen : (UInt8.ofNat (seen body).length).toNat =
        (seen body).length % 256 := by simp
    have hmod : (seen body).length % 256 ≤ (seen body).length := Nat.mod_le _ _
    rw [hloop _ (by rw [hlen]; omega), Option.bind_some, hlen]
    rw [take_seen hmod]

theorem deserialize_flagged {g : Frame} {body : List UInt8}
    {a b2 b3 : UInt8} {rest : List UInt8} (hbody : body = a :: b2 :: b3 :: rest) :
    g.deserialize (ts0710Flag :: (body ++ [ts0710Flag])) =
      g.deserializeBody (ts0710Flag :: (body ++ [ts0710Flag]))
        ((seen body).length + 2) a b2 b3 := by
  have hlen : ¬ (ts0710Flag :: (body ++ [ts0710Flag])).length < 4 := by
    simp [hbody]
  rw [Frame.deserialize, if_neg hlen]
  simp only [frameLen_flagged]
  rw [show (seen body).length + 2 - 1 = (seen body).length + 1 from rfl,
    List.getElem?_cons_succ, getElem?_after_seen]
  subst hbody
  simp

/-! ## The round trip, one read at a time -/

/-- The cleared control byte is never `UA`, which has bit 4 set, so the check
that spares UA frames spares none. -/
theorem cleared_ne_UA (c : UInt8) :
    c &&& ~~~((0x01 : UInt8) <<< 4) ≠ TypeOfFrame.UA.value := by
  have all : ∀ n : Fin 256, (UInt8.ofNat n.val) &&& ~~~((0x01 : UInt8) <<< 4) ≠
      TypeOfFrame.UA.value := by decide +kernel
  have := all ⟨c.toNat, c.toNat_lt⟩
  rwa [UInt8.ofNat_toNat] at this

/-- The decoder answers the frame exactly when the length it computes stays in
the vector, cuts out the payload, and the checksum passes or is waived. -/
theorem roundTrips_iff_read {f g : Frame} (hg : g.frameStatus = .OK)
    {b3 : UInt8} {rest : List UInt8}
    (hbody : f.body = (f.address ||| 0x01) :: f.control :: b3 :: rest) :
    f.RoundTrips g ↔
      ¬ (b3 = 0xFF ∧ (seen f.body).length + 2 < 6) ∧
      let length :=
        if b3 = 0xFF then (seen f.body).length + 2 - 6 else declaredLength b3
      4 + length ≤ f.body.length + 2 ∧
      (rest ++ [ts0710Flag]).take length = f.data ∧
      (b3 = 0xFF ∨
        checksum f.body (f.control &&& ~~~((0x01 : UInt8) <<< 4)) = 0xCF) := by
  have hlen3 : 3 ≤ f.body.length := by rw [hbody]; simp
  have hdrop : f.wire.drop 4 = rest ++ [ts0710Flag] := by
    rw [Frame.wire, hbody]; rfl
  have hread : f.RoundTrips g ↔ ∃ r, g.deserializeBody f.wire
      ((seen f.body).length + 2) (f.address ||| 0x01) f.control b3 = some r ∧
      r.frameStatus = .OK ∧ r.data = f.data ∧ r.address = f.address ||| 0x01 ∧
      r.control = f.control &&& ~~~((0x01 : UInt8) <<< 4) := by
    rw [Frame.RoundTrips, serialize_eq, Frame.wire, ← deserialize_flagged hbody]
    simp
  rw [hread, Frame.deserializeBody]
  by_cases hempty : b3 = 0xFF ∧ (seen f.body).length + 2 < 6
  · simp [hempty, Frame.drop]
  · rw [if_neg hempty]
    simp only [hempty, not_false_eq_true, true_and]
    generalize (if b3 = 0xFF then (seen f.body).length + 2 - 6
      else declaredLength b3) = length
    by_cases hout : f.wire.length < 4 + length
    · rw [if_pos hout]
      rw [wire_length] at hout
      constructor
      · rintro ⟨_, h, -⟩
        cases h
      · rintro ⟨h, -⟩
        exact absurd h (by omega)
    · rw [if_neg hout, hdrop]
      rw [wire_length] at hout
      have hin : 4 + length ≤ f.body.length + 2 := by omega
      rw [show f.wire = ts0710Flag :: (f.body ++ [ts0710Flag]) from rfl,
        receivedFcs_flagged hlen3, Option.map_some]
      simp only [ne_eq, cleared_ne_UA, not_false_eq_true, and_true,
        Option.some.injEq, exists_eq_left', hin, true_and]
      by_cases hbad : ¬ checksum f.body
          (f.control &&& ~~~((0x01 : UInt8) <<< 4)) = 0xCF ∧ ¬ b3 = 0xFF
      · rw [if_pos hbad]
        constructor
        · rintro ⟨h, -⟩
          cases h
        · rintro ⟨-, h | h⟩
          · exact absurd h hbad.2
          · exact absurd h hbad.1
      · rw [if_neg hbad]
        refine ⟨fun h => ⟨h.2.1, ?_⟩, fun h => ⟨hg, h.1, rfl, rfl⟩⟩
        by_cases hff : b3 = 0xFF
        · exact .inl hff
        · exact .inr (by_contra fun hcrc => hbad ⟨hcrc, hff⟩)

/-! ## The three length classes -/

theorem declaredLength_short {n : Nat} (h : n ≤ 127) :
    declaredLength (UInt8.ofNat (2 * n + 1)) = n := by
  obtain ⟨hodd, hval⟩ := shortByte h
  rw [declaredLength, if_pos hodd, hval]

theorem shortByte_eq_ff {n : Nat} (h : n ≤ 127) :
    UInt8.ofNat (2 * n + 1) = 0xFF ↔ n = 127 := by
  have hff : (0xFF : UInt8).toNat = 255 := rfl
  rw [← UInt8.toNat_inj, toNat_shortByte h, hff]
  omega

/-- The low byte is read twice: once in place, once where the high byte should
be. -/
theorem declaredLength_long (n : Nat) :
    declaredLength (UInt8.ofNat (2 * n)) = 257 * (n % 128) ∧
      UInt8.ofNat (2 * n) ≠ 0xFF := by
  obtain ⟨heven, hval⟩ := longByte n
  refine ⟨?_, fun hff => ?_⟩
  · rw [declaredLength, if_neg heven, hval, toNat_longByte, Nat.shiftLeft_eq]
    omega
  · have hval := congrArg UInt8.toNat hff
    rw [toNat_longByte, show (0xFF : UInt8).toNat = 255 from rfl] at hval
    omega

/-- A list shifted by one behind `x` and cut to size is itself exactly when it
repeats `x`. -/
theorem cons_take_eq_self {x : UInt8} {tail : List UInt8} :
    ∀ {l : List UInt8}, (x :: (l ++ tail)).take l.length = l ↔ ∀ b ∈ l, b = x := by
  intro l
  induction l generalizing x with
  | nil => simp
  | cons y l ih =>
      rw [List.length_cons, List.take_succ_cons, List.cons.injEq,
        List.cons_append, ih]
      refine ⟨fun ⟨hxy, hall⟩ => ?_, fun h => ?_⟩
      · subst hxy
        simpa using hall
      · have hxy := h y List.mem_cons_self
        exact ⟨hxy.symm, fun b hb => hxy ▸ h b (List.mem_cons_of_mem _ hb)⟩

theorem roundTrips_short {f g : Frame} (hg : g.frameStatus = .OK)
    (hn : f.data.length < 127) : f.RoundTrips g ↔ f.Survives := by
  have hbody : f.body = (f.address ||| 0x01) :: f.control ::
      UInt8.ofNat (2 * f.data.length + 1) :: (f.data ++ [f.fcs]) := by
    simp [Frame.body, Frame.header, lengthField_short (Nat.le_of_lt hn)]
  have hff : UInt8.ofNat (2 * f.data.length + 1) ≠ 0xFF := by
    rw [ne_eq, shortByte_eq_ff (Nat.le_of_lt hn)]
    omega
  have hsize : f.body.length = f.data.length + 4 := by rw [hbody]; simp
  rw [roundTrips_iff_read hg hbody, Frame.Survives, if_neg hff,
    if_neg (show ¬ f.data.length = 127 by omega),
    declaredLength_short (Nat.le_of_lt hn)]
  simp only [hff, false_and, not_false_eq_true, true_and, false_or,
    List.append_assoc, List.take_left, hsize]
  refine ⟨fun h => ⟨h.2, fun hgt => absurd hgt (by omega)⟩, fun h => ⟨by omega, h.1⟩⟩

/-- At 127 bytes the length byte is the marker of the Quectel hack: the length
is then measured up to the flag, and the checksum is not looked at. -/
theorem roundTrips_marker {f g : Frame} (hg : g.frameStatus = .OK)
    (hn : f.data.length = 127) : f.RoundTrips g ↔ f.Survives := by
  have hbody : f.body = (f.address ||| 0x01) :: f.control ::
      0xFF :: (f.data ++ [f.fcs]) := by
    simp [Frame.body, Frame.header, lengthField_short, hn]
  have hsize : f.body.length = 131 := by rw [hbody]; simp [hn]
  have hle := seen_length_le f.body
  rw [roundTrips_iff_read hg hbody, Frame.Survives, if_pos hn, if_pos rfl,
    ← seen_length_eq_iff, hsize]
  simp only [true_and, true_or, and_true, List.append_assoc]
  constructor
  · rintro ⟨hge, -, htake⟩
    have := congrArg List.length htake
    simp only [List.length_take, List.length_append, hn] at this
    simp at this
    omega
  · intro h
    rw [h]
    refine ⟨by omega, by omega, ?_⟩
    rw [show 131 + 2 - 6 = f.data.length by omega, List.take_left]

theorem roundTrips_long {f g : Frame} (hg : g.frameStatus = .OK)
    (hn : 127 < f.data.length) (hmax : f.data.length ≤ 32767) :
    f.RoundTrips g ↔ f.Survives := by
  have hbody : f.body = (f.address ||| 0x01) :: f.control ::
      UInt8.ofNat (2 * f.data.length) ::
      (UInt8.ofNat (f.data.length / 128) :: (f.data ++ [f.fcs])) := by
    simp [Frame.body, Frame.header, lengthField_long hn hmax]
  obtain ⟨hdecl, hff⟩ := declaredLength_long f.data.length
  have hsize : f.body.length = f.data.length + 5 := by rw [hbody]; simp
  rw [roundTrips_iff_read hg hbody, Frame.Survives, if_neg hff,
    if_neg (show ¬ f.data.length = 127 by omega), hdecl]
  simp only [hff, false_and, not_false_eq_true, true_and, false_or, hn,
    forall_const, hsize]
  generalize hr : 257 * (f.data.length % 128) = length
  constructor
  · rintro ⟨hin, htake, hcrc⟩
    have hlen : length = f.data.length := by
      have := congrArg List.length htake
      simp only [List.length_take, List.length_append, List.length_cons,
        List.length_nil] at this
      omega
    refine ⟨hcrc, hlen.symm, ?_⟩
    rw [hlen, List.cons_append, List.append_assoc] at htake
    exact cons_take_eq_self.1 htake
  · rintro ⟨hcrc, heq, hall⟩
    refine ⟨by omega, ?_, hcrc⟩
    rw [← heq, List.cons_append, List.append_assoc]
    exact cons_take_eq_self.2 hall

/-! ## The exact class of frames that come back -/

instance (f : Frame) : Decidable f.Survives := by
  unfold Frame.Survives
  infer_instance

/-- The plain case: at most 127 bytes of payload and no flag byte anywhere in
the body. A control byte of `0xFF` is left out because the two directions then
disagree on which bytes the checksum covers. -/
theorem survives_of_flag_free {f : Frame} (hn : f.data.length ≤ 127)
    (hflag : ts0710Flag ∉ f.body) (hctl : f.control ≠ 0xFF) : f.Survives := by
  rw [Frame.Survives]
  split
  · exact hflag
  · next hne =>
      refine ⟨?_, fun hgt => absurd hgt (by omega)⟩
      have hall : seen f.body = f.header ++ f.data ++ [f.fcs] := by
        rw [seen_eq_take, seen_length_eq_iff.2 hflag, List.take_length]
        rfl
      have hhdr : f.header.length = 3 := by
        simp [Frame.header, lengthField_short hn]
      have hcleared : f.control &&& ~~~((0x01 : UInt8) <<< 4) =
          TypeOfFrame.UIH.value ↔ f.control = TypeOfFrame.UIH.value := by
        have all : ∀ m : Fin 256, UInt8.ofNat m.val ≠ 0xFF →
            (UInt8.ofNat m.val &&& ~~~((0x01 : UInt8) <<< 4) =
              TypeOfFrame.UIH.value ↔
              UInt8.ofNat m.val = TypeOfFrame.UIH.value) := by decide +kernel
        have := all ⟨f.control.toNat, f.control.toNat_lt⟩
        simp only [UInt8.ofNat_toNat] at this
        exact this hctl
      rw [checksum]
      by_cases huih : f.control = TypeOfFrame.UIH.value
      · rw [if_pos (hcleared.2 huih), crcStep_eq_residue, hall,
          List.getLastD_concat, Frame.fcs, if_pos huih, Frame.body,
          List.append_assoc,
          List.take_append_of_le_length (by omega),
          List.take_append_of_le_length (by omega)]
      · have hsize : (f.header ++ f.data).length % 256 =
            (f.header ++ f.data).length := by
          rw [List.length_append]
          omega
        have hseen : (f.header ++ f.data ++ [f.fcs]).length % 256 =
            (f.header ++ f.data ++ [f.fcs]).length := by
          simp only [List.length_append, List.length_cons, List.length_nil]
          omega
        rw [if_neg (mt hcleared.1 huih), hall, hseen, List.take_length,
          crc_append, crcStep_eq_residue, Frame.fcs, if_neg huih]
        simp only [hsize, List.take_length]

/-- A frame comes back from the wire exactly when it is one of these. -/
theorem serialize_deserialize_iff {f g : Frame} (hg : g.frameStatus = .OK)
    (hmax : f.data.length ≤ 32767) : f.RoundTrips g ↔ f.Survives := by
  rcases Nat.lt_trichotomy f.data.length 127 with hlt | heq | hgt
  · exact roundTrips_short hg hlt
  · exact roundTrips_marker hg heq
  · exact roundTrips_long hg hgt hmax

theorem serialize_deserialize_at_command :
    (Frame.mk .OK 0x08 0xEF [0x41, 0x54, 0x0D]).RoundTrips
      (Frame.uninit 0 0) :=
  (serialize_deserialize_iff rfl (by decide)).2 (by decide +kernel)

/-- One flag byte of payload on a UIH frame: the decoder stops at it, reads the
length field as the checksum byte, and drops the frame. -/
theorem serialize_deserialize_flag_payload :
    ¬ ∀ f : Frame, f.data.length ≤ 32767 →
      (∃ t : TypeOfFrame, f.control = t.value) →
      f.RoundTrips (Frame.uninit 0 0) := by
  intro h
  obtain ⟨v, r, hs, hd, hok, _⟩ :=
    h (Frame.mk .OK 0x08 0xEF [0xF9]) (by decide) ⟨.UIH, rfl⟩
  have hv : (Frame.mk .OK 0x08 0xEF [0xF9]).serialize =
      some [0xF9, 0x09, 0xEF, 0x03, 0xF9, 0x32, 0xF9] := by decide +kernel
  have hr : (Frame.uninit 0 0).deserialize
      [0xF9, 0x09, 0xEF, 0x03, 0xF9, 0x32, 0xF9] =
      some { frameStatus := .CRCError, address := 0, control := 0 } := by
    decide +kernel
  rw [hv, Option.some.injEq] at hs
  rw [← hs, hr, Option.some.injEq] at hd
  rw [← hd] at hok
  cases hok

end MuditaOS.Cellular
