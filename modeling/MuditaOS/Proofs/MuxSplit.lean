import MuditaOS.Cellular.Mux
import MuditaOS.Lib.Cut
import MuditaOS.Proofs.MuxWire

/-!
# User data in frames

The loop of `request` runs once for each whole frame and once more for the
remainder. Its frames carry the pieces of 127 bytes of the user data, so all is
well unless there is no remainder: then the last frame is empty. Up to 127 bytes
there is no loop.
-/

namespace MuditaOS.Cellular

open MuditaOS.Lib

variable {dlci : Int} {userData : List UInt8}

/-- The frames written carry the user data, none of them empty and none more than
127 bytes, and no more frames than that takes. -/
def SplitsExactly (dlci : Int) (userData : List UInt8) : Prop :=
  ∃ frames, requestFrames dlci userData = some frames ∧
    request dlci userData = some (frames.map Frame.wire) ∧
    (∀ f ∈ frames, f.data ≠ [] ∧ f.data.length ≤ 127) ∧
    (frames.map Frame.data).flatten = userData ∧
    frames.length = (userData.length + 126) / 127

theorem mapM_serialize : ∀ {frames : List Frame},
    frames.mapM Frame.serialize = some (frames.map Frame.wire) := by
  intro frames
  induction frames with
  | nil => rfl
  | cons f frames ih =>
      rw [List.mapM_cons, serialize_eq, ih]
      rfl

/-- Every frame is written. -/
theorem request_eq {frames : List Frame} (h : requestFrames dlci userData = some frames) :
    request dlci userData = some (frames.map Frame.wire) := by
  rw [request, h, Option.bind_some, mapM_serialize]

/-! ## The loop -/

/-- One round, where what is left is the rest of the vector. -/
theorem requestLoop_succ {parts left i : Nat} (h : i + left = userData.length) :
    requestLoop dlci userData (parts + 1) left i =
      (requestLoop dlci userData parts ((left - min left 127 : Nat) : Int)
        (i + min left 127)).map
          (uihFrame dlci ((userData.drop i).take 127) :: ·) := by
  have hstep : (if (left : Int) ≤ (maximumFrameLength : Nat) then (left : Int)
      else (maximumFrameLength : Nat)) = ((min left 127 : Nat) : Int) := by
    change (if (left : Int) ≤ ((127 : Nat) : Int) then (left : Int)
      else ((127 : Nat) : Int)) = _
    split
    · omega
    · omega
  have htake : (userData.drop i).take (min left 127) = (userData.drop i).take 127 := by
    have hall : (userData.drop i).take left = userData.drop i :=
      List.take_of_length_le (by rw [List.length_drop]; omega)
    rw [Nat.min_comm, ← List.take_take, hall]
  rw [requestLoop]
  simp only [hstep]
  rw [if_pos (by omega), Int.toNat_natCast, htake,
    show (left : Int) - ((min left 127 : Nat) : Int) =
      ((left - min left 127 : Nat) : Int) by omega]

/-- The frames of the loop are the pieces from its iterator on; behind the end of
the vector they are empty. -/
theorem requestLoop_eq : ∀ {parts j : Nat},
    requestLoop dlci userData parts
        ((userData.length - min (127 * j) userData.length : Nat) : Int)
        (min (127 * j) userData.length) =
      some ((List.range parts).map fun i =>
        uihFrame dlci (piece 127 userData (j + i))) := by
  intro parts
  induction parts with
  | zero => intro j; rfl
  | succ parts ih =>
      intro j
      have hpiece : (userData.drop (min (127 * j) userData.length)).take 127 =
          piece 127 userData j := by
        rw [piece]
        rcases Nat.le_total (127 * j) userData.length with h | h
        · rw [Nat.min_eq_left h]
        · rw [Nat.min_eq_right h, List.drop_length, List.drop_of_length_le h]
      rw [requestLoop_succ (by omega), hpiece,
        show userData.length - min (127 * j) userData.length -
          min (userData.length - min (127 * j) userData.length) 127 =
            userData.length - min (127 * (j + 1)) userData.length by omega,
        show min (127 * j) userData.length +
          min (userData.length - min (127 * j) userData.length) 127 =
            min (127 * (j + 1)) userData.length by omega, ih, Option.map_some,
        List.range_succ_eq_map, List.map_cons, List.map_map, Nat.add_zero]
      refine congrArg (fun fs => some (_ :: fs)) (List.map_congr_left fun i _ => ?_)
      rw [Function.comp_apply, Nat.succ_eq_add_one, Nat.add_comm i, Nat.add_assoc]

/-- The loop cannot send more than its counter says is left. -/
theorem requestLoop_length : ∀ {parts i : Nat} {dataLeft : Int} {frames : List Frame},
    requestLoop dlci userData parts dataLeft i = some frames →
    frames ≠ [] → ((frames.map Frame.data).flatten.length : Int) ≤ dataLeft := by
  intro parts
  induction parts with
  | zero =>
      intro i dataLeft frames h hne
      exact absurd (Option.some.inj h).symm hne
  | succ parts ih =>
      intro i dataLeft frames h _
      rw [requestLoop] at h
      obtain ⟨step, hstep⟩ : ∃ step, step = if dataLeft ≤ (maximumFrameLength : Nat)
        then dataLeft else (maximumFrameLength : Nat) := ⟨_, rfl⟩
      rw [← hstep] at h
      have hle : step ≤ dataLeft := by
        rw [hstep]
        split
        · exact Int.le_refl _
        · omega
      split at h
      · next hin =>
          obtain ⟨rest, hrest, rfl⟩ := Option.map_eq_some_iff.1 h
          have hdata : (uihFrame dlci ((userData.drop i).take step.toNat)).data.length ≤
              step.toNat := List.length_take_le _ _
          have htail : ((rest.map Frame.data).flatten.length : Int) ≤
              dataLeft - step := by
            by_cases hnil : rest = []
            · rw [hnil]
              exact Int.sub_nonneg_of_le hle
            · exact ih hrest hnil
          rw [List.map_cons, List.flatten_cons, List.length_append]
          omega
      · exact absurd h (by simp)

/-! ## When the split is exact -/

/-- Vectors that an `int` can count are sent in one frame more than whole ones. -/
theorem requestFrames_eq (hlong : 127 < userData.length)
    (hint : userData.length < 2 ^ 31) :
    requestFrames dlci userData =
      some ((List.range (userData.length / 127 + 1)).map fun i =>
        uihFrame dlci (piece 127 userData i)) := by
  have hloop := @requestLoop_eq dlci userData (userData.length / 127 + 1) 0
  have hparts : (userData.length / 127 + 1) % 2 ^ 32 = userData.length / 127 + 1 :=
    Nat.mod_eq_of_lt (by omega)
  have hleft : Int.bmod userData.length (2 ^ 32) = ((userData.length - 0 : Nat) : Int) :=
    Int.bmod_eq_of_le (by omega) (by omega)
  simp only [Nat.mul_zero, Nat.zero_min, Nat.zero_add] at hloop
  rw [requestFrames, if_neg (by change ¬ _ ≤ 127; omega)]
  change requestLoop dlci userData ((userData.length / 127 + 1) % 2 ^ 32) _ 0 = _
  rw [hparts, hleft, hloop]

/-- Longer ones lose their end. -/
theorem requestFrames_lost {frames : List Frame} (hint : 2 ^ 31 ≤ userData.length)
    (h : requestFrames dlci userData = some frames) :
    (frames.map Frame.data).flatten ≠ userData := by
  have hlt : Int.bmod userData.length (2 ^ 32) < 2 ^ 31 :=
    Int.bmod_lt (by omega)
  rw [requestFrames, if_neg (by change ¬ _ ≤ 127; omega)] at h
  intro hflatten
  by_cases hnil : frames = []
  · rw [hnil] at hflatten
    have := congrArg List.length hflatten.symm
    rw [List.map_nil, List.flatten_nil, List.length_nil] at this
    omega
  · have hle := requestLoop_length h hnil
    rw [hflatten] at hle
    omega

theorem map_data_pieces {m : Nat} :
    ((List.range m).map fun i => uihFrame dlci (piece 127 userData i)).map Frame.data =
      (List.range m).map (piece 127 userData) := by
  rw [List.map_map]
  rfl

/-- The user data is split exactly unless a whole number of frames, more than one,
holds it: then an empty frame follows. -/
theorem splitsExactly_iff :
    SplitsExactly dlci userData ↔ userData ≠ [] ∧
      (userData.length ≤ 127 ∨
        userData.length < 2 ^ 31 ∧ ¬ 127 ∣ userData.length) := by
  by_cases hshort : userData.length ≤ 127
  · have hframes : requestFrames dlci userData = some [uihFrame dlci userData] :=
      if_pos hshort
    refine ⟨?_, fun ⟨hne, _⟩ => ?_⟩
    · intro ⟨frames, hframes', _, hdata, _⟩
      rw [hframes] at hframes'
      have hone : uihFrame dlci userData ∈ frames := by
        rw [← Option.some.inj hframes']
        exact List.mem_singleton_self _
      exact ⟨(hdata _ hone).1, .inl hshort⟩
    · have hpos := List.length_pos_of_ne_nil hne
      refine ⟨_, hframes, request_eq hframes, ?_, List.append_nil _, ?_⟩
      · intro f hf
        rw [List.mem_singleton.1 hf]
        exact ⟨hne, hshort⟩
      · rw [List.length_singleton]
        omega
  · have hne : userData ≠ [] := by
      rintro rfl
      exact hshort (Nat.zero_le 127)
    refine ⟨?_, fun ⟨_, h⟩ => ?_⟩
    · intro ⟨frames, hframes, _, _, hflatten, hlen⟩
      have hint : userData.length < 2 ^ 31 := Nat.lt_of_not_le fun hle =>
        requestFrames_lost hle hframes hflatten
      refine ⟨hne, .inr ⟨hint, ?_⟩⟩
      intro ⟨k, hk⟩
      rw [requestFrames_eq (by omega) hint] at hframes
      rw [← Option.some.inj hframes, List.length_map, List.length_range] at hlen
      omega
    · obtain ⟨hint, hdvd⟩ := h.resolve_left hshort
      have hframes := @requestFrames_eq dlci userData (by omega) hint
      refine ⟨_, hframes, request_eq hframes, ?_, ?_, ?_⟩
      · intro f hf
        obtain ⟨i, hi, rfl⟩ := List.mem_map.1 hf
        have hi := List.mem_range.1 hi
        have hlen := @length_piece _ 127 i userData
        refine ⟨List.ne_nil_of_length_pos ?_, ?_⟩
        · change 0 < (piece 127 userData i).length
          omega
        · change (piece 127 userData i).length ≤ 127
          omega
      · rw [map_data_pieces, flatten_pieces (by omega)]
      · rw [List.length_map, List.length_range]
        omega

/-- Two whole frames and an empty third. -/
theorem empty_last_frame : ¬ SplitsExactly 1 (List.replicate 254 0x41) := by
  intro ⟨frames, hframes, _, _, _, hlen⟩
  have hlength : (List.replicate 254 (0x41 : UInt8)).length = 254 :=
    List.length_replicate
  rw [requestFrames_eq (by omega) (by omega)] at hframes
  rw [← Option.some.inj hframes, List.length_map, List.length_range, hlength] at hlen
  omega

end MuditaOS.Cellular
