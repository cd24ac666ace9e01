import Mathlib
import MuditaOS.Cellular.Mux
import MuditaOS.Proofs.MuxWire

/-!
# The frame stream does not see the chunks

`parseCellularResultCMUX` keeps its state between chunks and treats one
character at a time, so cutting the stream differently changes nothing but the
result codes the frames are handed over with. What needs an argument is that
the cut *between frames* is found: the flag byte is not escaped, so the loop
asks `isComplete` at every flag byte of the frame, and the answer has to be no
until the last. It is, because `isComplete` trusts the length field, and every
proper prefix is shorter than what the field announces.
-/

namespace MuditaOS.Cellular

/-- The received part of the array. -/
def CellularDMAResultStruct.bytes (result : CellularDMAResultStruct) :
    List UInt8 :=
  result.data.toList.take result.dataSize

/-- A run of the receiver over consecutive chunks. -/
def MuxRx.parseChunks : MuxRx → List CellularDMAResultStruct → Option MuxRx
  | st, [] => some st
  | st, c :: cs => (st.parseCellularResultCMUX c).bind fun st' => parseChunks st' cs

/-- One character, with the result code of the chunk it came in. -/
def MuxRx.step (st : MuxRx) (x : CellularResultCode × UInt8) : MuxRx :=
  st.parseCharacter x.1 x.2

/-! ## `isComplete` on prefixes of a frame -/

theorem isComplete_short {a c : UInt8} {rest : List UInt8} {n : Nat}
    (hn : n ≤ 127)
    (hlast : (ts0710Flag :: a :: c :: UInt8.ofNat (2 * n + 1) :: rest).getLast? =
      some ts0710Flag) :
    isComplete (ts0710Flag :: a :: c :: UInt8.ofNat (2 * n + 1) :: rest) =
      decide (6 + n ≤ rest.length + 4) := by
  obtain ⟨hodd, hval⟩ := shortByte hn
  simp only [isComplete, hlast, ne_eq, not_true_eq_false, or_self, if_false]
  rw [if_pos hodd, hval]
  rfl

theorem isComplete_long {a c : UInt8} {rest : List UInt8} {n : Nat}
    (hn : n ≤ 32767)
    (hlast : (ts0710Flag :: a :: c :: UInt8.ofNat (2 * n) ::
      UInt8.ofNat (n / 128) :: rest).getLast? = some ts0710Flag) :
    isComplete (ts0710Flag :: a :: c :: UInt8.ofNat (2 * n) ::
      UInt8.ofNat (n / 128) :: rest) = decide (7 + n ≤ rest.length + 5) := by
  obtain ⟨heven, hval⟩ := longByte n
  have hhigh : (UInt8.ofNat (n / 128)).toNat = n / 128 := by
    simp
    omega
  simp only [isComplete, hlast, ne_eq, not_true_eq_false, or_self, if_false]
  rw [if_neg heven, hval, hhigh, Nat.shiftLeft_eq, decide_eq_decide]
  simp only [ts0710FrameHdrLen, List.length_cons]
  omega

/-- Among its own prefixes that end in a flag, a frame is complete only as a
whole. -/
theorem isComplete_prefix {f : Frame} (hn : f.data.length ≤ 32767)
    {p t : List UInt8} (hp : p ++ t = f.wire)
    (hlast : p.getLast? = some ts0710Flag) :
    isComplete p = decide (t = []) := by
  have hle : p.length ≤ f.wire.length := by
    rw [← hp, List.length_append]
    omega
  have hfull : t = [] ↔ p.length = f.wire.length := by
    rw [← hp, List.length_append, ← List.length_eq_zero_iff]
    omega
  rcases Nat.lt_or_ge 127 f.data.length with hlong | hshort
  · have hwire : f.wire = ts0710Flag :: (f.address ||| 0x01) :: f.control ::
        UInt8.ofNat (2 * f.data.length) ::
        UInt8.ofNat (f.data.length / 128) ::
        (f.data ++ [f.fcs] ++ [ts0710Flag]) := by
      simp [Frame.wire, Frame.body, Frame.header, lengthField_long hlong hn]
    have hlen : f.wire.length = f.data.length + 7 := by rw [hwire]; simp
    rw [hwire] at hp
    rcases p with _ | ⟨x0, _ | ⟨x1, _ | ⟨x2, _ | ⟨x3, _ | ⟨x4, rest⟩⟩⟩⟩⟩
    iterate 4
      · rw [decide_eq_false (by rw [hfull, hlen]; simp)]
        rfl
    · -- the low length byte is even, and the high one is not yet there
      simp only [List.cons_append, List.cons.injEq] at hp
      obtain ⟨rfl, rfl, rfl, rfl, -⟩ := hp
      rw [decide_eq_false (by rw [hfull, hlen]; simp), isComplete,
        if_neg (longByte f.data.length).1, ite_self]
    · simp only [List.cons_append, List.cons.injEq] at hp
      obtain ⟨rfl, rfl, rfl, rfl, rfl, -⟩ := hp
      rw [isComplete_long hn hlast, decide_eq_decide, hfull, hlen]
      simp only [List.length_cons] at hle ⊢
      omega
  · have hwire : f.wire = ts0710Flag :: (f.address ||| 0x01) :: f.control ::
        UInt8.ofNat (2 * f.data.length + 1) ::
        (f.data ++ [f.fcs] ++ [ts0710Flag]) := by
      simp [Frame.wire, Frame.body, Frame.header, lengthField_short hshort]
    have hlen : f.wire.length = f.data.length + 6 := by rw [hwire]; simp
    rw [hwire] at hp
    rcases p with _ | ⟨x0, _ | ⟨x1, _ | ⟨x2, _ | ⟨x3, rest⟩⟩⟩⟩
    iterate 4
      · rw [decide_eq_false (by rw [hfull, hlen]; simp)]
        rfl
    · simp only [List.cons_append, List.cons.injEq] at hp
      obtain ⟨rfl, rfl, rfl, rfl, -⟩ := hp
      rw [isComplete_short hshort hlast, decide_eq_decide, hfull, hlen]
      simp only [List.length_cons] at hle ⊢
      omega

/-! ## One frame, character by character -/

theorem parseCharacter_inside {f : Frame} (hn : f.data.length ≤ 32767)
    (haddr : f.address ||| 0x01 ≠ ts0710Flag) {q t : List UInt8} {b : UInt8}
    (hq : q ≠ []) (hp : q ++ b :: t = f.wire) {code : CellularResultCode}
    {handed : List CellularResultStruct} :
    (MuxRx.mk q true handed).parseCharacter code b =
      if t = [] then ⟨[], false, handed ++ [⟨code, f.wire⟩]⟩
      else ⟨q ++ [b], true, handed⟩ := by
  have hsplit : (q ++ [b]) ++ t = f.wire := by simpa using hp
  by_cases hb : b = ts0710Flag
  · have hsize : (q ++ [b]).length ≠ 2 := by
      intro htwo
      match q, hq with
      | [x], _ =>
          rw [Frame.wire, Frame.body, Frame.header] at hp
          simp only [List.cons_append, List.nil_append, List.cons.injEq] at hp
          exact haddr (hp.2.1 ▸ hb)
      | _ :: _ :: _, _ => simp at htwo
    have hcomplete := isComplete_prefix hn hsplit (by rw [hb]; simp)
    simp only [MuxRx.parseCharacter, Bool.true_or, if_true, Bool.true_and,
      if_neg hsize, hcomplete]
    by_cases ht : t = []
    · have hall : q ++ [b] = f.wire := by rw [← hsplit, ht, List.append_nil]
      simp [ht, hb, ← hall]
    · simp [ht, hb]
  · have ht : t ≠ [] := by
      rintro rfl
      have := congrArg List.getLast? hp
      rw [Frame.wire, ← List.cons_append] at this
      simp only [List.getLast?_concat, Option.some.injEq] at this
      exact hb this
    simp [MuxRx.parseCharacter, hb, ht]

/-- The rest of a frame whose first characters are already collected. -/
theorem foldl_inside {f : Frame} (hn : f.data.length ≤ 32767)
    (haddr : f.address ||| 0x01 ≠ ts0710Flag)
    {handed : List CellularResultStruct} :
    ∀ {ys : List (CellularResultCode × UInt8)} {q : List UInt8}, q ≠ [] →
      ys ≠ [] → q ++ ys.map Prod.snd = f.wire →
      ∃ code, ys.foldl MuxRx.step ⟨q, true, handed⟩ =
        ⟨[], false, handed ++ [⟨code, f.wire⟩]⟩ := by
  intro ys
  induction ys with
  | nil => intro q _ hne; exact absurd rfl hne
  | cons y ys ih =>
      intro q hq _ hp
      rw [List.map_cons] at hp
      rw [List.foldl_cons, MuxRx.step, parseCharacter_inside hn haddr hq hp]
      by_cases ht : ys = []
      · exact ⟨y.1, by simp [ht]⟩
      · rw [if_neg (by simpa using ht)]
        exact ih (by simp) ht (by simpa using hp)

theorem foldl_frame {f : Frame} (hn : f.data.length ≤ 32767)
    (haddr : f.address ||| 0x01 ≠ ts0710Flag)
    {xs : List (CellularResultCode × UInt8)} (hxs : xs.map Prod.snd = f.wire)
    (handed : List CellularResultStruct) :
    ∃ code, xs.foldl MuxRx.step ⟨[], false, handed⟩ =
      ⟨[], false, handed ++ [⟨code, f.wire⟩]⟩ := by
  match xs, hxs with
  | x :: ys, hxs =>
      rw [List.map_cons, Frame.wire, List.cons.injEq] at hxs
      have hstart : MuxRx.step ⟨[], false, handed⟩ x =
          ⟨[ts0710Flag], true, handed⟩ := by
        simp [MuxRx.step, MuxRx.parseCharacter, hxs.1]
      rw [List.foldl_cons, hstart]
      refine foldl_inside hn haddr (by simp) ?_ (by rw [hxs.2]; rfl)
      rintro rfl
      simp at hxs

/-! ## The whole stream -/

theorem foldl_frames : ∀ {frames : List Frame}
    {xs : List (CellularResultCode × UInt8)}
    (handed : List CellularResultStruct),
    (∀ f ∈ frames, f.data.length ≤ 32767) →
    (∀ f ∈ frames, f.address ||| 0x01 ≠ ts0710Flag) →
    xs.map Prod.snd = (frames.map Frame.wire).flatten →
    ∃ results, xs.foldl MuxRx.step ⟨[], false, handed⟩ =
        ⟨[], false, handed ++ results⟩ ∧
      results.map CellularResultStruct.data = frames.map Frame.wire := by
  intro frames
  induction frames with
  | nil =>
      intro xs handed _ _ hxs
      have hnil : xs = [] := by simpa using hxs
      exact ⟨[], by simp [hnil], rfl⟩
  | cons f frames ih =>
      intro xs handed hn haddr hxs
      rw [List.map_cons, List.flatten_cons] at hxs
      obtain ⟨ys, zs, rfl, hys, hzs⟩ := List.map_eq_append_iff.1 hxs
      obtain ⟨code, hf⟩ := foldl_frame (hn f List.mem_cons_self)
        (haddr f List.mem_cons_self) hys handed
      obtain ⟨results, hrest, hdata⟩ :=
        ih (handed ++ [⟨code, f.wire⟩])
          (fun g hg => hn g (List.mem_cons_of_mem f hg))
          (fun g hg => haddr g (List.mem_cons_of_mem f hg)) hzs
      refine ⟨⟨code, f.wire⟩ :: results, ?_, by rw [List.map_cons, hdata]; rfl⟩
      rw [List.foldl_append, hf, hrest, List.append_assoc]
      rfl

/-- Before the first flag nothing is collected. -/
theorem foldl_junk : ∀ {xs : List (CellularResultCode × UInt8)}
    {handed : List CellularResultStruct}, ts0710Flag ∉ xs.map Prod.snd →
    xs.foldl MuxRx.step ⟨[], false, handed⟩ = ⟨[], false, handed⟩ := by
  intro xs
  induction xs with
  | nil => intro handed _; rfl
  | cons x xs ih =>
      intro handed h
      rw [List.map_cons, List.mem_cons, not_or] at h
      have hskip : MuxRx.step ⟨[], false, handed⟩ x = ⟨[], false, handed⟩ := by
        simp [MuxRx.step, MuxRx.parseCharacter, Ne.symm h.1]
      rw [List.foldl_cons, hskip, ih h.2]

/-! ## Chunks are loops over their bytes -/

theorem parseLoop_eq {result : CellularDMAResultStruct} :
    ∀ {n i : Nat} {st : MuxRx},
      i + n ≤ cellularResultStructMaxDataSize →
      MuxRx.parseLoop result n i st =
        some (((result.data.toList.drop i).take n).foldl
          (fun st b => st.parseCharacter result.resultCode b) st) := by
  intro n
  induction n with
  | zero => intro i st _; simp [MuxRx.parseLoop]
  | succ n ih =>
      intro i st h
      have hi : i < cellularResultStructMaxDataSize := by omega
      have hlen : i < result.data.toList.length := by simpa using hi
      rw [MuxRx.parseLoop, Vector.getElem?_eq_getElem hi, Option.bind_some,
        ih (by omega), List.drop_eq_getElem_cons hlen, List.take_succ_cons,
        List.foldl_cons, Vector.getElem_toList]

/-- The characters of a chunk, each with the chunk's result code. -/
def CellularDMAResultStruct.tagged (result : CellularDMAResultStruct) :
    List (CellularResultCode × UInt8) :=
  result.bytes.map fun b => (result.resultCode, b)

theorem parseChunks_eq : ∀ {chunks : List CellularDMAResultStruct} {st : MuxRx},
    (∀ c ∈ chunks, c.dataSize ≤ cellularResultStructMaxDataSize) →
    st.parseChunks chunks =
      some ((chunks.map CellularDMAResultStruct.tagged).flatten.foldl
        MuxRx.step st) := by
  intro chunks
  induction chunks with
  | nil => intro st _; rfl
  | cons c cs ih =>
      intro st h
      have hc := h c List.mem_cons_self
      rw [MuxRx.parseChunks, MuxRx.parseCellularResultCMUX,
        parseLoop_eq (by omega), Option.bind_some,
        ih (fun d hd => h d (List.mem_cons_of_mem c hd)), List.map_cons,
        List.flatten_cons, List.foldl_append,
        CellularDMAResultStruct.tagged, List.foldl_map]
      rfl

theorem map_snd_tagged (chunks : List CellularDMAResultStruct) :
    (chunks.map CellularDMAResultStruct.tagged).flatten.map Prod.snd =
      (chunks.map CellularDMAResultStruct.bytes).flatten := by
  rw [List.map_flatten, List.map_map]
  congr 1
  apply List.map_congr_left
  intro c _
  simp [CellularDMAResultStruct.tagged, Function.comp_def]

/-- However the stream of serialized frames is cut into chunks, the frames are
handed over one by one, and nothing is left pending. -/
theorem parseChunks_frames {frames : List Frame} {junk : List UInt8}
    {wires : List (List UInt8)} {chunks : List CellularDMAResultStruct}
    (hwires : frames.mapM Frame.serialize = some wires)
    (hsize : ∀ f ∈ frames, f.data.length ≤ 32767)
    (haddr : ∀ f ∈ frames, f.address ||| 0x01 ≠ ts0710Flag)
    (hjunk : ts0710Flag ∉ junk)
    (hchunks : ∀ c ∈ chunks, c.dataSize ≤ cellularResultStructMaxDataSize)
    (hcut : (chunks.map CellularDMAResultStruct.bytes).flatten =
      junk ++ wires.flatten) :
    ∃ st, MuxRx.parseChunks {} chunks = some st ∧
      st.handed.map CellularResultStruct.data = wires ∧
      st.currentFrame = [] ∧ st.frameStartDetected = false := by
  have hw : wires = frames.map Frame.wire := by
    have hall : Frame.serialize = fun f => some f.wire := funext serialize_eq
    rw [hall] at hwires
    have hmap := List.mapM_pure (m := Option) (l := frames) (f := Frame.wire)
    exact (Option.some.inj (hmap.symm.trans hwires)).symm
  have htag := (map_snd_tagged chunks).trans hcut
  rw [hw] at htag ⊢
  obtain ⟨xs, ys, hsplit, hxs, hys⟩ := List.map_eq_append_iff.1 htag
  obtain ⟨results, hrun, hdata⟩ := foldl_frames [] hsize haddr hys
  refine ⟨_, parseChunks_eq hchunks, ?_, ?_, ?_⟩ <;>
    rw [hsplit, List.foldl_append, foldl_junk (hxs ▸ hjunk), hrun]
  exact hdata

/-- A flag byte in the payload, a stray byte in front, and a cut between the
address and the control byte. -/
theorem parseChunks_frames_flag_payload :
    ∃ st, MuxRx.parseChunks {}
        [{ resultCode := .ReceivedAndFull
           dataSize := 3
           data := Vector.ofFn fun i => [0x00, 0xF9, 0x09].getD i.val 0 },
         { resultCode := .ReceivedAndIdle
           dataSize := 5
           data := Vector.ofFn fun i =>
             [0xEF, 0x03, 0xF9, 0x32, 0xF9].getD i.val 0 }] = some st ∧
      st.handed.map CellularResultStruct.data =
        [[0xF9, 0x09, 0xEF, 0x03, 0xF9, 0x32, 0xF9]] ∧
      st.currentFrame = [] ∧ st.frameStartDetected = false :=
  @parseChunks_frames [⟨.OK, 0x08, 0xEF, [0xF9]⟩] [0x00] _ _
    (by decide +kernel) (by decide) (by decide) (by decide) (by decide)
    (by decide +kernel)

end MuditaOS.Cellular
