import MuditaOS.Audio.ZeroCopy
import MuditaOS.Proofs.ZeroCopyFifo

/-!
# Copied blocks are peeked at in order

The reader of pushed blocks gets them in order, and no push overwrites what it peeks at. Only a
`pop` beside a peek gets a block a second time: it is refused because the peek position is not
the read position, which says nothing when all the blocks of the ring are peeked.
-/

namespace MuditaOS.Audio

open MuditaOS.Lib

/-! ## The property -/

namespace CopySession

/-- What was obtained, and what the peeked spans show, are the first of what was pushed. -/
def Prefix (s : CopySession) : Prop :=
  s.obtained ++ s.peeked.map s.stream.read <+: s.pushed

/-- A push writes nothing that is peeked, and is refused just when the ring is full. -/
def Pushes (s : CopySession) : CopyOp → Prop
  | .push data =>
      ((s.stream.push data).1 = true →
        ∀ span ∈ s.peeked, ¬ Overlap s.stream.dataEnd.deref span) ∧
      (data.length = s.stream.blockSize →
        ((s.stream.push data).1 = false ↔
          s.pushed.length = s.obtained.length + s.stream.blockCount))
  | _ => True

/-- What was peeked and let go is peeked again. -/
def Repeats (s : CopySession) : CopyOp → Prop
  | .peek => ∀ span ∈ s.again.head?, s.stream.peek.1 = true ∧ s.stream.peek.2.1 = span
  | _ => True

def Fifo (s : CopySession) (op : CopyOp) : Prop :=
  (s.step op).Prefix ∧ s.Pushes op ∧ s.Repeats op

/-- No `pop` when all that was pushed is peeked and the two positions are the same. -/
def Alone (s : CopySession) : CopyOp → Prop
  | .pop span => span.dataSize = s.stream.blockSize → 0 < s.stream.peekCount →
      s.stream.blockSize = 0 ∨ s.stream.peekCount = s.stream.blockCount →
      s.stream.peekCount < s.stream.blocksUsed
  | _ => True

instance {s : CopySession} : ∀ {op : CopyOp}, Decidable (Alone s op)
  | .pop _ => inferInstanceAs (Decidable (_ → _ → _ → _))
  | .push _ | .peek | .consume | .unpeek => inferInstanceAs (Decidable True)

end CopySession

theorem CopySession.step_pop {s : CopySession} {span : Span} :
    s.step (.pop span) =
      { s with
        stream := (s.stream.pop span).2.2.2
        obtained := s.obtained ++ (s.stream.pop span).1.toList
        again := if (s.stream.pop span).1.isSome then s.again.drop 1 else s.again } := rfl

/-! ## Blocks in the ring -/

/-- The spans of the blocks from `k` on. -/
def spans (size n k count : Nat) : List Span :=
  (List.range count).map fun j => (block size n (k + j)).deref

/-- What the blocks from `k` on show. -/
def blocks (size n : Nat) (buffer : List UInt8) (k count : Nat) : List (List UInt8) :=
  (List.range count).map fun j => slot size buffer ((k + j) % n)

section

variable {size n k i j : Nat} {buffer : List UInt8} {a u p r : Nat}

theorem spans_add : spans size n k (i + j) = spans size n k i ++ spans size n (k + i) j := by
  rw [spans, spans, spans, List.range_add, List.map_append, List.map_map]
  simp only [Function.comp_def, Nat.add_assoc]

theorem blocks_add :
    blocks size n buffer k (i + j) =
      blocks size n buffer k i ++ blocks size n buffer (k + i) j := by
  rw [blocks, blocks, blocks, List.range_add, List.map_append, List.map_map]
  simp only [Function.comp_def, Nat.add_assoc]

theorem length_blocks : (blocks size n buffer k i).length = i := by
  rw [blocks, List.length_map, List.length_range]

theorem spans_succ_front :
    spans size n k (i + 1) = (block size n k).deref :: spans size n (k + 1) i := by
  rw [Nat.add_comm, spans_add]
  rfl

theorem blocks_succ_front :
    blocks size n buffer k (i + 1) =
      slot size buffer (k % n) :: blocks size n buffer (k + 1) i := by
  rw [Nat.add_comm, blocks_add]
  rfl

theorem read_spans :
    (spans size n k i).map (ring size n buffer a u p r).read = blocks size n buffer k i := by
  rw [spans, blocks, List.map_map]
  rfl

/-- A block written behind the others leaves them as they are. -/
theorem blocks_patch {data : List UInt8} (hsize : data.length = size)
    (hlength : buffer.length = size * n) (h : i < n) :
    blocks size n (patch buffer ((k + i) % n * size) data) k (i + 1) =
      blocks size n buffer k i ++ [data] := by
  have hend := @slot_end_le size n ((k + i) % n) _ hlength (Nat.mod_lt _ (by omega))
  have hsame : blocks size n (patch buffer ((k + i) % n * size) data) k i =
      blocks size n buffer k i := by
    refine List.map_congr_left fun j hj => ?_
    have hj := List.mem_range.1 hj
    exact slot_patch_ne hsize hend (add_mod_ne hj (by omega))
  rw [blocks_add, hsame]
  refine congrArg _ ?_
  show [slot size (patch buffer ((k + i) % n * size) data) ((k + i) % n)] = [data]
  rw [slot_patch_same hsize hend]

end

/-! ## One step -/

/-- A session whose stream starts at block `a`, with `u` blocks used, `p` of them peeked and `q`
to come again. -/
structure Copying (size n a u p q : Nat) (buffer : List UInt8) (s : CopySession) : Prop where
  stream : s.stream = ring size n buffer a u p 0
  length : buffer.length = size * n
  used : u ≤ n
  ahead : p + q ≤ u
  pushed : s.pushed = s.obtained ++ blocks size n buffer a u
  peeked : s.peeked = spans size n a p
  again : s.again = spans size n (a + p) q

namespace Copying

variable {size n a u p q : Nat} {buffer : List UInt8} {s : CopySession}

theorem count (h : Copying size n a u p q buffer s) :
    s.pushed.length = s.obtained.length + u := by
  rw [h.pushed, List.length_append, length_blocks]

theorem inOrder (h : Copying size n a u p q buffer s) : s.Prefix := by
  obtain ⟨rest, hrest⟩ := Nat.exists_eq_add_of_le (Nat.le_of_add_right_le h.ahead)
  rw [CopySession.Prefix, h.peeked, h.stream, read_spans, h.pushed, hrest, blocks_add,
    ← List.append_assoc]
  exact List.prefix_append _ _

/-! ### Pushes -/

theorem push_taken (h : Copying size n a u p q buffer s) (hn : 0 < n) (hlt : n < 2 ^ 32)
    {data : List UInt8} (hsize : data.length = size) (hroom : u < n) :
    (s.stream.push data).1 = true ∧
      Copying size n a (u + 1) p q (patch buffer ((a + u) % n * size) data)
        (s.step (.push data)) := by
  obtain ⟨hok, hnext⟩ :=
    @push_ring size n buffer a u p 0 hn hlt data hsize (.inr (.inl rfl)) hroom (Nat.zero_le n)
  rw [← h.stream] at hok hnext
  have hend := @slot_end_le size n ((a + u) % n) _ h.length (Nat.mod_lt _ hn)
  rw [Nat.add_one_mul] at hend
  refine ⟨hok, hnext, ?_, hroom, Nat.le_succ_of_le h.ahead, ?_, h.peeked, h.again⟩
  · exact (length_patch (by rw [hsize]; exact hend)).trans h.length
  · show s.pushed ++ (if (s.stream.push data).1 then [data] else []) = _
    rw [hok, if_pos rfl, blocks_patch hsize h.length hroom, h.pushed, List.append_assoc]
    rfl

theorem push_refused (h : Copying size n a u p q buffer s) {data : List UInt8}
    (hno : data.length ≠ size ∨ u = n) :
    (s.stream.push data).1 = false ∧ Copying size n a u p q buffer (s.step (.push data)) := by
  obtain ⟨hok, hnext⟩ := @push_ring_false size n buffer a u p 0 data (Nat.zero_le n)
    (hno.imp_right .inr)
  rw [← h.stream] at hok hnext
  refine ⟨hok, hnext.trans h.stream, h.length, h.used, h.ahead, ?_, h.peeked, h.again⟩
  show s.pushed ++ (if (s.stream.push data).1 then [data] else []) = _
  rw [hok, if_neg Bool.false_ne_true, List.append_nil]
  exact h.pushed

theorem push (h : Copying size n a u p q buffer s) (hn : 0 < n) (hlt : n < 2 ^ 32)
    {data : List UInt8} :
    s.Pushes (.push data) ∧
      ∃ u buffer, Copying size n a u p q buffer (s.step (.push data)) := by
  have hsizeEq : s.stream.blockSize = size := by rw [h.stream]; rfl
  have hcountEq : s.stream.blockCount = n := by rw [h.stream]; rfl
  have hfull : s.pushed.length = s.obtained.length + n ↔ u = n := by
    rw [h.count]
    omega
  rw [CopySession.Pushes, hsizeEq, hcountEq, hfull]
  by_cases htaken : data.length = size ∧ u < n
  · obtain ⟨hok, hnext⟩ := h.push_taken hn hlt htaken.1 htaken.2
    refine ⟨⟨fun _ span hspan => ?_, fun _ => ?_⟩, _, _, hnext⟩
    · rw [h.peeked] at hspan
      obtain ⟨j, hj, rfl⟩ := List.mem_map.1 hspan
      have hj := List.mem_range.1 hj
      have hahead := h.ahead
      rw [h.stream]
      exact not_overlap_block (add_mod_ne (by omega) (by omega)).symm
    · rw [hok]
      exact iff_of_false Bool.noConfusion (Nat.ne_of_lt htaken.2)
  · have hno : data.length ≠ size ∨ u = n := by
      have hle := h.used
      rcases not_and_or.1 htaken with hsize | hroom
      · exact .inl hsize
      · exact .inr (by omega)
    obtain ⟨hok, hnext⟩ := h.push_refused hno
    refine ⟨⟨fun htrue => ?_, fun hsize => ?_⟩, _, _, hnext⟩
    · rw [hok] at htrue
      cases htrue
    · exact iff_of_true hok (hno.resolve_left (not_not_intro hsize))

/-! ### Peeks -/

theorem peek (h : Copying size n a u p q buffer s) (hn : 0 < n) (hlt : n < 2 ^ 32) :
    s.Repeats .peek ∧ ∃ p q, Copying size n a u p q buffer (s.step .peek) := by
  have hused := h.used
  have hahead := h.ahead
  by_cases hmore : p < u
  · have hpeek := @peek_ring size n buffer a u p 0 hn (by omega) hmore
    rw [← h.stream] at hpeek
    have hstep : s.step .peek =
        { s with
          stream := ring size n buffer a u (p + 1) 0
          peeked := s.peeked ++ [(block size n (a + p)).deref]
          again := s.again.drop 1 } := by
      rw [CopySession.step, hpeek]
      rfl
    have hpeeked : s.peeked ++ [(block size n (a + p)).deref] = spans size n a (p + 1) := by
      rw [h.peeked, spans_add]
      rfl
    rw [hstep]
    cases q with
    | zero =>
        have hnone : s.again = [] := h.again
        refine ⟨fun span hspan => ?_, p + 1, 0, rfl, h.length, hused, hmore, h.pushed, hpeeked,
          ?_⟩
        · rw [hnone] at hspan
          cases hspan
        · show s.again.drop 1 = []
          rw [hnone]
          rfl
    | succ q =>
        have hsome : s.again =
            (block size n (a + p)).deref :: spans size n (a + (p + 1)) q :=
          h.again.trans spans_succ_front
        refine ⟨fun span hspan => ?_, p + 1, q, rfl, h.length, hused, by omega, h.pushed,
          hpeeked, ?_⟩
        · rw [hsome] at hspan
          rw [hpeek]
          exact ⟨rfl, Option.some_inj.1 hspan⟩
        · show s.again.drop 1 = _
          rw [hsome]
          rfl
  · have hpeek := @peek_ring_none size n buffer a u p 0 (by omega)
    rw [← h.stream] at hpeek
    have hzero : q = 0 := by omega
    subst hzero
    have hnone : s.again = [] := h.again
    have hstep : s.step .peek = s := by
      rw [CopySession.step, hpeek]
      show { s with peeked := s.peeked ++ [] } = s
      rw [List.append_nil]
    rw [hstep]
    refine ⟨fun span hspan => ?_, p, 0, h⟩
    rw [hnone] at hspan
    cases hspan

theorem consume (h : Copying size n a u p q buffer s) :
    Copying size n (a + p) (u - p) 0 q buffer (s.step .consume) := by
  have hahead := h.ahead
  have hused := h.used
  obtain ⟨rest, rfl⟩ := Nat.exists_eq_add_of_le (show p ≤ u by omega)
  refine ⟨?_, h.length, by omega, by omega, ?_, rfl, h.again⟩
  · rw [CopySession.step, h.stream]
    exact consume_ring (Nat.le_add_right p rest)
  · show s.pushed = (s.obtained ++ s.peeked.map s.stream.read) ++ _
    rw [h.peeked, h.stream, read_spans, Nat.add_sub_cancel_left, List.append_assoc,
      ← blocks_add]
    exact h.pushed

theorem unpeek (h : Copying size n a u p q buffer s) :
    Copying size n a u 0 (p + q) buffer (s.step .unpeek) := by
  refine ⟨?_, h.length, h.used, by rw [Nat.zero_add]; exact h.ahead, h.pushed, rfl, ?_⟩
  · rw [CopySession.step, h.stream]
    exact unpeek_ring
  · show s.peeked ++ s.again = _
    rw [h.peeked, h.again, Nat.add_zero, spans_add]

/-! ### Pops -/

theorem pop_refused (h : Copying size n a u p q buffer s) {span : Span}
    (hno : span.dataSize ≠ size ∨ ¬ (size = 0 ∨ p = 0 ∨ p = n) ∨ u = 0) :
    s.step (.pop span) = s := by
  have hahead := h.ahead
  have hused := h.used
  obtain ⟨hdata, hnext⟩ := @pop_ring_none size n buffer a u p 0 span (by omega) hno
  rw [← h.stream] at hdata hnext
  rw [CopySession.step_pop, hdata, hnext]
  show { s with obtained := s.obtained ++ [] } = s
  rw [List.append_nil]

theorem step_pop_taken (h : Copying size n a u p q buffer s) (hn : 0 < n) {span : Span}
    (hsize : span.dataSize = size) (hp : size = 0 ∨ p = 0 ∨ p = n) (hused : 0 < u) :
    s.step (.pop span) =
      { s with
        stream :=
          { ring size n buffer (a + 1) (u - 1) p 0 with
            peekPosition := block size n (a + 1) }
        obtained := s.obtained ++ [slot size buffer (a % n)]
        again := s.again.drop 1 } := by
  have hahead := h.ahead
  have hle := h.used
  obtain ⟨hdata, hnext⟩ := @pop_ring size n buffer a u p 0 hn span hsize hp hused (by omega)
  rw [← h.stream] at hdata hnext
  rw [CopySession.step_pop, hdata, hnext]
  rfl

/-- A block popped while nothing is peeked, or while the blocks have no bytes and there is one
that is not peeked. -/
theorem pop_taken (h : Copying size n a u p q buffer s) (hn : 0 < n) {span : Span}
    (hsize : span.dataSize = size) (hused : 0 < u) (hp : p = 0 ∨ size = 0 ∧ p < u) :
    ∃ q, Copying size n (a + 1) (u - 1) p q buffer (s.step (.pop span)) := by
  have hahead := h.ahead
  have hle := h.used
  obtain ⟨rest, rfl⟩ := Nat.exists_eq_add_of_le hused
  rw [h.step_pop_taken hn hsize (by omega) hused]
  have hsame : ∀ i j, size = 0 → (block size n i).deref = (block size n j).deref := by
    intro i j hzero
    simp [block, RawBlockIterator.deref, hzero]
  have hposition : block size n (a + 1) = block size n (a + 1 + p) := by
    rcases hp with rfl | ⟨hzero, _⟩
    · rfl
    · simp [block, hzero]
  have hpushed : s.pushed = s.obtained ++ [slot size buffer (a % n)] ++
      blocks size n buffer (a + 1) (1 + rest - 1) := by
    rw [h.pushed, Nat.add_comm 1 rest, blocks_succ_front, List.append_assoc]
    rfl
  have hpeeked : s.peeked = spans size n (a + 1) p := by
    rw [h.peeked]
    rcases hp with rfl | ⟨hzero, _⟩
    · rfl
    · exact List.map_congr_left fun j _ => hsame _ _ hzero
  have hagain : s.again.drop 1 = spans size n (a + 1 + p) (q - 1) := by
    cases q with
    | zero =>
        rw [h.again]
        rfl
    | succ q =>
        rw [h.again, spans_succ_front, Nat.add_right_comm]
        rfl
  refine ⟨q - 1, ?_, h.length, by omega, by omega, hpushed, hpeeked, hagain⟩
  show { ring size n buffer (a + 1) (1 + rest - 1) p 0 with
    peekPosition := block size n (a + 1) } = _
  rw [hposition]
  rfl

/-- A `pop` when all that was pushed is peeked obtains what the peek shows. -/
theorem pop_twice (h : Copying size n a u p q buffer s) (hn : 0 < n) {span : Span}
    (hsize : span.dataSize = size) (hp : size = 0 ∨ p = n) (hpos : 0 < p) (hall : u ≤ p) :
    ¬ (s.step (.pop span)).Prefix := by
  have hahead := h.ahead
  rw [h.step_pop_taken hn hsize (hp.imp_right .inr) (by omega)]
  intro hprefix
  have hlength := hprefix.length_le
  have hcount := h.count
  simp only [List.length_append, List.length_map, List.length_singleton] at hlength
  rw [h.peeked, spans, List.length_map, List.length_range] at hlength
  omega

theorem pop (h : Copying size n a u p q buffer s) (hn : 0 < n) {span : Span} :
    ((s.step (.pop span)).Prefix ↔ s.Alone (.pop span)) ∧
      (s.Alone (.pop span) →
        ∃ a u p q, Copying size n a u p q buffer (s.step (.pop span))) := by
  have hahead := h.ahead
  have hused := h.used
  have halone : s.Alone (.pop span) ↔
      (span.dataSize = size → 0 < p → size = 0 ∨ p = n → p < u) := by
    rw [CopySession.Alone, h.stream]
    rfl
  rw [halone]
  by_cases hno : span.dataSize ≠ size ∨ ¬ (size = 0 ∨ p = 0 ∨ p = n) ∨ u = 0
  · rw [h.pop_refused hno]
    refine ⟨iff_of_true h.inOrder fun hsize hpos hp => ?_, fun _ => ⟨_, _, _, _, h⟩⟩
    rcases hno with hsize' | hbusy | hzero
    · exact absurd hsize hsize'
    · exact absurd (hp.imp_right .inr) hbusy
    · omega
  · obtain ⟨hsize, hp, hpos⟩ : span.dataSize = size ∧ (size = 0 ∨ p = 0 ∨ p = n) ∧ 0 < u := by
      obtain ⟨hsize, hrest⟩ := not_or.1 hno
      obtain ⟨hp, hzero⟩ := not_or.1 hrest
      exact ⟨not_not.1 hsize, not_not.1 hp, Nat.pos_of_ne_zero hzero⟩
    by_cases htwice : 0 < p ∧ u ≤ p
    · have hpositions : size = 0 ∨ p = n := by omega
      have hnot : ¬ (span.dataSize = size → 0 < p → size = 0 ∨ p = n → p < u) := fun hrule =>
        absurd (hrule hsize htwice.1 hpositions) (by omega)
      exact ⟨iff_of_false (h.pop_twice hn hsize hpositions htwice.1 htwice.2) hnot,
        fun hrule => absurd hrule hnot⟩
    · obtain ⟨q, hnext⟩ := h.pop_taken hn hsize hpos (show p = 0 ∨ size = 0 ∧ p < u by omega)
      refine ⟨iff_of_true hnext.inOrder fun _ _ _ => ?_, fun _ => ⟨_, _, _, _, hnext⟩⟩
      omega

end Copying

/-! ## Every run -/

end MuditaOS.Audio
