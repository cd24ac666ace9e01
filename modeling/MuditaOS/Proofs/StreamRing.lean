import Mathlib.Algebra.Order.Ring.Nat
import Mathlib.Logic.Function.Iterate
import MuditaOS.Audio.Stream
import MuditaOS.Lib.Ring
import MuditaOS.Lib.Run

/-!
# The bookkeeping of the audio stream

As long as the books are right, a stream is determined by the block it starts
at, its three counters and its memory: the four positions follow. `ring` is that
stream, and one lemma an operation says what it does to the counters. Three
calls leave this shape. A `pop` or a `push` asks whether a peek or a reservation
is in progress by comparing two positions, which are also equal when the whole
ring is peeked or reserved; and a `reserve` that finds no room throws the data
away without the count of what was peeked of it.
-/

namespace MuditaOS.Audio

open MuditaOS.Lib

/-! ## Positions -/

/-- The position of block `k`, counted on past the end of the ring. -/
def block (size n k : Nat) : RawBlockIterator where
  bufEnd := size * n
  curPos := k % n * size
  stepSize := size

@[simp] theorem bufferStart_eq {size n : Nat} :
    Stream.bufferStart size n = block size n 0 := by
  rw [Stream.bufferStart, block, Nat.zero_mod, Nat.zero_mul]

@[simp] theorem next_block {size n k : Nat} (hn : 0 < n) :
    (block size n k).next = block size n (k + 1) := by
  have hlt := Nat.mod_lt k hn
  have hstep : (k + 1) % n = (k % n + 1) % n := (Nat.mod_add_mod k n 1).symm
  have hsum : k % n * size + size = (k % n + 1) * size := (Nat.add_one_mul _ _).symm
  rw [RawBlockIterator.next, block, block, hstep]
  simp only []
  rw [hsum]
  rcases Nat.eq_or_lt_of_le (show k % n + 1 ≤ n from hlt) with hend | hin
  · rw [if_pos (by rw [hend, Nat.mul_comm]), hend, Nat.mod_self, Nat.zero_mul]
  · rw [Nat.mod_eq_of_lt hin]
    split
    · next hwrap =>
        -- only blocks without bytes are at the end before the last one
        have hzero : size = 0 := by
          rw [Nat.mul_comm size n] at hwrap
          by_contra hne
          exact absurd (Nat.eq_of_mul_eq_mul_right (Nat.pos_of_ne_zero hne) hwrap)
            (Nat.ne_of_lt hin)
        rw [hzero, Nat.mul_zero]
    · rfl

theorem iterate_next_block {size n k : Nat} (hn : 0 < n) : ∀ {j : Nat},
    RawBlockIterator.next^[j] (block size n k) = block size n (k + j) := by
  intro j
  induction j with
  | zero => rfl
  | succ j ih => rw [Function.iterate_succ_apply', ih, next_block hn, Nat.add_assoc]

theorem equal_block {size n j k : Nat} :
    (block size n j).equal (block size n k) = true ↔ size = 0 ∨ j % n = k % n := by
  rw [RawBlockIterator.equal, beq_iff_eq, block, block]
  exact mul_eq_mul_right_iff.trans or_comm

theorem equal_block_add {size n j k : Nat} (h : j ≤ n) :
    (block size n k).equal (block size n (k + j)) = true ↔
      size = 0 ∨ j = 0 ∨ j = n := by
  rw [equal_block, eq_comm, @eq_comm _ (k % n), add_mod_eq_self h, eq_comm]

/-! ## A stream with its books in order -/

/-- The stream that starts at block `a`, `u` blocks used, `p` of them peeked, and
`r` reserved behind them. -/
def ring (size n : Nat) (buffer : List UInt8) (a u p r : Nat) : Stream where
  blockSize := size
  blockCount := n
  blocksUsed := u
  peekCount := p
  reserveCount := r
  buffer := buffer
  emptyBuffer := List.replicate size 0
  dataStart := block size n a
  dataEnd := block size n (a + u)
  peekPosition := block size n (a + p)
  writeReservationPosition := block size n (a + u + r)

section

variable {size n : Nat} {buffer : List UInt8} {a u p r : Nat}

theorem create_eq_ring {allocator : Allocator} {bufferingSize : UInt32} :
    Stream.create allocator size bufferingSize =
      ring size bufferingSize.toNat
        (allocator.allocate (size * bufferingSize.toNat)) 0 0 0 0 := by
  rw [Stream.create, bufferStart_eq]
  rfl

theorem sizeAdd_eq {x y : Nat} (h : x + y < 2 ^ 32) : sizeAdd x y = x + y :=
  Nat.mod_eq_of_lt h

theorem sizeDiff_eq {x y : Nat} (h : y ≤ x) : sizeDiff x y = x - y := if_pos h

theorem peek_ring (hn : 0 < n) (hu : u < 2 ^ 32) (h : p < u) :
    (ring size n buffer a u p r).peek =
      (true, (block size n (a + p)).deref, [], ring size n buffer a u (p + 1) r) := by
  rw [Stream.peek, ring]
  simp only []
  rw [if_pos h, next_block hn, sizeAdd_eq (by omega)]
  rfl

theorem peek_ring_none (h : u ≤ p) :
    (ring size n buffer a u p r).peek =
      (false, (ring size n buffer a u p r).getNullSpan, [.streamUnderFlow],
        ring size n buffer a u p r) :=
  if_neg (Nat.not_lt.2 h)

theorem unpeek_ring :
    (ring size n buffer a u p r).unpeek = ring size n buffer a u 0 r := rfl

theorem consume_ring (h : p ≤ u) :
    (ring size n buffer a u p r).consume.2 =
      ring size n buffer (a + p) (u - p) 0 r := by
  rw [Stream.consume, ring, ring]
  simp only []
  rw [sizeDiff_eq h, show a + p + (u - p) = a + u by omega]
  rfl

theorem reserve_ring (hn : 0 < n) (hlt : n < 2 ^ 32) (h : u + r < n) :
    (ring size n buffer a u p r).reserve =
      (true, (block size n (a + u + r + 1)).deref, [],
        ring size n buffer a u p (r + 1)) := by
  rw [Stream.reserve, ring]
  simp only []
  rw [if_pos (by rw [sizeDiff_eq (by omega)]; omega), next_block hn,
    sizeAdd_eq (by omega)]
  rfl

theorem reserve_ring_full (hn : 0 < n) (h : u + r = n) :
    (ring size n buffer a u p r).reserve =
      (false, (block size n (a + p + 1)).deref, [.streamOverflow],
        { ring size n buffer a 0 p 1 with
          dataEnd := block size n (a + p)
          writeReservationPosition := block size n (a + p + 1) }) := by
  rw [Stream.reserve, ring]
  simp only []
  rw [if_neg (by rw [sizeDiff_eq (by omega)]; omega), next_block hn]
  rfl

theorem commit_ring (h : u + r < 2 ^ 32) :
    (ring size n buffer a u p r).commit.2 = ring size n buffer a (u + r) p 0 := by
  rw [Stream.commit, ring, ring]
  simp only []
  rw [sizeAdd_eq h, Nat.add_zero, Nat.add_assoc]

theorem release_ring :
    (ring size n buffer a u p r).release = ring size n buffer a u p 0 := rfl

theorem reset_ring :
    (ring size n buffer a u p r).reset = ring size n buffer 0 0 0 0 := by
  rw [Stream.reset, ring]
  simp only []
  rw [bufferStart_eq]
  rfl

/-- A `push` that takes no reservation to be in progress. -/
theorem push_ring (hn : 0 < n) (hlt : n < 2 ^ 32) {data : List UInt8}
    (hsize : data.length = size) (hr : size = 0 ∨ r = 0 ∨ r = n) (hroom : u < n)
    (hrn : r ≤ n) :
    ((ring size n buffer a u p r).push data).1 = true ∧
      ((ring size n buffer a u p r).push data).2.2 =
        { ring size n (patch buffer ((a + u) % n * size) data) a (u + 1) p r with
          writeReservationPosition := block size n (a + u + 1) } := by
  have h1 : ¬ data.length ≠ (ring size n buffer a u p r).blockSize := fun h => h hsize
  have h2 : (ring size n buffer a u p r).dataEnd.equal
      (ring size n buffer a u p r).writeReservationPosition = true :=
    (equal_block_add hrn).2 hr
  have h3 : (ring size n buffer a u p r).isFull = false :=
    beq_eq_false_iff_ne.2 (Nat.ne_of_lt hroom)
  have hwrite : (ring size n buffer a u p r).write
      (ring size n buffer a u p r).dataEnd.deref data =
      ring size n (patch buffer ((a + u) % n * size) data) a u p r := rfl
  have hnext : (ring size n (patch buffer ((a + u) % n * size) data) a u p
      r).dataEnd.next = block size n (a + u + 1) := next_block hn
  have hused : sizeAdd (ring size n (patch buffer ((a + u) % n * size) data) a u p
      r).blocksUsed 1 = u + 1 := sizeAdd_eq (show u + 1 < 2 ^ 32 by omega)
  rw [Stream.push, if_neg h1, if_neg (by rw [h2]; simp), if_neg (by rw [h3]; simp),
    hwrite]
  simp only []
  rw [hnext, hused]
  exact ⟨trivial, rfl⟩

theorem push_ring_false {data : List UInt8} (hrn : r ≤ n)
    (h : data.length ≠ size ∨ ¬ (size = 0 ∨ r = 0 ∨ r = n) ∨ u = n) :
    ((ring size n buffer a u p r).push data).1 = false ∧
      ((ring size n buffer a u p r).push data).2.2 = ring size n buffer a u p r := by
  have heq := @equal_block_add size n r (a + u) hrn
  rw [Stream.push, ring]
  simp only []
  split
  · exact ⟨rfl, rfl⟩
  split
  · exact ⟨rfl, rfl⟩
  split
  · exact ⟨rfl, rfl⟩
  · next h1 h2 h3 =>
      rw [Bool.not_eq_true, Bool.not_eq_false, heq] at h2
      rw [Stream.isFull] at h3
      simp at h1 h3
      simp [h1, h2, h3] at h

/-- A `pop` that takes no peek to be in progress. -/
theorem pop_ring (hn : 0 < n) {span : Span}
    (hsize : span.dataSize = size) (hp : size = 0 ∨ p = 0 ∨ p = n) (hused : 0 < u)
    (hpn : p ≤ n) :
    ((ring size n buffer a u p r).pop span).1 =
        some (slot size buffer (a % n)) ∧
      ((ring size n buffer a u p r).pop span).2.2.2 =
        { ring size n buffer (a + 1) (u - 1) p r with
          peekPosition := block size n (a + 1) } := by
  have heq := (@equal_block_add size n p a hpn).2 hp
  rw [Stream.pop, ring]
  simp only []
  rw [if_neg (by rw [hsize]; simp), if_neg (by rw [heq]; simp), Stream.isEmpty]
  simp only []
  rw [if_neg (by simp; omega), next_block hn, sizeDiff_eq (show 1 ≤ u from hused)]
  refine ⟨rfl, ?_⟩
  rw [ring, show a + 1 + (u - 1) = a + u by omega]

theorem pop_ring_none {span : Span} (hpn : p ≤ n)
    (h : span.dataSize ≠ size ∨ ¬ (size = 0 ∨ p = 0 ∨ p = n) ∨ u = 0) :
    ((ring size n buffer a u p r).pop span).1 = none ∧
      ((ring size n buffer a u p r).pop span).2.2.2 = ring size n buffer a u p r := by
  have heq := @equal_block_add size n p a hpn
  rw [Stream.pop, ring]
  simp only []
  split
  · exact ⟨rfl, rfl⟩
  split
  · exact ⟨rfl, rfl⟩
  split
  · exact ⟨rfl, rfl⟩
  · next h1 h2 h3 =>
      rw [Bool.not_eq_true, Bool.not_eq_false, heq] at h2
      rw [Stream.isEmpty] at h3
      simp at h1 h3
      simp [h1, h2, h3] at h

end

/-! ## The books -/

structure Bookkeeping (s : Stream) : Prop where
  peeked : s.peekCount ≤ s.blocksUsed
  used : s.blocksUsed ≤ s.blockCount
  reserved : s.blocksUsed + s.reserveCount ≤ s.blockCount
  dataEnd : s.dataEnd = RawBlockIterator.next^[s.blocksUsed] s.dataStart
  peekPosition : s.peekPosition = RawBlockIterator.next^[s.peekCount] s.dataStart

/-- A `pop` beside a peek and a `push` beside a reservation are refused. -/
def Refuses (s : Stream) : Call → Prop
  | .push data => 0 < s.reserveCount → (s.push data).1 = false
  | .pop span => 0 < s.peekCount → (s.pop span).1 = none
  | _ => True

/-- The call subtracts from a counter more than is there. -/
def Underflows (s : Stream) : Call → Prop
  | .pop span => (s.pop span).1 ≠ none ∧ s.blocksUsed = 0
  | .consume => s.blocksUsed < s.peekCount
  | .reserve => s.blockCount < s.blocksUsed
  | _ => False

def Orderly (s : Stream) (c : Call) : Prop :=
  Bookkeeping (s.call c) ∧ Refuses s c ∧ ¬ Underflows s c

/-- The call is not one of the three that the code gets wrong. -/
def Unambiguous (s : Stream) : Call → Prop
  | .push data => data.length = s.blockSize → 0 < s.reserveCount →
      s.blockSize ≠ 0 ∧ s.reserveCount ≠ s.blockCount
  | .pop span => span.dataSize = s.blockSize → 0 < s.peekCount →
      s.blockSize ≠ 0 ∧ s.peekCount ≠ s.blockCount
  | .reserve => s.blocksUsed + s.reserveCount = s.blockCount → s.peekCount = 0
  | _ => True

instance {s : Stream} : ∀ {c : Call}, Decidable (Unambiguous s c)
  | .push _ => inferInstanceAs (Decidable (_ → _ → _ ∧ _))
  | .pop _ => inferInstanceAs (Decidable (_ → _ → _ ∧ _))
  | .reserve => inferInstanceAs (Decidable (_ → _))
  | .peek | .unpeek | .consume | .commit | .release | .reset =>
      inferInstanceAs (Decidable True)

/-- The shape every stream with its books in order has. -/
def Shaped (s : Stream) : Prop :=
  ∃ size n buffer a u p r, s = ring size n buffer a u p r ∧
    0 < n ∧ n < 2 ^ 32 ∧ p ≤ u ∧ u + r ≤ n

theorem bookkeeping_ring {size n : Nat} {buffer : List UInt8} {a u p r : Nat}
    (hn : 0 < n) (hpeek : p ≤ u) (hroom : u + r ≤ n) :
    Bookkeeping (ring size n buffer a u p r) :=
  ⟨hpeek, Nat.le_trans (Nat.le_add_right u r) hroom, hroom,
    (iterate_next_block hn).symm, (iterate_next_block hn).symm⟩

theorem Shaped.bookkeeping {s : Stream} (h : Shaped s) : Bookkeeping s := by
  obtain ⟨size, n, buffer, a, u, p, r, rfl, hn, _, hpeek, hroom⟩ := h
  exact bookkeeping_ring hn hpeek hroom

theorem shaped_create {allocator : Allocator} {size : Nat} {bufferingSize : UInt32}
    (h : 0 < bufferingSize) : Shaped (Stream.create allocator size bufferingSize) :=
  ⟨size, bufferingSize.toNat, _, 0, 0, 0, 0, create_eq_ring,
    UInt32.lt_iff_toNat_lt.1 h, bufferingSize.toNat_lt, Nat.le_refl 0, Nat.zero_le _⟩

theorem orderly_push {s : Stream} {data : List UInt8} (hs : Shaped s) :
    (Orderly s (.push data) ↔ Unambiguous s (.push data)) ∧
      (Unambiguous s (.push data) → Shaped (s.call (.push data))) := by
  obtain ⟨size, n, buffer, a, u, p, r, rfl, hn, hlt, hpeek, hroom⟩ := hs
  by_cases htaken : data.length = size ∧ (size = 0 ∨ r = 0 ∨ r = n) ∧ u < n
  · obtain ⟨hsize, hr, hfree⟩ := htaken
    obtain ⟨hok, hnext⟩ :=
      @push_ring size n buffer a u p r hn hlt data hsize hr hfree (by omega)
    by_cases hzero : r = 0
    · subst hzero
      have hshaped : Shaped ((ring size n buffer a u p 0).call (.push data)) :=
        ⟨size, n, _, a, u + 1, p, 0, hnext, hn, hlt, by omega, by omega⟩
      have hidle : ¬ 0 < (ring size n buffer a u p 0).reserveCount := Nat.lt_irrefl 0
      exact ⟨⟨fun _ _ h => absurd h hidle,
        fun _ => ⟨hshaped.bookkeeping, fun h => absurd h hidle, id⟩⟩, fun _ => hshaped⟩
    · have hpos : 0 < (ring size n buffer a u p r).reserveCount := by
        show 0 < r
        omega
      have hnot : ¬ Unambiguous (ring size n buffer a u p r) (.push data) := by
        intro h
        obtain ⟨h1, h2⟩ := h hsize hpos
        exact hr.elim h1 fun h => h.elim hzero h2
      refine ⟨⟨fun h => ?_, fun h => absurd h hnot⟩, fun h => absurd h hnot⟩
      exact absurd (hok.symm.trans (h.2.1 hpos)) (by decide)
  · have hrefused : data.length ≠ size ∨ ¬ (size = 0 ∨ r = 0 ∨ r = n) ∨ ¬ u < n :=
      (not_and_or.1 htaken).imp_right not_and_or.1
    obtain ⟨hok, hnext⟩ := @push_ring_false size n buffer a u p r data (by omega)
      (hrefused.imp_right fun h => h.imp_right (by omega))
    have hshaped : Shaped ((ring size n buffer a u p r).call (.push data)) :=
      ⟨size, n, _, a, u, p, r, hnext, hn, hlt, hpeek, hroom⟩
    refine ⟨⟨fun _ hsize hpos => ?_, fun _ => ⟨hshaped.bookkeeping, fun _ => hok, id⟩⟩,
      fun _ => hshaped⟩
    refine ⟨fun h => htaken ⟨hsize, .inl h, ?_⟩, fun h => htaken ⟨hsize, .inr (.inr h), ?_⟩⟩
    all_goals
      have hpos : 0 < r := hpos
      omega

theorem orderly_pop {s : Stream} {span : Span} (hs : Shaped s) :
    (Orderly s (.pop span) ↔ Unambiguous s (.pop span)) ∧
      (Unambiguous s (.pop span) → Shaped (s.call (.pop span))) := by
  obtain ⟨size, n, buffer, a, u, p, r, rfl, hn, hlt, hpeek, hroom⟩ := hs
  by_cases htaken : span.dataSize = size ∧ (size = 0 ∨ p = 0 ∨ p = n) ∧ 0 < u
  · obtain ⟨hsize, hp, hused⟩ := htaken
    obtain ⟨hok, hnext⟩ :=
      @pop_ring size n buffer a u p r hn span hsize hp hused (by omega)
    have hsome : ((ring size n buffer a u p r).pop span).1 ≠ none := by simp [hok]
    by_cases hzero : p = 0
    · subst hzero
      have hshaped : Shaped ((ring size n buffer a u 0 r).call (.pop span)) :=
        ⟨size, n, _, a + 1, u - 1, 0, r, hnext, hn, hlt, by omega, by omega⟩
      have hidle : ¬ 0 < (ring size n buffer a u 0 r).peekCount := Nat.lt_irrefl 0
      exact ⟨⟨fun _ _ h => absurd h hidle, fun _ => ⟨hshaped.bookkeeping,
        fun h => absurd h hidle, fun h => absurd h.2 (Nat.ne_of_gt hused)⟩⟩,
        fun _ => hshaped⟩
    · have hpos : 0 < (ring size n buffer a u p r).peekCount := by
        show 0 < p
        omega
      have hnot : ¬ Unambiguous (ring size n buffer a u p r) (.pop span) := by
        intro h
        obtain ⟨h1, h2⟩ := h hsize hpos
        exact hp.elim h1 fun h => h.elim hzero h2
      exact ⟨⟨fun h => absurd (h.2.1 hpos) hsome, fun h => absurd h hnot⟩,
        fun h => absurd h hnot⟩
  · have hrefused : span.dataSize ≠ size ∨ ¬ (size = 0 ∨ p = 0 ∨ p = n) ∨ ¬ 0 < u :=
      (not_and_or.1 htaken).imp_right not_and_or.1
    obtain ⟨hok, hnext⟩ := @pop_ring_none size n buffer a u p r span (by omega)
      (hrefused.imp_right fun h => h.imp_right (by omega))
    have hshaped : Shaped ((ring size n buffer a u p r).call (.pop span)) :=
      ⟨size, n, _, a, u, p, r, hnext, hn, hlt, hpeek, hroom⟩
    refine ⟨⟨fun _ hsize hpos => ?_, fun _ => ⟨hshaped.bookkeeping, fun _ => hok,
      fun h => h.1 hok⟩⟩, fun _ => hshaped⟩
    refine ⟨fun h => htaken ⟨hsize, .inl h, ?_⟩, fun h => htaken ⟨hsize, .inr (.inr h), ?_⟩⟩
    all_goals
      have hpos : 0 < p := hpos
      omega

theorem orderly_reserve {s : Stream} (hs : Shaped s) :
    (Orderly s .reserve ↔ Unambiguous s .reserve) ∧
      (Unambiguous s .reserve → Shaped (s.call .reserve)) := by
  obtain ⟨size, n, buffer, a, u, p, r, rfl, hn, hlt, hpeek, hroom⟩ := hs
  have hsafe : ¬ Underflows (ring size n buffer a u p r) .reserve :=
    Nat.not_lt.2 (Nat.le_trans (Nat.le_add_right u r) hroom)
  by_cases hfull : u + r = n
  · have hnext := congrArg (·.2.2.2)
      (@reserve_ring_full size n buffer a u p r hn hfull)
    by_cases hzero : p = 0
    · subst hzero
      have hshaped : Shaped ((ring size n buffer a u 0 r).call .reserve) :=
        ⟨size, n, buffer, a, 0, 0, 1, hnext, hn, hlt, Nat.le_refl 0, by omega⟩
      exact ⟨⟨fun _ _ => rfl, fun _ => ⟨hshaped.bookkeeping, trivial, hsafe⟩⟩,
        fun _ => hshaped⟩
    · have hnot : ¬ Unambiguous (ring size n buffer a u p r) .reserve :=
        fun h => hzero (h hfull)
      refine ⟨⟨fun h => ?_, fun h => absurd h hnot⟩, fun h => absurd h hnot⟩
      -- what was peeked is counted, what was used is not
      have hpeeked := h.1.peeked
      rw [Stream.call, reserve_ring_full hn hfull] at hpeeked
      exact absurd hpeeked (Nat.not_le.2 (Nat.pos_of_ne_zero hzero))
  · have hnext := congrArg (·.2.2.2)
      (@reserve_ring size n buffer a u p r hn hlt (by omega))
    have hshaped : Shaped ((ring size n buffer a u p r).call .reserve) :=
      ⟨size, n, buffer, a, u, p, r + 1, hnext, hn, hlt, hpeek, by omega⟩
    exact ⟨⟨fun _ h => absurd h hfull, fun _ => ⟨hshaped.bookkeeping, trivial, hsafe⟩⟩,
      fun _ => hshaped⟩

/-- The six calls that keep the books whatever happens. -/
theorem shaped_call {s : Stream} (c : Call) (hs : Shaped s)
    (hc : c ∈ [Call.peek, .unpeek, .consume, .commit, .release, .reset]) :
    Shaped (s.call c) ∧ ¬ Underflows s c := by
  obtain ⟨size, n, buffer, a, u, p, r, rfl, hn, hlt, hpeek, hroom⟩ := hs
  simp only [List.mem_cons, List.not_mem_nil, or_false] at hc
  rcases hc with rfl | rfl | rfl | rfl | rfl | rfl
  · refine ⟨?_, id⟩
    by_cases h : p < u
    · exact ⟨size, n, buffer, a, u, p + 1, r,
        congrArg (·.2.2.2) (peek_ring hn (by omega) h), hn, hlt, h, hroom⟩
    · exact ⟨size, n, buffer, a, u, p, r,
        congrArg (·.2.2.2) (peek_ring_none (by omega)), hn, hlt, hpeek, hroom⟩
  · exact ⟨⟨size, n, buffer, a, u, 0, r, rfl, hn, hlt, Nat.zero_le u, hroom⟩, id⟩
  · exact ⟨⟨size, n, buffer, a + p, u - p, 0, r, consume_ring hpeek, hn,
      hlt, Nat.zero_le _, by omega⟩, Nat.not_lt.2 hpeek⟩
  · exact ⟨⟨size, n, buffer, a, u + r, p, 0, commit_ring (by omega), hn, hlt,
      by omega, hroom⟩, id⟩
  · exact ⟨⟨size, n, buffer, a, u, p, 0, rfl, hn, hlt, hpeek, by omega⟩, id⟩
  · exact ⟨⟨size, n, buffer, 0, 0, 0, 0, reset_ring, hn, hlt, Nat.le_refl 0,
      Nat.zero_le n⟩, id⟩

/-- One call on a stream with its books in order. -/
theorem orderly_iff {s : Stream} {c : Call} (hs : Shaped s) :
    (Orderly s c ↔ Unambiguous s c) ∧ (Unambiguous s c → Shaped (s.call c)) := by
  have hkept : ∀ c ∈ [Call.peek, .unpeek, .consume, .commit, .release, .reset],
      Refuses s c → Unambiguous s c →
      (Orderly s c ↔ Unambiguous s c) ∧ (Unambiguous s c → Shaped (s.call c)) := by
    intro c hc hrefuses hunambiguous
    obtain ⟨hnext, hsafe⟩ := shaped_call c hs hc
    exact ⟨⟨fun _ => hunambiguous, fun _ => ⟨hnext.bookkeeping, hrefuses, hsafe⟩⟩,
      fun _ => hnext⟩
  cases c with
  | push data => exact orderly_push hs
  | pop span => exact orderly_pop hs
  | reserve => exact orderly_reserve hs
  | peek | unpeek | consume | commit | release | reset =>
      exact hkept _ (by simp) trivial trivial

/-- The books are in order throughout a run exactly when no call of it is one of
the three. -/
theorem bookkeeping_iff {allocator : Allocator} {size : Nat} {bufferingSize : UInt32}
    {calls : List Call} (h : 0 < bufferingSize) :
    (Bookkeeping (Stream.create allocator size bufferingSize) ∧
      EveryStep Orderly Stream.call (Stream.create allocator size bufferingSize) calls) ↔
    EveryStep Unambiguous Stream.call
      (Stream.create allocator size bufferingSize) calls := by
  have hshaped := @shaped_create allocator size bufferingSize h
  have hrun := @everyStep_congr _ _ Shaped Orderly Unambiguous Stream.call
    (fun _ _ hs => (orderly_iff hs).1) (fun _ _ hs => (orderly_iff hs).2) calls _ hshaped
  exact (and_iff_right hshaped.bookkeeping).trans hrun

theorem bookkeeping_mixed :
    EveryStep Orderly Stream.call (Stream.create standardStreamAllocator 1 2)
      [.push [7], .peek, .reserve, .consume, .commit, .pop ⟨.caller, 0, 1⟩] :=
  ((bookkeeping_iff (show (0 : UInt32) < 2 by decide)).2 (by decide)).2

/-- A ring of two blocks: an overflow beside a peek, a `pop` of a peeked block
and a `push` beside two reservations. -/
theorem bookkeeping_broken :
    ¬ Bookkeeping ([.push [1], .push [2], .peek, .reserve].foldl Stream.call
      (Stream.create standardStreamAllocator 1 2)) ∧
    ¬ Refuses ([.push [1], .push [2], .peek, .peek].foldl Stream.call
      (Stream.create standardStreamAllocator 1 2)) (.pop ⟨.caller, 0, 1⟩) ∧
    ¬ Refuses ([.reserve, .reserve].foldl Stream.call
      (Stream.create standardStreamAllocator 1 2)) (.push [1]) :=
  ⟨fun h => absurd h.peeked (by decide), fun h => absurd (h (by decide)) (by decide),
    fun h => absurd (h (by decide)) (by decide)⟩

end MuditaOS.Audio
