import MuditaOS.Audio.ZeroCopy
import MuditaOS.Proofs.StreamRing

/-!
# The zero-copy write path is one block late

`reserve` steps to the next block before it hands it out, so the first block of
an empty ring is written behind `dataEnd` while `commit` publishes the block at
`dataEnd`. On a ring of one block the two are the same, and the path is a FIFO
unless a `pop` takes the block a second time while it is peeked. On a longer ring
a session is only sound as long as nothing is read: the first block the reader
gets is one that was never committed, and the writer can make it differ from the
one it should get.
-/

namespace MuditaOS.Audio

open MuditaOS.Lib

/-! ## The property -/

def Overlap (x y : Span) : Prop :=
  x.memory = y.memory ∧ x.data < y.dataEnd ∧ y.data < x.dataEnd

/-- The session is not one in which the writer overruns the reader. -/
def Reserves {size : Nat} (s : Session) : ZeroCopyOp size → Prop
  | .reserve _ => s.stream.reserve.1 = true
  | _ => True

/-- The span of a reservation is none of a block that waits to be consumed. -/
def Apart {size : Nat} (s : Session) : ZeroCopyOp size → Prop
  | .reserve _ => ∀ c ∈ s.committed.drop s.obtained.length,
      ¬ Overlap s.stream.reserve.2.1 c.1
  | _ => True

/-- What was obtained, and what the peeked spans show, are the committed contents
up to there, and the blocks used are the rest. -/
structure InOrder (s : Session) : Prop where
  contents : s.obtained ++ s.peeked.map s.stream.read <+: s.committed.map Prod.snd
  count : s.obtained.length + s.stream.blocksUsed = s.committed.length

def Fifo {size : Nat} (s : Session) (op : ZeroCopyOp size) : Prop :=
  Apart s op ∧ InOrder (s.step op)

/-- A ring of one block, and no `pop` of a block that is peeked; or there is
nothing to read. -/
def InStep {size : Nat} (s : Session) : ZeroCopyOp size → Prop
  | .peek => s.stream.blocksUsed = 0 ∨ s.stream.blockCount = 1
  | .pop span => span.dataSize = s.stream.blockSize →
      s.stream.blocksUsed = 0 ∨ s.stream.blockCount = 1 ∧ s.stream.peekCount = 0
  | _ => True

instance {size : Nat} {s : Session} : ∀ {op : ZeroCopyOp size}, Decidable (Reserves s op)
  | .reserve _ => inferInstanceAs (Decidable (_ = _))
  | .commit | .release | .peek | .consume | .unpeek | .pop _ =>
      inferInstanceAs (Decidable True)

instance {size : Nat} {s : Session} : ∀ {op : ZeroCopyOp size}, Decidable (InStep s op)
  | .peek => inferInstanceAs (Decidable (_ ∨ _))
  | .pop _ => inferInstanceAs (Decidable (_ → _))
  | .reserve _ | .commit | .release | .consume | .unpeek =>
      inferInstanceAs (Decidable True)

/-- The call, whatever the writer fills in. -/
def ZeroCopyOp.erase {size : Nat} : ZeroCopyOp size → ZeroCopyOp 0
  | .reserve _ => .reserve ⟨[], rfl⟩
  | .commit => .commit
  | .release => .release
  | .peek => .peek
  | .consume => .consume
  | .unpeek => .unpeek
  | .pop span => .pop span

/-- Different blocks have no byte in common. -/
theorem not_overlap_block {size n j k : Nat} (h : j % n ≠ k % n) :
    ¬ Overlap (block size n j).deref (block size n k).deref := by
  intro ⟨_, h1, h2⟩
  have h1 : j % n * size < k % n * size + size := h1
  have h2 : k % n * size < j % n * size + size := h2
  rcases slots_disjoint size h with hle | hle
  all_goals
    rw [Nat.add_one_mul] at hle
    omega

/-! ## One step of a session -/

section

variable {size : Nat} {s : Session}

theorem step_reserve {data : Block size} {ok : Bool} {span : Span}
    {events : List Event} {stream : Stream}
    (h : s.stream.reserve = (ok, span, events, stream)) :
    s.step (.reserve data) = { s with
      stream := stream.write span data.val
      held := s.held ++ [(span, data.val)] } := by
  rw [Session.step, h]

theorem step_peek {ok : Bool} {span : Span} {events : List Event} {stream : Stream}
    (h : s.stream.peek = (ok, span, events, stream)) :
    s.step (.peek : ZeroCopyOp size) = { s with
      stream := stream
      peeked := s.peeked ++ if ok then [span] else [] } := by
  rw [Session.step, h]
  cases ok with
  | true => rfl
  | false => rw [if_neg (by decide), List.append_nil]; rfl

theorem step_pop {span : Span} :
    s.step (.pop span : ZeroCopyOp size) = { s with
      stream := (s.stream.pop span).2.2.2
      obtained := s.obtained ++ (s.stream.pop span).1.toList } := rfl

/-- A reservation is granted when there is room for it. -/
theorem reserves_iff {n a u p r : Nat} {buffer : List UInt8} {data : Block size}
    (hn : 0 < n) (hlt : n < 2 ^ 32) (hs : s.stream = ring size n buffer a u p r)
    (hroom : u + r ≤ n) : Reserves s (.reserve data) ↔ u + r < n := by
  rw [Reserves, hs]
  rcases Nat.eq_or_lt_of_le hroom with hfull | hfree
  · rw [reserve_ring_full hn hfull]
    exact ⟨fun h => Bool.noConfusion h, fun h => absurd hfull (Nat.ne_of_lt h)⟩
  · rw [reserve_ring hn hlt hfree]
    exact ⟨fun _ => hfree, fun _ => rfl⟩

end

/-! ## One block -/

/-- A session on a ring of one block; every span there is shows the whole
buffer. -/
structure Single (size a u p r : Nat) (buffer : List UInt8) (s : Session) : Prop where
  stream : s.stream = ring size 1 buffer a u p r
  length : buffer.length = size
  peek_le : p ≤ u
  room : u + r ≤ 1
  committed : s.committed.map Prod.snd = s.obtained ++ List.replicate u buffer
  held : s.held.map Prod.snd = List.replicate r buffer
  peeked : s.peeked = List.replicate p (block size 1 0).deref

theorem block_one {size k : Nat} : block size 1 k = block size 1 0 := by
  rw [block, block, Nat.mod_one, Nat.mod_one]

theorem read_one {size a u p r : Nat} {buffer : List UInt8}
    (h : buffer.length = size) :
    (ring size 1 buffer a u p r).read (block size 1 0).deref = buffer := by
  have hread : (ring size 1 buffer a u p r).read (block size 1 0).deref =
      (buffer.drop (0 % 1 * size)).take size := rfl
  rw [hread, Nat.zero_mod, Nat.zero_mul, List.drop_zero, ← h, List.take_length]

theorem write_one {size a u p r : Nat} {buffer data : List UInt8}
    (h : buffer.length = size) (hdata : data.length = size) :
    (ring size 1 buffer a u p r).write (block size 1 0).deref data =
      ring size 1 data a u p r := by
  have hwrite : (ring size 1 buffer a u p r).write (block size 1 0).deref data =
      ring size 1 (patch buffer (0 % 1 * size) data) a u p r := rfl
  rw [hwrite, Nat.zero_mod, Nat.zero_mul, patch, List.take_zero, List.nil_append,
    Nat.zero_add, hdata, ← h, List.drop_length, List.append_nil]

namespace Single

variable {size a u p r : Nat} {buffer : List UInt8} {s : Session}

theorem inOrder (h : Single size a u p r buffer s) : InOrder s := by
  refine ⟨?_, ?_⟩
  · rw [h.committed, h.peeked, h.stream, List.map_replicate, read_one h.length]
    obtain ⟨k, hk⟩ := Nat.exists_eq_add_of_le h.peek_le
    exact ⟨List.replicate k buffer, by
      rw [List.append_assoc, List.replicate_append_replicate, ← hk]⟩
  · have hlen := congrArg List.length h.committed
    rw [List.length_map, List.length_append, List.length_replicate] at hlen
    rw [h.stream]
    exact hlen.symm

/-- Nothing waits to be consumed when a reservation is granted. -/
theorem apart (h : Single size a u p r buffer s) (op : ZeroCopyOp size)
    (hres : Reserves s op) : Apart s op := by
  cases op with
  | reserve data =>
      have hfree := (reserves_iff Nat.one_pos (by decide) h.stream h.room).1 hres
      have hzero : u = 0 := by omega
      have hlen := h.inOrder.count
      rw [h.stream, show (ring size 1 buffer a u p r).blocksUsed = u from rfl, hzero,
        Nat.add_zero] at hlen
      rw [Apart, hlen, List.drop_length]
      exact fun c hc => absurd hc List.not_mem_nil
  | _ => trivial

theorem step (h : Single size a u p r buffer s) (op : ZeroCopyOp size)
    (hres : Reserves s op) (hrule : InStep s op) :
    ∃ a u p r buffer, Single size a u p r buffer (s.step op) := by
  have hroom := h.room
  have hpeek := h.peek_le
  cases op with
  | reserve data =>
      have hfree := (reserves_iff Nat.one_pos (by decide) h.stream hroom).1 hres
      obtain ⟨rfl, rfl⟩ : u = 0 ∧ r = 0 := by omega
      have hcall := @step_reserve size s data _ _ _ _ (h.stream ▸
        @reserve_ring size 1 buffer a 0 p 0 Nat.one_pos (by decide) hfree)
      have hheld : s.held = [] := List.map_eq_nil_iff.1 h.held
      rw [hcall]
      refine ⟨a, 0, p, 1, data.val, ?_, data.property, hpeek, Nat.le_refl 1,
        h.committed, ?_, h.peeked⟩
      · show (ring size 1 buffer a 0 p 1).write (block size 1 (a + 0 + 0 + 1)).deref
          data.val = _
        rw [block_one, write_one h.length data.property]
      · show (s.held ++ _).map _ = _
        rw [hheld]
        rfl
  | commit =>
      refine ⟨a, u + r, p, 0, buffer, ?_, h.length, by omega, hroom, ?_, rfl, h.peeked⟩
      · rw [Session.step, h.stream]
        exact commit_ring (by omega)
      · rw [Session.step, List.map_append, h.committed, h.held, List.append_assoc,
          List.replicate_append_replicate]
  | release =>
      refine ⟨a, u, p, 0, buffer, ?_, h.length, hpeek, by omega, h.committed, rfl,
        h.peeked⟩
      rw [Session.step, h.stream]
      exact release_ring
  | peek =>
      by_cases hlt : p < u
      · rw [step_peek (h.stream ▸ peek_ring Nat.one_pos (by omega) hlt)]
        refine ⟨a, u, p + 1, r, buffer, rfl, h.length, hlt, hroom, h.committed,
          h.held, ?_⟩
        show s.peeked ++ [_] = _
        rw [h.peeked, @block_one size (a + p), ← List.replicate_succ']
      · rw [step_peek (h.stream ▸ peek_ring_none (Nat.not_lt.1 hlt))]
        refine ⟨a, u, p, r, buffer, h.stream, h.length, hpeek, hroom, h.committed,
          h.held, ?_⟩
        show s.peeked ++ [] = _
        rw [h.peeked, List.append_nil]
  | consume =>
      refine ⟨a + p, u - p, 0, r, buffer, ?_, h.length, Nat.zero_le _, by omega, ?_,
        h.held, rfl⟩
      · rw [Session.step, h.stream]
        exact consume_ring hpeek
      · rw [Session.step, h.stream, h.peeked, List.map_replicate, read_one h.length,
          List.append_assoc, List.replicate_append_replicate,
          show p + (u - p) = u by omega]
        exact h.committed
  | unpeek =>
      refine ⟨a, u, 0, r, buffer, ?_, h.length, Nat.zero_le _, hroom, h.committed,
        h.held, rfl⟩
      rw [Session.step, h.stream]
      exact unpeek_ring
  | pop span =>
      by_cases htaken : span.dataSize = size ∧ 0 < u
      · obtain ⟨hsize, hused⟩ := htaken
        rw [InStep, h.stream] at hrule
        have hzero : p = 0 := ((hrule hsize).resolve_left (Nat.ne_of_gt hused)).2
        subst hzero
        obtain ⟨hdata, hnext⟩ := @pop_ring size 1 buffer a u 0 r Nat.one_pos span
          hsize (.inr (.inl rfl)) hused (Nat.zero_le 1)
        have hslot : slot size buffer (a % 1) = buffer := by
          rw [slot, Nat.mod_one, Nat.zero_mul, List.drop_zero, ← h.length,
            List.take_length]
        rw [step_pop, h.stream, hdata, hnext, hslot]
        refine ⟨a + 1, u - 1, 0, r, buffer, rfl, h.length, Nat.zero_le _, by omega,
          ?_, h.held, h.peeked⟩
        show _ = (s.obtained ++ [buffer]) ++ _
        rw [List.append_assoc, List.singleton_append, ← List.replicate_succ,
          show u - 1 + 1 = u by omega]
        exact h.committed
      · obtain ⟨hdata, hnext⟩ := @pop_ring_none size 1 buffer a u p r span (by omega)
          (by by_cases hsize : span.dataSize = size
              · exact .inr (.inr (by
                  have := fun hu => htaken ⟨hsize, hu⟩
                  omega))
              · exact .inl hsize)
        rw [step_pop, h.stream, hdata, hnext]
        refine ⟨a, u, p, r, buffer, rfl, h.length, hpeek, hroom, ?_, h.held, h.peeked⟩
        show _ = (s.obtained ++ []) ++ _
        rw [List.append_nil]
        exact h.committed

/-- A block that is popped while it is peeked is there twice. -/
theorem inStep (h : Single size a u p r buffer s) (op : ZeroCopyOp size)
    (hfifo : Fifo s op) : InStep s op := by
  have hroom := h.room
  have hpeek := h.peek_le
  cases op with
  | peek => exact .inr (by rw [h.stream]; rfl)
  | pop span =>
      intro hsize
      rw [h.stream] at hsize ⊢
      by_cases hzero : p = 0
      · exact .inr ⟨rfl, hzero⟩
      · refine absurd hfifo.2.contents.length_le (Nat.not_le.2 ?_)
        obtain ⟨hdata, _⟩ := @pop_ring size 1 buffer a u p r Nat.one_pos span hsize
          (.inr (.inr (by omega))) (by omega) (by omega)
        have hlen := h.inOrder.count
        rw [h.stream, show (ring size 1 buffer a u p r).blocksUsed = u from rfl] at hlen
        rw [step_pop, h.stream, hdata, List.length_append, List.length_map,
          List.length_append, List.length_map, h.peeked, List.length_replicate,
          ← hlen, Option.toList_some, List.length_singleton]
        omega
  | _ => trivial

end Single

/-! ## More blocks, unread -/

/-- The counters behind a call of the writer. -/
def counts {size : Nat} (op : ZeroCopyOp size) (u r : Nat) : Nat × Nat :=
  match op with
  | .reserve _ => (u, r + 1)
  | .commit => (u + r, 0)
  | .release => (u, 0)
  | _ => (u, r)

/-- The buffer behind a call of the writer. -/
def filled {size : Nat} (op : ZeroCopyOp size) (n u r : Nat) (buffer : List UInt8) :
    List UInt8 :=
  match op with
  | .reserve data => patch buffer ((u + r + 1) % n * size) data.val
  | _ => buffer

/-- A session in which nothing was read; the spans run one block ahead of what
the stream counts. -/
structure Unread (size n u r : Nat) (buffer : List UInt8) (s : Session) : Prop where
  stream : s.stream = ring size n buffer 0 u 0 r
  length : buffer.length = size * n
  room : u + r ≤ n
  obtained : s.obtained = []
  peeked : s.peeked = []
  committed : s.committed.map Prod.fst =
    (List.range u).map fun j => (block size n (j + 1)).deref
  held : s.held.map Prod.fst =
    (List.range r).map fun j => (block size n (u + j + 1)).deref

theorem slot_end_le {size n k l : Nat} (hl : l = size * n) (hk : k < n) :
    (k + 1) * size ≤ l := by
  rw [hl, Nat.mul_comm size n]
  exact Nat.mul_le_mul_right size hk

namespace Unread

variable {size n u r : Nat} {buffer : List UInt8} {s : Session}

theorem length_committed (h : Unread size n u r buffer s) : s.committed.length = u := by
  have hlen := congrArg List.length h.committed
  rwa [List.length_map, List.length_map, List.length_range] at hlen

theorem length_held (h : Unread size n u r buffer s) : s.held.length = r := by
  have hlen := congrArg List.length h.held
  rwa [List.length_map, List.length_map, List.length_range] at hlen

theorem inOrder (h : Unread size n u r buffer s) : InOrder s := by
  refine ⟨?_, ?_⟩
  · rw [h.obtained, h.peeked]
    exact List.nil_prefix
  · rw [h.obtained, h.stream, h.length_committed]
    exact Nat.zero_add u

theorem apart (h : Unread size n u r buffer s) (hn : 0 < n) (hlt : n < 2 ^ 32)
    (op : ZeroCopyOp size) (hres : Reserves s op) : Apart s op := by
  cases op with
  | reserve data =>
      have hfree := (reserves_iff hn hlt h.stream h.room).1 hres
      intro c hc hoverlap
      have hc : c.1 ∈ s.committed.map Prod.fst :=
        List.mem_map_of_mem (List.mem_of_mem_drop hc)
      rw [h.committed] at hc
      obtain ⟨j, hj, hspan⟩ := List.mem_map.1 hc
      have hj := List.mem_range.1 hj
      rw [h.stream, reserve_ring hn hlt hfree, ← hspan] at hoverlap
      -- the two blocks are less than a turn apart
      have hne : (0 + u + r + 1) % n ≠ (j + 1) % n := by
        intro heq
        rw [show 0 + u + r + 1 = j + 1 + (u + r - j) by omega,
          add_mod_eq_self (by omega)] at heq
        omega
      exact not_overlap_block hne hoverlap
  | _ => trivial

/-- A call in step finds nothing to read, or it is one of the writer's. -/
theorem step (h : Unread size n u r buffer s) (hn : 1 < n) (hlt : n < 2 ^ 32)
    (op : ZeroCopyOp size) (hres : Reserves s op) (hrule : InStep s op) :
    Unread size n (counts op u r).1 (counts op u r).2 (filled op n u r buffer)
      (s.step op) := by
  have hroom := h.room
  have hone : (ring size n buffer 0 u 0 r).blockCount ≠ 1 := Nat.ne_of_gt hn
  cases op with
  | reserve data =>
      have hfree := (reserves_iff (Nat.lt_of_succ_lt hn) hlt h.stream hroom).1 hres
      have hcall := @step_reserve size s data _ _ _ _ (h.stream ▸
        @reserve_ring size n buffer 0 u 0 r (Nat.lt_of_succ_lt hn) hlt hfree)
      have hend := @slot_end_le size n ((u + r + 1) % n) _ h.length
        (Nat.mod_lt _ (Nat.lt_of_succ_lt hn))
      rw [Nat.add_one_mul] at hend
      rw [hcall, Nat.zero_add]
      refine ⟨rfl, ?_, hfree, h.obtained, h.peeked, h.committed, ?_⟩
      · exact (length_patch (by rw [data.property]; exact hend)).trans h.length
      · show (s.held ++ [_]).map _ = (List.range (r + 1)).map _
        rw [List.map_append, h.held, List.range_succ, List.map_append]
        rfl
  | commit =>
      refine ⟨?_, h.length, hroom, h.obtained, h.peeked, ?_, rfl⟩
      · rw [Session.step, h.stream]
        exact commit_ring (by omega)
      · show (s.committed ++ s.held).map _ = (List.range (u + r)).map _
        rw [List.map_append, h.committed, h.held, List.range_add, List.map_append,
          List.map_map]
        rfl
  | release =>
      refine ⟨?_, h.length, Nat.le_trans (Nat.le_add_right u r) hroom, h.obtained,
        h.peeked, h.committed, rfl⟩
      rw [Session.step, h.stream]
      exact release_ring
  | peek =>
      rw [InStep, h.stream] at hrule
      have hzero : u ≤ 0 := Nat.le_of_eq (hrule.resolve_right hone)
      rw [step_peek (h.stream ▸ peek_ring_none hzero), if_neg (by decide),
        List.append_nil]
      exact h
  | consume =>
      refine ⟨?_, h.length, hroom, ?_, rfl, h.committed, h.held⟩
      · rw [Session.step, h.stream]
        exact consume_ring (Nat.zero_le u)
      · rw [Session.step, h.obtained, h.peeked]
        rfl
  | unpeek =>
      refine ⟨?_, h.length, hroom, h.obtained, rfl, h.committed, h.held⟩
      rw [Session.step, h.stream]
      exact unpeek_ring
  | pop span =>
      rw [InStep, h.stream] at hrule
      have hnone : span.dataSize ≠ size ∨ u = 0 := by
        by_cases hsize : span.dataSize = size
        · exact .inr ((hrule hsize).resolve_right fun hn => hone hn.1)
        · exact .inl hsize
      obtain ⟨hdata, hnext⟩ := @pop_ring_none size n buffer 0 u 0 r span
        (Nat.zero_le n) (hnone.imp_right .inr)
      rw [step_pop, h.stream, hdata, hnext, Option.toList_none, List.append_nil]
      exact ⟨rfl, h.length, hroom, h.obtained, h.peeked, h.committed, h.held⟩

end Unread


/-! ## More blocks, and a writer that shows the lag -/

/-- The first block committed gets one content, and every other reservation the
content the ring began with. -/
def refill {size : Nat} (fresh stale : Block size) (u r : Nat) :
    ZeroCopyOp size → ZeroCopyOp size
  | .reserve _ => .reserve (if u + r = 0 then fresh else stale)
  | op => op

/-- A session with such a writer: the reader would get the old content. -/
structure Stale (size n u r : Nat) (fresh stale : Block size) (buffer : List UInt8)
    (s : Session) : Prop extends Unread size n u r buffer s where
  old : slot size buffer 0 = stale.val
  first : ∀ d ∈ ((s.committed ++ s.held).map Prod.snd).head?, d = fresh.val

section

variable {size n u r : Nat} {fresh stale : Block size} {buffer : List UInt8}
  {s : Session}

@[simp] theorem erase_refill {op : ZeroCopyOp size} :
    (refill fresh stale u r op).erase = op.erase := by
  cases op <;> rfl

@[simp] theorem counts_refill {op : ZeroCopyOp size} :
    counts (refill fresh stale u r op) u r = counts op u r := by
  cases op <;> rfl

/-- Whether a call is granted, and in step, is a matter of the counters. -/
theorem Unread.congr {t : Session} {buffer' : List UInt8} {op : ZeroCopyOp size}
    (hn : 0 < n) (hlt : n < 2 ^ 32) (hs : Unread size n u r buffer s)
    (ht : Unread size n u r buffer' t) :
    (Reserves t (refill fresh stale u r op) ↔ Reserves s op) ∧
      (InStep t (refill fresh stale u r op) ↔ InStep s op) := by
  cases op with
  | reserve data =>
      refine ⟨?_, Iff.rfl⟩
      rw [refill, reserves_iff hn hlt hs.stream hs.room,
        reserves_iff hn hlt ht.stream ht.room]
  | peek =>
      refine ⟨Iff.rfl, ?_⟩
      show InStep t .peek ↔ InStep s .peek
      rw [InStep, InStep, hs.stream, ht.stream]
      rfl
  | pop span =>
      refine ⟨Iff.rfl, ?_⟩
      show InStep t (.pop span) ↔ InStep s (.pop span)
      rw [InStep, InStep, hs.stream, ht.stream]
      rfl
  | _ => exact ⟨Iff.rfl, Iff.rfl⟩

theorem Stale.step (h : Stale size n u r fresh stale buffer s) (hn : 1 < n)
    (hlt : n < 2 ^ 32) (op : ZeroCopyOp size)
    (hres : Reserves s (refill fresh stale u r op))
    (hrule : InStep s (refill fresh stale u r op)) :
    Stale size n (counts op u r).1 (counts op u r).2 fresh stale
      (filled (refill fresh stale u r op) n u r buffer)
      (s.step (refill fresh stale u r op)) := by
  have hnext := h.toUnread.step hn hlt _ hres hrule
  rw [counts_refill] at hnext
  refine ⟨hnext, ?_, ?_⟩
  · cases op with
    | reserve data =>
        have hend := @slot_end_le size n ((u + r + 1) % n) _ h.length
          (Nat.mod_lt _ (Nat.lt_of_succ_lt hn))
        have hsize := (if u + r = 0 then fresh else stale).property
        rw [refill, filled]
        by_cases hslot : (u + r + 1) % n = 0
        · have hlater : u + r ≠ 0 := by
            intro hzero
            rw [hzero, Nat.zero_add, Nat.mod_eq_of_lt hn] at hslot
            exact absurd hslot (by decide)
          have hsame := slot_patch_same hsize hend
          rw [hslot, if_neg hlater] at *
          exact hsame
        · rw [slot_patch_ne hsize hend (Ne.symm hslot)]
          exact h.old
    | _ => exact h.old
  · have hfirst := h.first
    cases op with
    | reserve data =>
        have hfree := (reserves_iff (Nat.lt_of_succ_lt hn) hlt h.stream h.room).1 hres
        rw [refill, step_reserve (h.stream ▸
          reserve_ring (Nat.lt_of_succ_lt hn) hlt hfree)]
        show ∀ d ∈ ((s.committed ++ (s.held ++ [((block size n (0 + u + r + 1)).deref,
          (if u + r = 0 then fresh else stale).val)])).map Prod.snd).head?, d = fresh.val
        rw [← List.append_assoc, List.map_append]
        by_cases hempty : u + r = 0
        · have hnil : s.committed ++ s.held = [] := by
            rw [← List.length_eq_zero_iff, List.length_append, h.length_committed,
              h.length_held, hempty]
          intro d hd
          rw [hnil, if_pos hempty] at hd
          exact (Option.mem_some_iff.1 hd).symm
        · have hcons : (s.committed ++ s.held).map Prod.snd ≠ [] := by
            rw [Ne, ← List.length_eq_zero_iff, List.length_map, List.length_append,
              h.length_committed, h.length_held]
            exact hempty
          rw [List.head?_append_of_ne_nil _ hcons]
          exact hfirst
    | commit =>
        show ∀ d ∈ (((s.committed ++ s.held) ++ []).map Prod.snd).head?, d = fresh.val
        rw [List.append_nil]
        exact hfirst
    | release =>
        show ∀ d ∈ ((s.committed ++ []).map Prod.snd).head?, d = fresh.val
        rw [List.append_nil]
        intro d hd
        refine hfirst d ?_
        cases hc : s.committed with
        | nil =>
            rw [hc] at hd
            exact absurd hd (Option.not_mem_none d)
        | cons c cs =>
            rw [hc] at hd
            exact hd
    | peek =>
        rw [show refill fresh stale u r .peek = .peek from rfl,
          @step_peek size s _ _ _ _ rfl]
        exact hfirst
    | _ => exact hfirst

/-- The first block read is the old one. -/
theorem Stale.read (h : Stale size n u r fresh stale buffer s) (hn : 1 < n)
    (hlt : n < 2 ^ 32) (hne : fresh.val ≠ stale.val) {op : ZeroCopyOp size}
    (hrule : ¬ InStep s op) :
    ¬ InOrder (s.step op) := by
  -- the first committed content is not what block 0 holds
  have hlag : 0 < u → ¬ [stale.val] <+: s.committed.map Prod.snd := by
    intro hu hprefix
    obtain ⟨rest, hrest⟩ := hprefix
    refine hne (h.first stale.val ?_).symm
    rw [List.map_append, ← hrest]
    rfl
  have hused : u < 2 ^ 32 := by
    have hroom := h.room
    omega
  have hold : slot size buffer (0 % n) = stale.val := by
    rw [Nat.zero_mod]
    exact h.old
  cases op with
  | peek =>
      rw [InStep, h.stream] at hrule
      have hu : 0 < u := Nat.pos_of_ne_zero fun hzero => hrule (.inl hzero)
      have hstep := @step_peek size s _ _ _ _ (h.stream ▸
        @peek_ring size n buffer 0 u 0 r (Nat.lt_of_succ_lt hn) hused hu)
      intro horder
      have hread : s.obtained ++ (s.peeked ++ [(block size n 0).deref]).map
          (ring size n buffer 0 u 1 r).read <+: s.committed.map Prod.snd := by
        have hcontents := horder.contents
        rw [hstep] at hcontents
        exact hcontents
      rw [h.obtained, h.peeked] at hread
      refine hlag hu ?_
      rw [← hold]
      exact hread
  | pop span =>
      rw [InStep, h.stream] at hrule
      obtain ⟨hsize, hrest⟩ := Classical.not_imp.1 hrule
      have hu : 0 < u := Nat.pos_of_ne_zero fun hzero => hrest (.inl hzero)
      obtain ⟨hdata, _⟩ := @pop_ring size n buffer 0 u 0 r (Nat.lt_of_succ_lt hn) span
        hsize (.inr (.inl rfl)) hu (Nat.zero_le n)
      intro horder
      have hread := horder.contents
      rw [step_pop, h.stream, hdata, h.obtained, h.peeked, hold] at hread
      exact hlag hu hread
  | _ => exact absurd trivial hrule

/-- A session that is once out of step breaks the order with some contents. -/
theorem exists_broken (hn : 1 < n) (hlt : n < 2 ^ 32) (hne : fresh.val ≠ stale.val) :
    ∀ {ops : List (ZeroCopyOp size)} {u r : Nat} {buffer buffer' : List UInt8}
      {s t : Session}, Unread size n u r buffer s →
      Stale size n u r fresh stale buffer' t →
      EveryStep Reserves Session.step s ops → ¬ EveryStep InStep Session.step s ops →
      ∃ ops' : List (ZeroCopyOp size),
        ops'.map ZeroCopyOp.erase = ops.map ZeroCopyOp.erase ∧
        ¬ EveryStep Fifo Session.step t ops' := by
  intro ops
  induction ops with
  | nil => intro u r buffer buffer' s t _ _ _ hrun; exact absurd trivial hrun
  | cons op ops ih =>
      intro u r buffer buffer' s t hs ht hres hrun
      obtain ⟨hres, hresRest⟩ := hres
      obtain ⟨hresCongr, hruleCongr⟩ :=
        @Unread.congr size n u r fresh stale buffer s t buffer' op
          (Nat.lt_of_succ_lt hn) hlt hs ht.toUnread
      by_cases hrule : InStep s op
      · have hs' := hs.step hn hlt op hres hrule
        have ht' := ht.step hn hlt op (hresCongr.2 hres) (hruleCongr.2 hrule)
        obtain ⟨ops', herase, hbroken⟩ :=
          ih hs' ht' hresRest fun hrest => hrun ⟨hrule, hrest⟩
        refine ⟨refill fresh stale u r op :: ops', ?_, fun h => hbroken h.2⟩
        rw [List.map_cons, List.map_cons, erase_refill, herase]
      · refine ⟨refill fresh stale u r op :: ops, ?_, fun h => ?_⟩
        · rw [List.map_cons, List.map_cons, erase_refill]
        · exact ht.read hn hlt hne (fun h => hrule (hruleCongr.1 h)) h.1.2

end

/-! ## Sessions from the beginning -/

theorem unread_start {size : Nat} {allocator : Allocator} {bufferingSize : UInt32} :
    Unread size bufferingSize.toNat 0 0
      (allocator.allocate (size * bufferingSize.toNat))
      (Session.start (Stream.create allocator size bufferingSize)) :=
  ⟨create_eq_ring, allocator.length_allocate _, Nat.zero_le _, rfl, rfl, rfl, rfl⟩

theorem single_start {size : Nat} {allocator : Allocator} {bufferingSize : UInt32}
    (hone : bufferingSize.toNat = 1) :
    Single size 0 0 0 0 (allocator.allocate (size * bufferingSize.toNat))
      (Session.start (Stream.create allocator size bufferingSize)) := by
  refine ⟨?_, ?_, Nat.le_refl 0, Nat.zero_le 1, rfl, rfl, rfl⟩
  · rw [← hone]
    exact create_eq_ring
  · rw [allocator.length_allocate, hone, Nat.mul_one]

theorem exists_ne {size : Nat} (hsize : 0 < size) (stale : Block size) :
    ∃ fresh : Block size, fresh.val ≠ stale.val := by
  obtain ⟨data, hdata⟩ := stale
  cases data with
  | nil => exact absurd hdata (Nat.ne_of_lt hsize)
  | cons x xs =>
      refine ⟨⟨(x + 1) :: xs, hdata⟩, fun h => ?_⟩
      have hx := congrArg UInt8.toNat (List.cons.inj h).1
      rw [UInt8.toNat_add] at hx
      have hbyte := x.toNat_lt
      have hone : (1 : UInt8).toNat = 1 := rfl
      omega

/-- A session in step is a FIFO; and where the calls of a session are out of step,
the writer can fill the spans so that it is not. -/
theorem zeroCopy_fifo_iff {size : Nat} {allocator : Allocator} {bufferingSize : UInt32}
    {ops : List (ZeroCopyOp size)} (h : 0 < bufferingSize)
    (hres : EveryStep Reserves Session.step
      (Session.start (Stream.create allocator size bufferingSize)) ops) :
    (EveryStep InStep Session.step
        (Session.start (Stream.create allocator size bufferingSize)) ops →
      EveryStep Fifo Session.step
        (Session.start (Stream.create allocator size bufferingSize)) ops) ∧
    (0 < size →
      (∀ ops' : List (ZeroCopyOp size),
        ops'.map ZeroCopyOp.erase = ops.map ZeroCopyOp.erase →
        EveryStep Fifo Session.step
          (Session.start (Stream.create allocator size bufferingSize)) ops') →
      EveryStep InStep Session.step
        (Session.start (Stream.create allocator size bufferingSize)) ops) := by
  have hn : 0 < bufferingSize.toNat := UInt32.lt_iff_toNat_lt.1 h
  have hlt := bufferingSize.toNat_lt
  rcases Nat.eq_or_lt_of_le (show 1 ≤ bufferingSize.toNat from hn) with hone | hmany
  · have hrun := @everyStep_congr _ _
      (fun s => ∃ a u p r buffer, Single size a u p r buffer s)
      (fun s (op : ZeroCopyOp size) => Reserves s op ∧ Fifo s op)
      (fun s op => Reserves s op ∧ InStep s op) Session.step
      (fun s op ⟨_, _, _, _, _, hs⟩ => by
        refine and_congr_right fun hres =>
          ⟨hs.inStep op, fun hrule => ⟨hs.apart op hres, ?_⟩⟩
        obtain ⟨_, _, _, _, _, hnext⟩ := hs.step op hres hrule
        exact hnext.inOrder)
      (fun s op ⟨_, _, _, _, _, hs⟩ hrule => hs.step op hrule.1 hrule.2)
      ops _ ⟨0, 0, 0, 0, _, @single_start size allocator bufferingSize hone.symm⟩
    rw [everyStep_and, everyStep_and, and_congr_right_iff] at hrun
    exact ⟨(hrun hres).2, fun _ hall => (hrun hres).1 (hall ops rfl)⟩
  · refine ⟨fun hrule => ?_, fun hsize hall => ?_⟩
    · exact (@everyStep_of_rule _ _
        (fun s => ∃ u r buffer, Unread size bufferingSize.toNat u r buffer s)
        Fifo (fun s (op : ZeroCopyOp size) => Reserves s op ∧ InStep s op) Session.step
        (fun s op ⟨_, _, _, hs⟩ hop => ⟨hs.apart hn hlt op hop.1,
          (hs.step hmany hlt op hop.1 hop.2).inOrder⟩)
        (fun s op ⟨_, _, _, hs⟩ hop => ⟨_, _, _, hs.step hmany hlt op hop.1 hop.2⟩)
        ops _ ⟨0, 0, _, unread_start⟩ (everyStep_and.2 ⟨hres, hrule⟩)).1
    · by_contra hrule
      have hunread := @unread_start size allocator bufferingSize
      have hlen := length_slot (slot_end_le hunread.length hn)
      obtain ⟨fresh, hne⟩ := exists_ne hsize ⟨slot size _ 0, hlen⟩
      obtain ⟨ops', herase, hbroken⟩ := exists_broken hmany hlt hne hunread
        ⟨hunread, rfl, fun d hd => absurd hd (Option.not_mem_none d)⟩ hres hrule
      exact hbroken (hall ops' herase)

theorem zeroCopy_fifo_one :
    EveryStep Fifo Session.step
      (Session.start (Stream.create standardStreamAllocator 1 1))
      [.reserve ⟨[7], rfl⟩, .commit, .peek, .consume, .reserve ⟨[8], rfl⟩, .release,
        .reserve ⟨[9], rfl⟩, .commit, .pop ⟨.caller, 0, 1⟩] :=
  (zeroCopy_fifo_iff (show (0 : UInt32) < 1 by decide) (by decide)).1 (by decide)

/-- Two blocks: the reader is shown the byte the ring was allocated with. -/
theorem zeroCopy_lag :
    ¬ EveryStep Fifo Session.step
      (Session.start (Stream.create standardStreamAllocator 1 2))
      [.reserve ⟨[7], rfl⟩, .commit, (.peek : ZeroCopyOp 1)] :=
  fun h => absurd h.2.2.1.2.contents (by decide)

end MuditaOS.Audio
