import MuditaOS.Proofs.UserMemInvariant

/-!
# Runs of the user heap

Resizing is an allocation, a copy into the new block and a freeing. With one
lemma a call, the invariant holds along every run of permitted calls, and every
permitted call returns.
-/

namespace MuditaOS.Memory

open Lib

variable {area : HeapArea}

/-! ## Resizing -/

section Resizing

variable {heap : UserMem} {free before behind : List Block} {c : Block} {n : Nat}

theorem taken_guards (h : Heaped area heap free (before ++ c :: behind)) :
    heap.mem.xBlockSize c.addr &&& 2 ^ 31 ≠ 0 ∧
      heap.mem.pxNextFreeBlock c.addr = 0 ∧
      heap.mem.xBlockSize c.addr - 2 ^ 31 = c.size := by
  have hc : c ∈ before ++ c :: behind := by simp
  obtain ⟨hsize, hnext, -⟩ := h.takenHeader c hc
  rw [hsize]
  exact ⟨topBit_set (size_lt h.layout (List.mem_append_right _ hc)), hnext,
    Nat.add_sub_cancel _ _⟩

/-- Resizing a taken block returns it if its size with the header is large
enough, fails if an allocation fails, and else moves the block, reading as many
bytes as its size with the header. -/
theorem userrealloc_spec (h : Heaped area heap free (before ++ c :: behind))
    (hn : n < 2 ^ 32) :
    (n ≤ c.size ∧ heap.userrealloc area (c.addr + 32) n =
      some (c.addr + 32, none, heap)) ∨
    (c.size < n ∧ (∀ b ∈ free, b.size < wantedSize n) ∧
      heap.userrealloc area (c.addr + 32) n = some (0, none, heap)) ∨
    ∃ (heap' : UserMem) (free' : List Block) (d : Block), c.size < n ∧
      (∃ b ∈ free, wantedSize n ≤ b.size) ∧
      heap.userrealloc area (c.addr + 32) n =
        some (d.addr + 32, some (c.addr + 32, c.size), heap') ∧
      n + 32 ≤ d.size ∧ d.Apart c ∧
      Heaped area heap' free' (before ++ behind ++ [d]) ∧
      ∀ k, k < c.size - 32 →
        heap'.mem.word (d.addr + 32 + k) = heap.mem.word (c.addr + 32 + k) := by
  obtain ⟨hbit, hnext, hsize⟩ := taken_guards h
  have hne : c.addr + 32 ≠ 0 := by omega
  have hlink : c.addr + 32 - xHeapStructSize = c.addr := rfl
  rw [UserMem.userrealloc, if_pos hne]
  simp only [hlink, h.topBit, hnext, hbit, hsize, ne_eq, not_false_eq_true,
    guard_true, Option.pure_def, Option.bind_eq_bind, Option.bind_some]
  by_cases hle : n ≤ c.size
  · rw [if_pos hle]
    exact .inl ⟨hle, rfl⟩
  · rw [if_neg hle]
    have hlt : c.size < n := by omega
    rcases usermalloc_spec h hn with ⟨hmalloc, hfail⟩ |
        ⟨heap₁, free₁, d, hmalloc, -, hroom, hfits, hheaped₁, hout₁⟩
    · rw [hmalloc, Option.bind_some]
      simp only [if_true]
      rcases hfail with hzero | hsmall
      · omega
      · exact .inr (.inl ⟨hlt, hsmall, trivial⟩)
    · rw [hmalloc, Option.bind_some]
      have hd : d ∈ (before ++ c :: behind) ++ [d] := by simp
      have hc : c ∈ (before ++ c :: behind) ++ [d] := by simp
      have hdc : d.Apart c := by
        have hpair := (List.pairwise_append.1 hheaped₁.layout.apart).2.2
        exact (hpair c (by simp) d List.mem_cons_self).symm
      -- The copy stays behind the header of the new block.
      have hcopied := @Heaped.write area heap₁ free₁ _ hheaped₁
        (heap₁.mem.memcpy (d.addr + 32) (c.addr + 32) c.size) (by
          intro w hw
          refine if_neg fun hin => ?_
          have := hw d hd
          simp only [Block.stop] at this
          omega)
      have hassoc : (before ++ c :: behind) ++ [d] = before ++ c :: (behind ++ [d]) := by
        simp
      rw [hassoc] at hcopied
      obtain ⟨heap₂, free₂, hfree, hheaped₂, hout₂⟩ := userfree_spec hcopied
      rw [← List.append_assoc] at hheaped₂
      have hne' : ¬ d.addr + 32 = 0 := by omega
      simp only [hne', if_false, hfree, Option.bind_some]
      refine .inr (.inr ⟨heap₂, free₂, d, hlt, hfits, rfl, hroom, hdc, hheaped₂, ?_⟩)
      intro k hk
      have hdmem : d ∈ before ++ behind ++ [d] := by simp
      have hdout : Outside area (c :: free₁) (d.addr + 32 + k) := by
        refine ⟨fun hheld => ?_, ?_⟩
        · have hin : d.Holds (d.addr + 32 + k) := by
            simp only [Block.Holds, Block.stop]
            omega
          rcases held_cons.1 hheld with hcw | ⟨b, hb, hbw⟩
          · exact hdc.not_holds hin hcw
          · exact (hheaped₁.layout.cross b hb d hd).not_holds hbw hin
        · rw [Nat.add_assoc]
          exact (outside_taken hheaped₁.layout hd (by omega)).2
      have hcout : Outside area free (c.addr + (32 + k)) :=
        outside_taken h.layout (by simp) (by omega)
      rw [hout₂ _ hdout]
      have hcopy : (heap₁.mem.memcpy (d.addr + 32) (c.addr + 32) c.size).word
          (d.addr + 32 + k) = heap₁.mem.word (c.addr + 32 + k) := by
        refine (if_pos (by omega)).trans ?_
        rw [Nat.add_sub_cancel_left]
      rw [hcopy, Nat.add_assoc, hout₁ _ hcout]

end Resizing

/-! ## One call -/

/-- The pointer handed out for a block. -/
def pointer (b : Block) : Nat := b.addr + 32

/-- The invariant of a session, with its blocks. -/
def Holding (area : HeapArea) (s : HeapSession) (free taken : List Block) : Prop :=
  Heaped area s.heap free taken ∧ s.live = taken.map pointer

theorem live_split {s : HeapSession} {free taken : List Block} {pv : Nat}
    (h : Holding area s free taken) (hpv : pv ∈ s.live) :
    ∃ before c behind, taken = before ++ c :: behind ∧ pv = c.addr + 32 ∧
      s.live.erase pv = (before ++ behind).map pointer := by
  obtain ⟨hheaped, hlive⟩ := h
  rw [hlive] at hpv ⊢
  obtain ⟨c, hc, rfl⟩ := List.mem_map.1 hpv
  obtain ⟨before, behind, rfl⟩ := List.append_of_mem hc
  refine ⟨before, c, behind, rfl, rfl, ?_⟩
  have hpos : ∀ t ∈ before ++ c :: behind, 0 < t.size :=
    fun t ht => (hheaped.layout.granular t (List.mem_append_right _ ht)).2.2
  have hnot : pointer c ∉ before.map pointer := by
    intro hmem
    obtain ⟨t, ht, heq⟩ := List.mem_map.1 hmem
    have hapart := (List.pairwise_append.1 hheaped.layout.apart).2.2 t ht c
      List.mem_cons_self
    have := hpos t (by simp [ht])
    have := hpos c (by simp)
    simp only [pointer, Block.Apart, Block.stop] at *
    omega
  rw [List.map_append, List.map_cons, List.erase_append_right _ hnot,
    List.erase_cons_head, List.map_append]

theorem holding_fresh {s : HeapSession} {free : List Block} {taken : List Block}
    (h : Holding area s free taken) : 0 ∉ s.live := by
  rw [h.2]
  intro hmem
  obtain ⟨t, -, heq⟩ := List.mem_map.1 hmem
  simp only [pointer] at heq
  omega

/-- A permitted call returns and keeps the invariant. -/
theorem step_holding {s : HeapSession} {free taken : List Block} {call : HeapCall}
    (h : Holding area s free taken) (hcall : s.Permitted call) :
    ∃ s' free' taken', s.step area call = some s' ∧ Holding area s' free' taken' := by
  have hallocate : ∀ {n : Nat}, n < 2 ^ 32 →
      ∃ pv heap' free' taken', s.heap.usermalloc area n = some (pv, heap') ∧
        Holding area ⟨heap', HeapSession.hold pv s.live⟩ free' taken' := by
    intro n hn
    rcases usermalloc_spec h.1 hn with ⟨hmalloc, -⟩ |
        ⟨heap', free', c, hmalloc, -, -, -, hheaped, -⟩
    · exact ⟨0, s.heap, free, taken, hmalloc, h⟩
    · refine ⟨c.addr + 32, heap', free', taken ++ [c], hmalloc, hheaped, ?_⟩
      rw [HeapSession.hold, if_neg (by omega), h.2, List.map_append]
      rfl
  cases call with
  | usermalloc n =>
      obtain ⟨pv, heap', free', taken', hmalloc, hholding⟩ := hallocate hcall
      refine ⟨_, free', taken', ?_, hholding⟩
      rw [HeapSession.step, hmalloc]
      rfl
  | userfree pv =>
      obtain ⟨before, c, behind, rfl, rfl, herase⟩ := live_split h hcall
      obtain ⟨heap', free', hfree, hheaped, -⟩ := userfree_spec h.1
      refine ⟨⟨heap', s.live.erase (c.addr + 32)⟩, free', before ++ behind, ?_,
        hheaped, herase⟩
      rw [HeapSession.step, hfree]
      rfl
  | userrealloc pv n =>
      obtain ⟨hpv, hn⟩ := hcall
      rcases hpv with rfl | hpv
      · obtain ⟨pv, heap', free', taken', hmalloc, hholding⟩ := hallocate hn
        refine ⟨_, free', taken', ?_, hholding⟩
        rw [HeapSession.step, UserMem.userrealloc, if_neg (by simp), hmalloc]
        rw [List.erase_of_not_mem (holding_fresh h)]
        by_cases hzero : pv = 0 <;> simp [hzero, HeapSession.hold]
      · obtain ⟨before, c, behind, rfl, rfl, herase⟩ := live_split h hpv
        have hzero : ¬ c.addr + 32 = 0 := by omega
        rcases userrealloc_spec h.1 hn with ⟨-, hrealloc⟩ | ⟨-, -, hrealloc⟩ |
            ⟨heap', free', d, -, -, hrealloc, -, hapart, hheaped, -⟩
        · refine ⟨s, free, _, ?_, h⟩
          rw [HeapSession.step, hrealloc]
          simp
        · refine ⟨s, free, _, ?_, h⟩
          rw [HeapSession.step, hrealloc]
          simp
        · refine ⟨⟨heap', s.live.erase (c.addr + 32) ++ [d.addr + 32]⟩, free', _, ?_,
            hheaped, ?_⟩
          · have hc : c ∈ free ++ (before ++ c :: behind) := by simp
            have hne : ¬ d.addr + 32 = c.addr + 32 := by
              have := (h.1.layout.granular c hc).2.2
              have := (hheaped.layout.granular d (by simp)).2.2
              simp only [Block.Apart, Block.stop] at hapart
              omega
            have hne' : ¬ d.addr + 32 = 0 := by omega
            have hmove : ¬ (d.addr + 32 = 0 ∨ d.addr + 32 = c.addr + 32) :=
              not_or.2 ⟨hne', hne⟩
            rw [HeapSession.step, hrealloc]
            simp only [Option.bind_eq_bind, Option.bind_some, if_neg hmove,
              HeapSession.hold, if_neg hne']
          · have hmap := @List.map_append _ _ pointer (before ++ behind) [d]
            rw [hmap, ← herase]
            rfl

/-! ## Every run -/

theorem reaches_holding {mem : Words} {calls : List HeapCall} {s : HeapSession}
    (h : HeapSession.Reaches area mem calls s) :
    ∃ free taken, Holding area s free taken := by
  induction h with
  | start =>
      obtain ⟨free, hheaped⟩ := @prvHeapInit_heaped area mem
      exact ⟨free, [], hheaped, rfl⟩
  | call before permitted result ih =>
      obtain ⟨free, taken, hholding⟩ := ih
      obtain ⟨s', free', taken', hstep, hholding'⟩ := step_holding hholding permitted
      rw [hstep, Option.some.injEq] at result
      exact ⟨free', taken', result ▸ hholding'⟩

theorem reaches_of_run {mem : Words} {calls : List HeapCall} :
    ∀ {past : List HeapCall} {s s' : HeapSession},
      HeapSession.Reaches area mem past s → s.run area calls = some s' →
      HeapSession.Reaches area mem (past ++ calls) s' := by
  induction calls with
  | nil =>
      intro past s s' hpast hrun
      rw [HeapSession.run, Option.some.injEq] at hrun
      rw [List.append_nil, ← hrun]
      exact hpast
  | cons c calls ih =>
      intro past s s' hpast hrun
      rw [HeapSession.run] at hrun
      split at hrun
      · next hpermitted =>
          obtain ⟨s₁, hstep, hrest⟩ := Option.bind_eq_some_iff.1 hrun
          rw [List.append_cons]
          exact ih (hpast.call hpermitted hstep) hrest
      · exact absurd hrun (by simp)

/-- What the heap looks like between calls: the free list in memory, in address
order and without neighbours, and the blocks of the live pointers together tile
the bytes up to the end marker. -/
structure HeapSession.Sound (area : HeapArea) (s : HeapSession) : Prop where
  chained : Linked s.heap.mem s.heap.pxUserEnd
    (area.head :: s.heap.freeBlocks area)
  layout : Layout usermemBYTE_ALIGNMENT area.userUcHeap s.heap.pxUserEnd
    (s.heap.freeBlocks area) (s.live.map s.heap.blockOf)
  remaining : s.heap.xUserFreeBytesRemaining = sizes (s.heap.freeBlocks area)
  aligned : ∀ pv ∈ s.live, usermemBYTE_ALIGNMENT ∣ pv ∧
    (s.heap.blockOf pv).addr + xHeapStructSize = pv

theorem freeBlocks_eq {heap : UserMem} {free taken : List Block}
    (h : Heaped area heap free taken) : heap.freeBlocks area = free := by
  rw [UserMem.freeBlocks]
  refine blocksBehind_eq (b := area.head) ?_ (fuel_enough h.layout) fun c hc => ?_
  · rw [h.atEnd]
    exact h.linked
  · rw [h.atEnd]
    exact addr_ne_end h.layout (List.mem_append_left _ hc)

theorem blockOf_pointer {heap : UserMem} {free taken : List Block}
    (h : Heaped area heap free taken) {t : Block} (ht : t ∈ taken) :
    heap.blockOf (pointer t) = t := by
  have hlink : pointer t - xHeapStructSize = t.addr := rfl
  rw [UserMem.blockOf, hlink, (h.takenHeader t ht).1, h.topBit, Nat.add_sub_cancel]

theorem Holding.sound {s : HeapSession} {free taken : List Block}
    (h : Holding area s free taken) : s.Sound area := by
  obtain ⟨hheaped, hlive⟩ := h
  have hblocks : s.live.map s.heap.blockOf = taken := by
    rw [hlive, List.map_map]
    conv => rhs; rw [← List.map_id taken]
    exact List.map_congr_left fun t ht => blockOf_pointer hheaped ht
  have hfree := freeBlocks_eq hheaped
  refine ⟨?_, ?_, ?_, fun pv hpv => ?_⟩
  · rw [hfree, hheaped.atEnd]
    exact hheaped.linked
  · rw [hfree, hblocks, hheaped.atEnd]
    exact hheaped.layout
  · rw [hfree]
    exact hheaped.remaining
  · rw [hlive] at hpv
    obtain ⟨t, ht, rfl⟩ := List.mem_map.1 hpv
    rw [blockOf_pointer hheaped ht]
    refine ⟨?_, rfl⟩
    have := (hheaped.layout.granular t (List.mem_append_right _ ht)).1
    simp only [usermemBYTE_ALIGNMENT, pointer]
    omega

/-- After every run of permitted calls the heap is sound, and the next permitted
call returns. -/
theorem userHeap_sound (area : HeapArea) (mem : Words) (calls : List HeapCall)
    (s : HeapSession) (h : HeapSession.Reaches area mem calls s) :
    s.Sound area ∧ ∀ call, s.Permitted call → (s.step area call).isSome := by
  obtain ⟨free, taken, hholding⟩ := reaches_holding h
  refine ⟨hholding.sound, fun call hcall => ?_⟩
  obtain ⟨s', free', taken', hstep, -⟩ := step_holding hholding hcall
  rw [hstep]
  rfl

/-! ### A heap of eight granules -/

def smallArea : HeapArea where
  userUcHeap := 4096
  USERMEM_TOTAL_HEAP_SIZE := 256
  xUserStart := 1024
  placed := by decide
  aligned := by decide
  whole := by decide
  nonempty := by decide
  topBitFree := by decide
  addressable := by decide
  startOutside := by decide

def blank : Words := ⟨fun _ => 0⟩

/-- Two blocks are taken and the first is given back. -/
theorem userHeap_sound_small :
    ∃ s, HeapSession.Reaches smallArea blank
        [.usermalloc 40, .usermalloc 10, .userfree 4128] s ∧
      s.live = [4224] ∧ s.Sound smallArea := by
  have hlive : ((HeapSession.start smallArea blank).run smallArea
      [.usermalloc 40, .usermalloc 10, .userfree 4128]).map HeapSession.live =
        some [4224] := by decide
  obtain ⟨s, hs, hslive⟩ := Option.map_eq_some_iff.1 hlive
  have h := reaches_of_run .start hs
  exact ⟨s, h, hslive, (userHeap_sound smallArea blank _ _ h).1⟩

end MuditaOS.Memory
