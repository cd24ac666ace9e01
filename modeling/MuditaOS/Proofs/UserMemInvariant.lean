import Mathlib.Data.Nat.Bitwise
import MuditaOS.Lib.Arena
import MuditaOS.Proofs.FreeList

/-!
# What holds of the heap after every call

`Heaped` ties the memory to a layout: the free list in memory links the free
blocks, every header says what its block is, and the free and the taken blocks
tile the bytes up to the end marker. Each call keeps it, and none stops at an
assertion or walks a list for too long.
-/

namespace MuditaOS.Memory

open Lib

variable {area : HeapArea}

/-! ## Sizes and the top bit -/

theorem mask_eq (x : Nat) : x &&& usermemBYTE_ALIGNMENT_MASK = x % 32 :=
  Nat.and_two_pow_sub_one_eq_mod x 5

theorem xHeapStructSize_eq : xHeapStructSize = 32 := rfl

theorem heapMINIMUM_BLOCK_SIZE_eq : heapMINIMUM_BLOCK_SIZE = 64 := rfl

/-- A request is rounded up to whole granules, header included. -/
theorem wantedSize_spec {n : Nat} (h : 0 < n) :
    32 ∣ wantedSize n ∧ n + 32 ≤ wantedSize n ∧ wantedSize n < n + 64 := by
  rw [wantedSize, if_pos h]
  simp only [mask_eq, xHeapStructSize_eq, usermemBYTE_ALIGNMENT]
  split <;> omega

theorem le_wantedSize (n : Nat) : n ≤ wantedSize n := by
  rcases Nat.eq_zero_or_pos n with rfl | h
  · exact Nat.zero_le _
  · exact Nat.le_trans (Nat.le_add_right _ _) (wantedSize_spec h).2.1

theorem topBit_clear {n : Nat} (h : n < 2 ^ 32) : n &&& 2 ^ 31 = 0 ↔ n < 2 ^ 31 := by
  rw [Nat.and_two_pow, Nat.testBit_eq_decide_div_mod_eq]
  simp only [Nat.mul_eq_zero, Bool.toNat_eq_zero, decide_eq_false_iff_not]
  omega

theorem topBit_or {n : Nat} (h : n < 2 ^ 31) : n ||| 2 ^ 31 = n + 2 ^ 31 := by
  have := Nat.two_pow_add_eq_or_of_lt h 1
  rw [Nat.or_comm, Nat.add_comm]
  simpa using this.symm

theorem topBit_set {n : Nat} (h : n < 2 ^ 31) : (n + 2 ^ 31) &&& 2 ^ 31 ≠ 0 := by
  intro h0
  have := (topBit_clear (by omega)).1 h0
  omega

/-! ## The invariant -/

namespace HeapArea

/-- Where the end marker is. -/
def heapEnd (area : HeapArea) : Nat :=
  area.userUcHeap + area.USERMEM_TOTAL_HEAP_SIZE - xHeapStructSize

/-- The list head, as the block of no size it is taken for. -/
def head (area : HeapArea) : Block := ⟨area.xUserStart, 0⟩

theorem bounds (area : HeapArea) :
    32 ∣ area.userUcHeap ∧ 32 ∣ area.USERMEM_TOTAL_HEAP_SIZE ∧
      area.heapEnd + 32 = area.userUcHeap + area.USERMEM_TOTAL_HEAP_SIZE ∧
      area.userUcHeap ≤ area.heapEnd := by
  have haligned := area.aligned
  have hwhole := area.whole
  have hpos := area.nonempty
  rw [heapEnd, xHeapStructSize_eq]
  simp only [usermemBYTE_ALIGNMENT] at *
  omega

end HeapArea

structure Heaped (area : HeapArea) (heap : UserMem) (free taken : List Block) :
    Prop where
  atEnd : heap.pxUserEnd = area.heapEnd
  topBit : heap.xBlockAllocatedBit = 2 ^ 31
  linked : Linked heap.mem area.heapEnd (area.head :: free)
  endSize : heap.mem.xBlockSize area.heapEnd = 0
  endNext : area.userUcHeap < area.heapEnd →
    heap.mem.pxNextFreeBlock area.heapEnd = 0
  freeStamp : ∀ b ∈ free, heap.mem.ulStamp b.addr = INTEGRITY_STAMP_FREE
  takenHeader : ∀ b ∈ taken, heap.mem.xBlockSize b.addr = b.size + 2 ^ 31 ∧
    heap.mem.pxNextFreeBlock b.addr = 0 ∧
    heap.mem.ulStamp b.addr = INTEGRITY_STAMP_TAKEN
  layout : Layout 32 area.userUcHeap area.heapEnd free taken
  remaining : heap.xUserFreeBytesRemaining = sizes free

/-! ## Where headers are -/

/-- The word is in none of the blocks, nor in the list head. -/
def Outside (area : HeapArea) (bs : List Block) (w : Nat) : Prop :=
  ¬ Held bs w ∧ (w < area.xUserStart ∨ area.xUserStart + sizeofBlockLink ≤ w)

section Places

variable {free taken : List Block} {b c : Block}

theorem holds_header {k : Nat} (hsize : 32 ≤ b.size) (hk : k < sizeofBlockLink) :
    b.Holds (b.addr + k) := by
  simp only [Block.Holds, Block.stop, sizeofBlockLink] at *
  omega

theorem stamp_in_header : 0 < sizeofBlockLink := by norm_num [sizeofBlockLink]

theorem next_in_header : 4 < sizeofBlockLink := by norm_num [sizeofBlockLink]

theorem size_in_header : 8 < sizeofBlockLink := by norm_num [sizeofBlockLink]

theorem sameOff_outside {as : List Nat} {mem mem' : Words}
    (h : SameOff as mem mem')
    (has : ∀ a ∈ as, a = area.xUserStart ∨
      ∀ k, k < sizeofBlockLink → Held free (a + k)) :
    ∀ w, Outside area free w → mem'.word w = mem.word w := by
  intro w ⟨hheld, hstart⟩
  refine h w fun a ha => ?_
  rcases has a ha with rfl | hin
  · simp only [sizeofBlockLink] at hstart
    omega
  · exact ⟨fun hw => hheld (hw ▸ hin 4 next_in_header),
      fun hw => hheld (hw ▸ hin 8 size_in_header)⟩

theorem sameHeader_of_outside {mem mem' : Words} {q : Nat}
    (h : ∀ w, Outside area free w → mem'.word w = mem.word w)
    (hq : ∀ k, k < sizeofBlockLink → Outside area free (q + k)) :
    SameHeader mem mem' q :=
  ⟨h _ (hq 8 size_in_header), h _ (hq 4 next_in_header), h _ (hq 0 stamp_in_header)⟩

variable (h : Layout 32 area.userUcHeap area.heapEnd free taken)
include h

theorem header_le (hb : b ∈ free ++ taken) : sizeofBlockLink ≤ b.size := by
  have hsize := h.granule_le hb
  rw [sizeofBlockLink]
  omega

theorem far_head (hb : b ∈ free ++ taken) : Far area.head.addr b.addr := by
  have hin := h.within hb
  have hsize := h.granule_le hb
  have hbounds := area.bounds
  have hstart := area.startOutside
  simp only [Far, HeapArea.head, Block.stop, sizeofBlockLink] at *
  omega

theorem far_end (hb : b ∈ free ++ taken) : Far b.addr area.heapEnd := by
  have hin := h.within hb
  have hsize := h.granule_le hb
  simp only [Far, sizeofBlockLink, Block.stop] at *
  omega

theorem far_blocks (hb : b ∈ free ++ taken) (hc : c ∈ free ++ taken)
    (hapart : b.Apart c) : Far b.addr c.addr :=
  far_of_apart hapart (header_le h hb) (header_le h hc)

theorem addr_ne_end (hb : b ∈ free ++ taken) : b.addr ≠ area.heapEnd :=
  (far_end h hb).ne

theorem far_pairwise : (area.head :: free).Pairwise fun c d => Far c.addr d.addr := by
  refine List.pairwise_cons.2 ⟨fun b hb => far_head h (List.mem_append_left _ hb), ?_⟩
  refine h.gapped.pairwise.imp_of_mem fun hb hc hbelow => ?_
  exact far_blocks h (List.mem_append_left _ hb) (List.mem_append_left _ hc)
    hbelow.apart

/-- The free headers and the list head are the same or share no word. -/
theorem far_or_eq {d : Block} (hb : b ∈ area.head :: free)
    (hd : d ∈ area.head :: free) : b.addr = d.addr ∨ Far b.addr d.addr := by
  have hpair := (far_pairwise h).imp fun {c d} hfar =>
    (show c.addr = d.addr ∨ Far c.addr d.addr from .inr hfar)
  have : Std.Symm fun c d : Block => c.addr = d.addr ∨ Far c.addr d.addr :=
    ⟨fun _ _ hcd => hcd.imp Eq.symm Far.symm⟩
  exact hpair.forall_of_forall (fun _ _ => .inl rfl) hb hd

theorem fuel_enough : free.length < area.fuel := by
  have := h.length_le
  have := area.bounds
  have := area.nonempty
  rw [HeapArea.fuel]
  omega

theorem size_lt (hb : b ∈ free ++ taken) : b.size < 2 ^ 31 := by
  have hin := h.within hb
  have := area.bounds
  have := area.topBitFree
  simp only [Block.stop] at hin
  omega

theorem outside_taken (hc : c ∈ taken) {k : Nat} (hk : k < c.size) :
    Outside area free (c.addr + k) := by
  have hmem : c ∈ free ++ taken := List.mem_append_right _ hc
  refine ⟨fun ⟨b, hb, hholds⟩ => ?_, ?_⟩
  · refine (h.cross b hb c hc).not_holds hholds ?_
    simp only [Block.Holds, Block.stop]
    omega
  · have hin := h.within hmem
    have hbounds := area.bounds
    have hstart := area.startOutside
    simp only [Block.stop] at hin
    omega

/-- The headers of the blocks that are in use. -/
theorem sameHeader_taken {mem mem' : Words}
    (hout : ∀ w, Outside area free w → mem'.word w = mem.word w) (hc : c ∈ taken) :
    SameHeader mem mem' c.addr := by
  have hsize := header_le h (List.mem_append_right _ hc)
  exact sameHeader_of_outside hout fun k hk => outside_taken h hc (Nat.lt_of_lt_of_le hk hsize)

theorem outside_end {k : Nat} (hk : k < sizeofBlockLink) :
    Outside area free (area.heapEnd + k) := by
  refine ⟨fun ⟨b, hb, hholds⟩ => ?_, ?_⟩
  · have hin := h.within (List.mem_append_left taken hb)
    simp only [Block.Holds] at hholds
    omega
  · have hbounds := area.bounds
    have hstart := area.startOutside
    simp only [sizeofBlockLink] at *
    omega

/-- The insertion of a block writes links and sizes only. -/
theorem stamp_insertBlock {mem mem' : Words} {x : Block}
    (hsame : SameOff (x.addr :: (area.head :: free).map Block.addr) mem mem')
    (hfar : ∀ b ∈ area.head :: free, Far b.addr x.addr)
    (hx : mem.ulStamp x.addr = INTEGRITY_STAMP_FREE)
    (hstamp : ∀ b ∈ free, mem.ulStamp b.addr = INTEGRITY_STAMP_FREE) :
    ∀ b ∈ insertBlock x free, mem'.ulStamp b.addr = INTEGRITY_STAMP_FREE := by
  refine insertBlock_forall (fun _ _ _ hb _ => hb) ?_ fun b hb => ?_
  · refine (hsame.stamp (List.forall_mem_cons.2 ⟨.inl rfl, ?_⟩)).trans hx
    exact List.forall_mem_map.2 fun b hb => .inr (hfar b hb).symm
  · have hb' := List.mem_cons_of_mem area.head hb
    refine (hsame.stamp (List.forall_mem_cons.2 ⟨.inr (hfar b hb'), ?_⟩)).trans (hstamp b hb)
    exact List.forall_mem_map.2 fun d hd => far_or_eq h hb' hd

/-- The insertion writes nothing outside the list and the block. -/
theorem word_insertBlock {mem mem' : Words} {x : Block} {held : List Block}
    (hsame : SameOff (x.addr :: (area.head :: free).map Block.addr) mem mem')
    (hx : ∀ k, k < sizeofBlockLink → Held held (x.addr + k))
    (hfree : ∀ b ∈ free, ∀ w, b.Holds w → Held held w) :
    ∀ w, Outside area held w → mem'.word w = mem.word w := by
  refine sameOff_outside hsame (List.forall_mem_cons.2 ⟨.inr hx, List.forall_mem_map.2 ?_⟩)
  refine List.forall_mem_cons.2 ⟨.inl rfl, fun b hb => .inr fun k hk => ?_⟩
  exact hfree b hb _ (holds_header (h.granule_le (List.mem_append_left _ hb)) hk)

end Places

/-! ## The start -/

/-- The array is aligned, so the heap begins where it begins. -/
theorem prvHeapInit_eq (mem : Words) :
    area.prvHeapInit mem =
      { mem := ((((((mem.setNext area.xUserStart area.userUcHeap).setSize
            area.xUserStart 0).setSize area.heapEnd 0).setNext area.heapEnd 0
          ).setSize area.userUcHeap (area.heapEnd - area.userUcHeap)).setNext
            area.userUcHeap area.heapEnd).setStamp area.userUcHeap
              INTEGRITY_STAMP_FREE
        pxUserEnd := area.heapEnd
        xUserFreeBytesRemaining := area.heapEnd - area.userUcHeap
        xUserMinimumEverFreeBytesRemaining := area.heapEnd - area.userUcHeap
        xBlockAllocatedBit := 2 ^ 31 } := by
  obtain ⟨haligned, hwhole, hend, hle⟩ := area.bounds
  have hbegin : ¬ area.userUcHeap &&& usermemBYTE_ALIGNMENT_MASK ≠ 0 := by
    rw [mask_eq]
    omega
  have hpxEnd : maskOff (area.userUcHeap + (area.USERMEM_TOTAL_HEAP_SIZE -
      (area.userUcHeap - area.userUcHeap)) - xHeapStructSize) = area.heapEnd := by
    simp only [maskOff, mask_eq, HeapArea.heapEnd, xHeapStructSize_eq] at *
    omega
  simp only [HeapArea.prvHeapInit, hbegin, if_false, hpxEnd]
  rfl

theorem prvHeapInit_heaped (mem : Words) :
    ∃ free, Heaped area (area.prvHeapInit mem) free [] := by
  obtain ⟨haligned, hwhole, hend, hle⟩ := area.bounds
  have hstart := area.startOutside
  rw [prvHeapInit_eq]
  simp only [sizeofBlockLink] at hstart
  have hfields : ∀ {m : Words} {p v w : Nat},
      (m.setSize p v).word w = (if w = p + 8 then v else m.word w) ∧
      (m.setNext p v).word w = (if w = p + 4 then v else m.word w) ∧
      (m.setStamp p v).word w = if w = p then v else m.word w :=
    ⟨rfl, rfl, rfl⟩
  rcases Nat.eq_or_lt_of_le hle with heq | hlt
  · -- The smallest heap is its end marker.
    refine ⟨[], rfl, rfl, ⟨?_, ?_, trivial⟩, ?_, ?_, by simp, by simp, ?_, ?_⟩
    · simp only [Words.xBlockSize, HeapArea.head, hfields]
      grind
    · simp only [Words.pxNextFreeBlock, HeapArea.head, hfields, headAddr]
      grind
    · simp only [Words.xBlockSize, hfields]
      grind
    · intro hlt
      omega
    · rw [← heq]
      exact Layout.empty
    · rw [heq]
      exact Nat.sub_self _
  · refine ⟨[⟨area.userUcHeap, area.heapEnd - area.userUcHeap⟩], rfl, rfl,
      ⟨?_, ?_, ⟨?_, ?_, trivial⟩⟩, ?_, ?_, ?_, by simp, ?_, by simp⟩
    · simp only [Words.xBlockSize, HeapArea.head, hfields]
      grind
    · simp only [Words.pxNextFreeBlock, HeapArea.head, hfields, headAddr]
      grind
    · simp only [Words.xBlockSize, hfields]
      grind
    · simp only [Words.pxNextFreeBlock, hfields, headAddr]
      grind
    · simp only [Words.xBlockSize, hfields]
      grind
    · intro _
      simp only [Words.pxNextFreeBlock, hfields]
      grind
    · intro b hb
      rw [List.mem_singleton.1 hb]
      exact stamp_setStamp
    · exact Layout.whole haligned (by omega) hlt

/-! ## Allocation -/

section Allocation

variable {free rest taken : List Block} {c : Block} {wanted : Nat}

/-- What is cut off a block behind `wanted` bytes lies apart from all headers. -/
theorem carve_far {x : Block} (hrest : Layout 32 area.userUcHeap area.heapEnd rest (taken ++ [c]))
    (hsplit : Splits free rest c) (hdvd : 32 ∣ wanted) (hpos : 0 < wanted)
    (hroom : 64 < c.size - wanted) (hx : x = ⟨c.addr + wanted, c.size - wanted⟩) :
    Granular 32 x ∧ Far c.addr x.addr ∧ (∀ b ∈ rest, b.Apart x) ∧
      ∀ b ∈ area.head :: rest, Far b.addr x.addr ∧ Far b.addr c.addr := by
  have hc : c ∈ rest ++ (taken ++ [c]) := by simp
  have hmem : ∀ {b : Block}, b ∈ rest → b ∈ rest ++ (taken ++ [c]) :=
    fun hb => List.mem_append_left _ hb
  have hcgranular := hrest.granular c hc
  have hxgranular : Granular 32 x := by
    rw [hx]
    exact ⟨Nat.dvd_add hcgranular.1 hdvd, Nat.dvd_sub hcgranular.2.1 hdvd,
      by simp only; omega⟩
  have hxaddr : c.addr + wanted = x.addr := by rw [hx]
  have hxsize : c.size - wanted = x.size := by rw [hx]
  have hin := hrest.within hc
  simp only [Block.stop] at hin
  -- The new header is inside the old block, behind the header it has.
  have hcx : Far c.addr x.addr := by
    have := Nat.le_of_dvd hpos hdvd
    simp only [Far, sizeofBlockLink]
    omega
  have hapart : ∀ b ∈ rest, b.Apart x := by
    intro b hb
    have hbc := hsplit.apart b hb
    simp only [Block.Apart, Block.stop] at *
    omega
  refine ⟨hxgranular, hcx, hapart, fun b hb => ?_⟩
  rcases List.mem_cons.1 hb with rfl | hb
  · have hbounds := area.bounds
    have hstart := area.startOutside
    refine ⟨?_, far_head hrest hc⟩
    simp only [Far, HeapArea.head, sizeofBlockLink] at *
    omega
  · refine ⟨far_of_apart (hapart b hb) ?_ ?_,
      far_blocks hrest (hmem hb) hc (hsplit.apart b hb)⟩
    · exact header_le hrest (hmem hb)
    · simp only [sizeofBlockLink]
      omega

/-- The header of the new block is written and the size of the old one, and no other word is
changed. -/
theorem carve_spec {mem mem' : Words} {addr x n : Nat} (hfar : Far addr x)
    (hmem' : mem' = ((mem.setSize x n).setStamp x INTEGRITY_STAMP_FREE).setSize addr wanted) :
    (mem'.xBlockSize x = n ∧ mem'.ulStamp x = INTEGRITY_STAMP_FREE) ∧
      (mem'.xBlockSize addr = wanted ∧ mem'.ulStamp addr = mem.ulStamp addr) ∧
      (∀ {q : Nat}, Far q x → Far q addr → SameHeader mem mem' q) ∧
      ∀ w, (∀ k, k < sizeofBlockLink → w ≠ x + k) → w ≠ addr + 8 →
        mem'.word w = mem.word w := by
  refine ⟨?_, ⟨?_, ?_⟩, fun hqx hqaddr => ?_, fun w hw hsize => ?_⟩
  · have hset := (@sameHeader_set ((mem.setSize x n).setStamp x INTEGRITY_STAMP_FREE)
      addr x wanted hfar.symm).1
    rw [hmem']
    exact ⟨hset.1.trans (by simp), hset.2.2.trans (by simp)⟩
  · rw [hmem', size_setSize]
  · have hset := (@sameHeader_set mem x addr n hfar).1.trans
      (@sameHeader_set _ x addr INTEGRITY_STAMP_FREE hfar).2.2
    rw [hmem', stamp_setSize, hset.2.2]
  · rw [hmem']
    exact ((sameHeader_set hqx).1.trans (sameHeader_set hqx).2.2).trans
      (sameHeader_set hqaddr).1
  · have hfirst : w ≠ x := hw 0 stamp_in_header
    rw [hmem', word_setSize hsize, word_setStamp hfirst, word_setSize (hw 8 size_in_header)]

/-- Cutting the block that was found leaves it `n` bytes and puts what is over
back into the list. -/
theorem splitBlock_spec {mem : Words}
    (hrest : Layout 32 area.userUcHeap area.heapEnd rest (taken ++ [c]))
    (hsplit : Splits free rest c)
    (hlinked : Linked mem area.heapEnd (area.head :: rest))
    (hsize : mem.xBlockSize c.addr = c.size)
    (hstamp : ∀ b ∈ c :: rest, mem.ulStamp b.addr = INTEGRITY_STAMP_FREE)
    (hdvd : 32 ∣ wanted) (hpos : 0 < wanted) (hfits : wanted ≤ c.size) :
    ∃ mem' free' n, UserMem.splitBlock area wanted area.heapEnd c.addr mem = some mem' ∧
      wanted ≤ n ∧ Linked mem' area.heapEnd (area.head :: free') ∧
      Splits free free' ⟨c.addr, n⟩ ∧ Gapped free' ∧
      (∀ b ∈ free', Granular 32 b) ∧ Granular 32 ⟨c.addr, n⟩ ∧
      mem'.xBlockSize c.addr = n ∧ mem'.ulStamp c.addr = INTEGRITY_STAMP_FREE ∧
      (∀ b ∈ free', mem'.ulStamp b.addr = INTEGRITY_STAMP_FREE) ∧
      ∀ w, Outside area free w → mem'.word w = mem.word w := by
  have hmem : ∀ {b : Block}, b ∈ rest → b ∈ rest ++ (taken ++ [c]) :=
    fun hb => List.mem_append_left _ hb
  have hgranular : ∀ b ∈ rest, Granular 32 b := fun b hb => hrest.granular b (hmem hb)
  have hc : c ∈ rest ++ (taken ++ [c]) := by simp
  have hcgranular := hrest.granular c hc
  rw [UserMem.splitBlock, hsize, heapMINIMUM_BLOCK_SIZE_eq]
  by_cases hroom : 64 < c.size - wanted
  · rw [if_pos hroom]
    obtain ⟨x, hx⟩ : ∃ x : Block, x = ⟨c.addr + wanted, c.size - wanted⟩ := ⟨_, rfl⟩
    have hxaddr : c.addr + wanted = x.addr := by rw [hx]
    have hxsize : c.size - wanted = x.size := by rw [hx]
    obtain ⟨hxgranular, hcx, hapart, hfar⟩ := carve_far hrest hsplit hdvd hpos hroom hx
    have hxend : x.addr < area.heapEnd := by
      have hin := hrest.within hc
      simp only [Block.stop] at hin
      omega
    have hguard : x.addr &&& usermemBYTE_ALIGNMENT_MASK = 0 := by
      rw [mask_eq]
      exact Nat.mod_eq_zero_of_dvd hxgranular.1
    rw [hxaddr, hxsize]
    simp only [hguard, guard_true, Option.pure_def, Option.bind_eq_bind,
      Option.bind_some]
    -- The memory with the new header written.
    obtain ⟨mem₂, hmem₂⟩ : ∃ mem₂ : Words, mem₂ = ((mem.setSize x.addr x.size).setStamp
        x.addr INTEGRITY_STAMP_FREE).setSize c.addr wanted := ⟨_, rfl⟩
    rw [← hmem₂]
    obtain ⟨hx₂, hc₂, hsameHeader, hword₂⟩ := carve_spec hcx hmem₂
    have hsame₂ : ∀ b ∈ area.head :: rest, SameHeader mem mem₂ b.addr := fun b hb =>
      hsameHeader (hfar b hb).1 (hfar b hb).2
    obtain ⟨mem₃, hinsert, hlinked₃, hsame₃⟩ :=
      @prvInsertBlockIntoFreeList_spec mem₂ area.heapEnd x area.head rest area.fuel
        (hlinked.frame hsame₂) hx₂.1 hxend (fuel_enough hrest)
        (far_pairwise hrest) (fun b hb => (hfar b hb).1)
        (fun b hb => addr_ne_end hrest (hmem hb))
        (hfar _ List.mem_cons_self).1.ne
    have hc₃ : SameHeader mem₂ mem₃ c.addr := by
      refine hsame₃.header (List.forall_mem_cons.2 ⟨hcx, ?_⟩)
      exact List.forall_mem_map.2 fun b hb => (hfar b hb).2.symm
    refine ⟨mem₃, insertBlock x rest, wanted, hinsert, Nat.le_refl _, hlinked₃, ?_,
      ?_, ?_, ⟨hcgranular.1, hdvd, hpos⟩, hc₃.1.trans hc₂.1,
      hc₃.2.2.trans (hc₂.2.trans (hstamp c List.mem_cons_self)), ?_, ?_⟩
    · rw [hx]
      exact splits_carve hsplit hpos (by omega) fun b hb => (hgranular b hb).2.2
    · exact insertBlock_gapped hxgranular.2.2 hrest.gapped
        fun b hb => ⟨(hgranular b hb).2.2, hapart b hb⟩
    · exact insertBlock_forall (fun _ _ _ => Granular.join) hxgranular hgranular
    · refine stamp_insertBlock hrest hsame₃ (fun b hb => (hfar b hb).1) hx₂.2 fun b hb => ?_
      exact (hsame₂ b (List.mem_cons_of_mem _ hb)).2.2.trans
        (hstamp b (List.mem_cons_of_mem _ hb))
    · have hheld : ∀ k, k < c.size → Held free (c.addr + k) := by
        intro k hk
        refine (hsplit.held _).2 (.inr ?_)
        simp only [Block.Holds, Block.stop]
        omega
      have hheldx : ∀ k, k < sizeofBlockLink → Held free (x.addr + k) := by
        intro k hk
        have := hheld (wanted + k) (by simp only [sizeofBlockLink] at hk; omega)
        rwa [← Nat.add_assoc, hxaddr] at this
      intro w hw
      have hw₃ := word_insertBlock hrest hsame₃ hheldx
        (fun b hb w hw => (hsplit.held w).2 (.inl ⟨b, hb, hw⟩)) w hw
      refine hw₃.trans (hword₂ w (fun k hk heq => hw.1 (heq ▸ hheldx k hk)) fun heq => ?_)
      exact hw.1 (heq ▸ hheld 8 (by omega))
  · rw [if_neg hroom]
    exact ⟨mem, rest, c.size, rfl, hfits, hlinked, hsplit, hrest.gapped, hgranular,
      hcgranular, hsize, hstamp c List.mem_cons_self,
      fun b hb => hstamp b (List.mem_cons_of_mem _ hb), fun _ _ => rfl⟩

/-- The block that was found leaves the list, and no header but that of its predecessor is
changed. -/
theorem unlink_spec {mem mem' : Words} {pre post : List Block}
    (hlayout : Layout 32 area.userUcHeap area.heapEnd (pre ++ c :: post) taken)
    (hlinked : Linked mem area.heapEnd (area.head :: (pre ++ c :: post)))
    (hstamp : ∀ b ∈ pre ++ c :: post, mem.ulStamp b.addr = INTEGRITY_STAMP_FREE)
    (hmem' : mem' = mem.setNext (lastAddr area.head pre) (headAddr area.heapEnd post)) :
    Linked mem' area.heapEnd (area.head :: (pre ++ post)) ∧ mem'.xBlockSize c.addr = c.size ∧
      (∀ b ∈ c :: (pre ++ post), mem'.ulStamp b.addr = INTEGRITY_STAMP_FREE) ∧
      ∀ w, Outside area (pre ++ c :: post) w → mem'.word w = mem.word w := by
  obtain ⟨-, hcsize, -⟩ := linked_last hlinked
  have hfree : ∀ {b : Block}, b ∈ pre ++ c :: post → b ∈ (pre ++ c :: post) ++ taken :=
    fun hb => List.mem_append_left _ hb
  have hcfree : c ∈ pre ++ c :: post := by simp
  have hsub : ∀ b ∈ pre ++ post, b ∈ pre ++ c :: post := by
    intro b hb
    rcases List.mem_append.1 hb with hb | hb <;> simp [hb]
  have hsplit := splits_middle hlayout.gapped
  have hsame : SameOff [lastAddr area.head pre] mem mem' := by
    rw [hmem']
    exact sameOff_setNext
  obtain ⟨b₀, hb₀, hb₀addr⟩ := List.mem_map.1 (@lastAddr_mem area.head pre)
  have hb₀free : b₀ ∈ area.head :: (pre ++ post) := by
    rcases List.mem_cons.1 hb₀ with rfl | hb₀
    · exact List.mem_cons_self
    · exact List.mem_cons_of_mem _ (List.mem_append_left _ hb₀)
  have hcfar : ∀ b ∈ area.head :: (pre ++ post), Far b.addr c.addr := by
    intro b hb
    rcases List.mem_cons.1 hb with rfl | hb
    · exact far_head hlayout (hfree hcfree)
    · exact far_blocks hlayout (hfree (hsub b hb)) (hfree hcfree) (hsplit.apart b hb)
  have hc : SameHeader mem mem' c.addr := by
    refine hsame.header fun a ha => ?_
    rw [List.mem_singleton.1 ha, ← hb₀addr]
    exact (hcfar b₀ hb₀free).symm
  refine ⟨hmem' ▸ linked_unlink hlinked (far_pairwise hlayout), hc.1.trans hcsize, ?_, ?_⟩
  · intro b hb
    rcases List.mem_cons.1 hb with rfl | hb
    · exact hc.2.2.trans (hstamp b hcfree)
    · refine (hsame.stamp fun a ha => ?_).trans (hstamp b (hsub b hb))
      rw [List.mem_singleton.1 ha, ← hb₀addr]
      rcases List.mem_cons.1 hb₀free with rfl | hb₀free
      · exact far_or_eq hlayout (List.mem_cons_of_mem _ (hsub b hb)) List.mem_cons_self
      · exact far_or_eq hlayout (List.mem_cons_of_mem _ (hsub b hb))
          (List.mem_cons_of_mem _ (hsub b₀ hb₀free))
  · intro w hw
    refine sameOff_outside hsame (fun a ha => ?_) w hw
    rw [List.mem_singleton.1 ha, ← hb₀addr]
    rcases List.mem_cons.1 hb₀free with rfl | hb₀free
    · exact .inl rfl
    · refine .inr fun k hk => ⟨b₀, hsub b₀ hb₀free, holds_header ?_ hk⟩
      exact hlayout.granule_le (hfree (hsub b₀ hb₀free))

/-- The header of a block becomes that of a taken one, and no other word is changed. -/
theorem markTaken_spec {mem mem' : Words} {addr n : Nat} (hsize : mem.xBlockSize addr = n)
    (hn : n < 2 ^ 31)
    (hmem' : mem' = ((mem.setSize addr (mem.xBlockSize addr ||| 2 ^ 31)).setStamp addr
      INTEGRITY_STAMP_TAKEN).setNext addr 0) :
    (mem'.xBlockSize addr = n + 2 ^ 31 ∧ mem'.pxNextFreeBlock addr = 0 ∧
        mem'.ulStamp addr = INTEGRITY_STAMP_TAKEN) ∧
      (∀ {q : Nat}, Far q addr → SameHeader mem mem' q) ∧
      ∀ w, (∀ k, k < sizeofBlockLink → w ≠ addr + k) → mem'.word w = mem.word w := by
  refine ⟨⟨?_, ?_, ?_⟩, fun {q} hq => ?_, fun w hw => ?_⟩
  · rw [hmem', size_setNext, size_setStamp, size_setSize, hsize, topBit_or hn]
  · rw [hmem', next_setNext]
  · simp [hmem']
  · rw [hmem']
    exact ((sameHeader_set hq).1.trans (sameHeader_set hq).2.2).trans (sameHeader_set hq).2.1
  · have hfirst : w ≠ addr := hw 0 stamp_in_header
    rw [hmem', word_setNext (hw 4 next_in_header), word_setStamp hfirst,
      word_setSize (hw 8 size_in_header)]

theorem takeBlock_spec {heap : UserMem} {pre post : List Block}
    (h : Heaped area heap (pre ++ c :: post) taken) (hdvd : 32 ∣ wanted)
    (hpos : 0 < wanted) (hfits : wanted ≤ c.size) :
    ∃ heap' free' n,
      heap.takeBlock area wanted (lastAddr area.head pre) c.addr =
        some (c.addr + 32, heap') ∧
      wanted ≤ n ∧ Heaped area heap' free' (taken ++ [⟨c.addr, n⟩]) ∧
      ∀ w, Outside area (pre ++ c :: post) w → heap'.mem.word w = heap.mem.word w := by
  obtain ⟨hlast, -, hcnext⟩ := linked_last h.linked
  have hsplit := splits_middle h.layout.gapped
  have hcfree : c ∈ pre ++ c :: post := by simp
  have hrest : Layout 32 area.userUcHeap area.heapEnd (pre ++ post) (taken ++ [c]) := by
    refine h.layout.take hsplit (gapped_drop h.layout.gapped) (fun b hb => ?_)
      (h.layout.granular c (List.mem_append_left _ hcfree))
    refine h.layout.granular b (List.mem_append_left _ ?_)
    rcases List.mem_append.1 hb with hb | hb <;> simp [hb]
  -- The block is unlinked.
  obtain ⟨mem₁, hmem₁⟩ : ∃ mem₁, mem₁ = heap.mem.setNext (lastAddr area.head pre)
      (headAddr area.heapEnd post) := ⟨_, rfl⟩
  obtain ⟨hlinked₁, hsize₁, hstamp₁, hout₁⟩ :=
    unlink_spec h.layout h.linked h.freeStamp hmem₁
  obtain ⟨mem₃, free', n, hcut, hn, hlinked₃, hsplit₃, hgapped₃, hgranular₃, hcgranular,
      hcsize₃, hcstamp₃, hstamp₃, hout₃⟩ :=
    splitBlock_spec hrest hsplit hlinked₁ hsize₁ hstamp₁ hdvd hpos hfits
  have hlayout' := h.layout.take hsplit₃ hgapped₃ hgranular₃ hcgranular
  have hc' : ∀ {free : List Block}, (⟨c.addr, n⟩ : Block) ∈ free ++ (taken ++ [⟨c.addr, n⟩]) :=
    fun {_} => by simp
  -- Its header becomes that of a taken block.
  obtain ⟨mem₄, hmem₄⟩ : ∃ mem₄, mem₄ = ((mem₃.setSize c.addr
      (mem₃.xBlockSize c.addr ||| 2 ^ 31)).setStamp c.addr
        INTEGRITY_STAMP_TAKEN).setNext c.addr 0 := ⟨_, rfl⟩
  obtain ⟨hheader₄, hsame₄, hword₄⟩ := markTaken_spec hcsize₃ (size_lt hlayout' hc') hmem₄
  have hfree' : ∀ b ∈ area.head :: free', Far b.addr c.addr := by
    intro b hb
    rcases List.mem_cons.1 hb with rfl | hb
    · exact @far_head area free' _ ⟨c.addr, n⟩ hlayout' hc'
    · exact @far_blocks area free' _ b ⟨c.addr, n⟩ hlayout'
        (List.mem_append_left _ hb) hc' (hsplit₃.apart b hb)
  have hout : ∀ w, Outside area (pre ++ c :: post) w →
      mem₄.word w = heap.mem.word w := by
    intro w hw
    have hheld : ∀ k, k < sizeofBlockLink → w ≠ c.addr + k := by
      intro k hk heq
      refine hw.1 (heq ▸ ⟨c, hcfree, holds_header ?_ hk⟩)
      exact h.layout.granule_le (List.mem_append_left _ hcfree)
    exact (hword₄ w hheld).trans ((hout₃ w hw).trans (hout₁ w hw))
  have hkept : ∀ t ∈ taken, SameHeader heap.mem mem₄ t.addr :=
    fun t ht => sameHeader_taken h.layout hout ht
  have hend := sameHeader_of_outside hout fun _ hk => outside_end h.layout hk
  refine ⟨{ heap with
      mem := mem₄
      xUserFreeBytesRemaining := heap.xUserFreeBytesRemaining - mem₃.xBlockSize c.addr
      xUserMinimumEverFreeBytesRemaining := min heap.xUserMinimumEverFreeBytesRemaining
        (heap.xUserFreeBytesRemaining - mem₃.xBlockSize c.addr) },
    free', n, ?_, hn, ?_, hout⟩
  · have hguard : (c.addr + 32) &&& usermemBYTE_ALIGNMENT_MASK = 0 := by
      rw [mask_eq]
      have := (hcgranular).1
      simp only at this
      omega
    rw [UserMem.takeBlock, hlast, hcnext, h.atEnd, ← hmem₁, hcut, hmem₄, ← h.topBit]
    simp [hguard, xHeapStructSize_eq, hcstamp₃]
  · exact
      { atEnd := h.atEnd
        topBit := h.topBit
        linked := hlinked₃.frame fun b hb => hsame₄ (hfree' b hb)
        endSize := hend.1.trans h.endSize
        endNext := fun hlt => hend.2.1.trans (h.endNext hlt)
        freeStamp := fun b hb =>
          (hsame₄ (hfree' b (List.mem_cons_of_mem _ hb))).2.2.trans (hstamp₃ b hb)
        takenHeader := by
          intro t ht
          rcases List.mem_append.1 ht with ht | ht
          · obtain ⟨hsize, hnext, hstamp⟩ := hkept t ht
            obtain ⟨hsize', hnext', hstamp'⟩ := h.takenHeader t ht
            exact ⟨hsize.trans hsize', hnext.trans hnext', hstamp.trans hstamp'⟩
          · rw [List.mem_singleton.1 ht]
            exact hheader₄
        layout := hlayout'
        remaining := by
          have := hsplit₃.bytes
          simp only [h.remaining, hcsize₃] at this ⊢
          omega }

/-- What an allocation does: it fails for want of a block, or it takes one that
has room for the request behind its header. -/
theorem usermalloc_spec {heap : UserMem} {n : Nat} (h : Heaped area heap free taken)
    (hn : n < 2 ^ 32) :
    (heap.usermalloc area n = some (0, heap) ∧
      (n = 0 ∨ ∀ b ∈ free, b.size < wantedSize n)) ∨
    ∃ (heap' : UserMem) (free' : List Block) (c : Block),
      heap.usermalloc area n = some (c.addr + 32, heap') ∧
      0 < n ∧ n + 32 ≤ c.size ∧ (∃ b ∈ free, wantedSize n ≤ b.size) ∧
      Heaped area heap' free' (taken ++ [c]) ∧
      ∀ w, Outside area free w → heap'.mem.word w = heap.mem.word w := by
  have hplaced := area.placed
  have hbounds := area.bounds
  have hstarted : ¬ heap.pxUserEnd = 0 := by
    rw [h.atEnd]
    omega
  have hmem : ∀ {b : Block}, b ∈ free → b ∈ free ++ taken :=
    fun hb => List.mem_append_left _ hb
  have hle : ∀ b ∈ free, b.size ≤ heap.xUserFreeBytesRemaining := by
    intro b hb
    obtain ⟨pre, post, rfl⟩ := List.append_of_mem hb
    rw [h.remaining, sizes_append, sizes_cons]
    omega
  rw [UserMem.usermalloc]
  simp only [hstarted, if_false, h.topBit]
  by_cases hbit : n &&& 2 ^ 31 = 0
  · rw [if_pos hbit]
    rcases Nat.eq_zero_or_pos n with rfl | hpos
    · exact .inl ⟨rfl, .inl rfl⟩
    · obtain ⟨hdvd, hroom, -⟩ := wantedSize_spec hpos
      have hguard : wantedSize n &&& usermemBYTE_ALIGNMENT_MASK = 0 := by
        rw [mask_eq]
        exact Nat.mod_eq_zero_of_dvd hdvd
      have hwpos : 0 < wantedSize n := by omega
      simp only [hguard, guard_true, Option.pure_def, Option.bind_eq_bind,
        Option.bind_some, hwpos, true_and]
      by_cases hremain : wantedSize n ≤ heap.xUserFreeBytesRemaining
      · rw [if_pos hremain]
        have hlt : area.userUcHeap < area.heapEnd := by
          have hbytes := h.layout.bytes
          have := h.remaining
          omega
        have hstart : area.head.addr = area.xUserStart := rfl
        rcases @findBlock_spec heap.mem area.heapEnd (wantedSize n) (by omega)
            (h.endNext hlt) free area.head area.fuel h.linked
            (fuel_enough h.layout)
            (fun b hb => by have := (h.layout.within (hmem hb)).1; omega) with
          ⟨pre, c, post, rfl, hfits, hfind⟩ | ⟨hsmall, prev, hfind⟩
        · have hc : c ∈ pre ++ c :: post := by simp
          obtain ⟨heap', free', m, htake, hm, hheaped, hout⟩ :=
            takeBlock_spec h hdvd hwpos hfits
          rw [hstart] at hfind
          simp only [hfind, Option.bind_some, h.atEnd,
            addr_ne_end h.layout (hmem hc), ne_eq, not_false_eq_true, if_true, htake]
          exact .inr ⟨heap', free', ⟨c.addr, m⟩, rfl, hpos, Nat.le_trans hroom hm,
            ⟨c, hc, hfits⟩, hheaped, hout⟩
        · rw [hstart] at hfind
          simp only [hfind, Option.bind_some, h.atEnd, ne_eq, not_true_eq_false,
            if_false]
          exact .inl ⟨trivial, .inr hsmall⟩
      · rw [if_neg hremain]
        refine .inl ⟨rfl, .inr fun b hb => ?_⟩
        have := hle b hb
        omega
  · rw [if_neg hbit]
    refine .inl ⟨rfl, .inr fun b hb => ?_⟩
    have hlarge : ¬ n < 2 ^ 31 := fun hlt => hbit ((topBit_clear hn).2 hlt)
    have := size_lt h.layout (hmem hb)
    have := le_wantedSize n
    omega

end Allocation

/-! ## Freeing -/

section Freeing

variable {heap : UserMem} {free taken before behind : List Block} {c : Block}

/-- Freeing a taken block, which passes every assertion, puts it into the list. -/
theorem userfree_spec (h : Heaped area heap free (before ++ c :: behind)) :
    ∃ heap' free', heap.userfree area (c.addr + 32) = some heap' ∧
      Heaped area heap' free' (before ++ behind) ∧
      ∀ w, Outside area (c :: free) w → heap'.mem.word w = heap.mem.word w := by
  have hctaken : c ∈ before ++ c :: behind := by simp
  have hcmem : c ∈ free ++ (before ++ c :: behind) := List.mem_append_right _ hctaken
  have hfmem : ∀ {b : Block}, b ∈ free → b ∈ free ++ (before ++ c :: behind) :=
    fun hb => List.mem_append_left _ hb
  obtain ⟨hcsize, hcnext, hcstamp⟩ := h.takenHeader c hctaken
  have hclt := size_lt h.layout hcmem
  have hcgranular := h.layout.granular c hcmem
  have hapart : ∀ b ∈ free, b.Apart c := fun b hb => h.layout.cross b hb c hctaken
  have hfar : ∀ b ∈ area.head :: free, Far b.addr c.addr := by
    intro b hb
    rcases List.mem_cons.1 hb with rfl | hb
    · exact far_head h.layout hcmem
    · exact far_blocks h.layout (hfmem hb) hcmem (hapart b hb)
  -- The header becomes that of a free block.
  obtain ⟨mem₁, hmem₁⟩ : ∃ mem₁, mem₁ = (heap.mem.setStamp c.addr
      INTEGRITY_STAMP_FREE).setSize c.addr c.size := ⟨_, rfl⟩
  have hsame₁ : ∀ b ∈ area.head :: free, SameHeader heap.mem mem₁ b.addr := by
    intro b hb
    rw [hmem₁]
    exact (sameHeader_set (hfar b hb)).2.2.trans (sameHeader_set (hfar b hb)).1
  have hc₁ : mem₁.xBlockSize c.addr = c.size ∧
      mem₁.ulStamp c.addr = INTEGRITY_STAMP_FREE := by
    rw [hmem₁]
    exact ⟨size_setSize, by simp⟩
  have hin := h.layout.within hcmem
  obtain ⟨mem₂, hinsert, hlinked₂, hsame₂⟩ :=
    @prvInsertBlockIntoFreeList_spec mem₁ area.heapEnd c area.head free area.fuel
      (h.linked.frame hsame₁) hc₁.1
      (by have := hcgranular.2.2; simp only [Block.stop] at hin; omega)
      (fuel_enough h.layout) (far_pairwise h.layout) hfar
      (fun b hb => addr_ne_end h.layout (hfmem hb)) (hfar _ List.mem_cons_self).ne
  have hsplit := splits_insertBlock hapart
  have hgranular : ∀ b ∈ insertBlock c free, Granular 32 b :=
    insertBlock_forall (fun _ _ _ => Granular.join) hcgranular
      fun b hb => h.layout.granular b (hfmem hb)
  have hlayout' := h.layout.give hsplit
    (insertBlock_gapped hcgranular.2.2 h.layout.gapped
      fun b hb => ⟨(h.layout.granular b (hfmem hb)).2.2, hapart b hb⟩) hgranular
  have hheld : ∀ k, k < sizeofBlockLink → Held (c :: free) (c.addr + k) :=
    fun k hk => held_cons.2 (.inl (holds_header (h.layout.granule_le hcmem) hk))
  have hout : ∀ w, Outside area (c :: free) w → mem₂.word w = heap.mem.word w := by
    intro w hw
    have hw₂ := word_insertBlock h.layout hsame₂ hheld
      (fun b hb w hw => held_cons.2 (.inr ⟨b, hb, hw⟩)) w hw
    have hw₀ : w ≠ c.addr := fun heq => hw.1 (heq ▸ hheld 0 stamp_in_header)
    have hw₈ : w ≠ c.addr + 8 := fun heq => hw.1 (heq ▸ hheld 8 size_in_header)
    rw [hw₂, hmem₁, word_setSize hw₈, word_setStamp hw₀]
  -- What is outside the new free list is outside the old one and the block.
  have houtside : ∀ w, Outside area (insertBlock c free) w → Outside area (c :: free) w := by
    intro w hw
    refine ⟨fun hheld => hw.1 ((hsplit.held w).2 ?_), hw.2⟩
    exact (held_cons.1 hheld).symm
  have hend := sameHeader_of_outside (fun w hw => hout w (houtside w hw))
    fun _ hk => outside_end hlayout' hk
  refine ⟨{ heap with
      mem := mem₂
      xUserFreeBytesRemaining := heap.xUserFreeBytesRemaining + c.size },
    insertBlock c free, ?_, ?_, hout⟩
  · have hne : c.addr + 32 ≠ 0 := by omega
    have hlink : c.addr + 32 - xHeapStructSize = c.addr := rfl
    rw [UserMem.userfree, if_pos hne]
    simp only [hlink, hcsize, hcnext, hcstamp, h.topBit, h.atEnd, ne_eq,
      topBit_set hclt, not_false_eq_true, guard_true, Option.pure_def,
      Option.bind_eq_bind, Option.bind_some, Nat.add_sub_cancel, ← hmem₁]
    have hstart : area.xUserStart = area.head.addr := rfl
    rw [hstart, hinsert]
    rfl
  · exact
      { atEnd := h.atEnd
        topBit := h.topBit
        linked := hlinked₂
        endSize := hend.1.trans h.endSize
        endNext := fun hlt => hend.2.1.trans (h.endNext hlt)
        freeStamp := by
          refine stamp_insertBlock h.layout hsame₂ hfar hc₁.2 fun b hb => ?_
          exact (hsame₁ b (List.mem_cons_of_mem _ hb)).2.2.trans (h.freeStamp b hb)
        takenHeader := by
          intro t ht
          have hsame : SameHeader heap.mem mem₂ t.addr :=
            sameHeader_taken hlayout' (fun w hw => hout w (houtside w hw)) ht
          obtain ⟨hsize, hnext, hstamp⟩ := h.takenHeader t (by
            rcases List.mem_append.1 ht with ht | ht <;> simp [ht])
          exact ⟨hsame.1.trans hsize, hsame.2.1.trans hnext, hsame.2.2.trans hstamp⟩
        layout := hlayout'
        remaining := by
          rw [hsplit.bytes]
          simp only [h.remaining] }

/-- Two taken blocks are the same or apart. -/
theorem taken_apart (h : Layout 32 area.userUcHeap area.heapEnd free taken)
    {t u : Block} (ht : t ∈ taken) (hu : u ∈ taken) : t = u ∨ t.Apart u := by
  have hpair := h.apart.imp fun {t u} hapart => (show t = u ∨ t.Apart u from .inr hapart)
  have : Std.Symm fun t u : Block => t = u ∨ t.Apart u :=
    ⟨fun _ _ htu => htu.imp Eq.symm Block.Apart.symm⟩
  exact hpair.forall_of_forall (fun _ _ => .inl rfl) ht hu

/-- The allocator does not mind what its users write behind the headers. -/
theorem Heaped.write (h : Heaped area heap free taken) {mem' : Words}
    (hmem : ∀ w, (∀ t ∈ taken, w < t.addr + 32 ∨ t.stop ≤ w) →
      mem'.word w = heap.mem.word w) :
    Heaped area { heap with mem := mem' } free taken := by
  have hheader : ∀ {q : Nat}, (∀ t ∈ taken, ∀ k, k < sizeofBlockLink →
      q + k < t.addr + 32 ∨ t.stop ≤ q + k) → SameHeader heap.mem mem' q :=
    fun hq => ⟨hmem _ fun t ht => hq t ht 8 size_in_header,
      hmem _ fun t ht => hq t ht 4 next_in_header, hmem _ fun t ht => hq t ht 0 stamp_in_header⟩
  have hfree : ∀ b ∈ area.head :: free, SameHeader heap.mem mem' b.addr := by
    intro b hb
    refine hheader fun t ht k hk => ?_
    have htmem : t ∈ free ++ taken := List.mem_append_right _ ht
    rcases List.mem_cons.1 hb with rfl | hb
    · have hfar := far_head h.layout htmem
      have hin := h.layout.within htmem
      have hbounds := area.bounds
      have hstart := area.startOutside
      simp only [Far, HeapArea.head, Block.stop, sizeofBlockLink] at *
      omega
    · have hapart := h.layout.cross b hb t ht
      have hsize := h.layout.granule_le (List.mem_append_left taken hb)
      simp only [Block.Apart, Block.stop, sizeofBlockLink] at *
      omega
  have htaken : ∀ t ∈ taken, SameHeader heap.mem mem' t.addr := by
    intro t ht
    refine hheader fun u hu k hk => ?_
    rcases taken_apart h.layout ht hu with rfl | hapart
    · simp only [sizeofBlockLink] at hk
      omega
    · have hsize := h.layout.granule_le (List.mem_append_right free ht)
      simp only [Block.Apart, Block.stop, sizeofBlockLink] at *
      omega
  have hend : SameHeader heap.mem mem' area.heapEnd := by
    refine hheader fun t ht k _ => ?_
    have hin := h.layout.within (List.mem_append_right free ht)
    omega
  exact
    { atEnd := h.atEnd
      topBit := h.topBit
      linked := h.linked.frame hfree
      endSize := hend.1.trans h.endSize
      endNext := fun hlt => hend.2.1.trans (h.endNext hlt)
      freeStamp := fun b hb =>
        (hfree b (List.mem_cons_of_mem _ hb)).2.2.trans (h.freeStamp b hb)
      takenHeader := by
        intro t ht
        obtain ⟨hsize, hnext, hstamp⟩ := htaken t ht
        obtain ⟨hsize', hnext', hstamp'⟩ := h.takenHeader t ht
        exact ⟨hsize.trans hsize', hnext.trans hnext', hstamp.trans hstamp'⟩
      layout := h.layout
      remaining := h.remaining }

end Freeing

end MuditaOS.Memory
