import MuditaOS.Proofs.UserMemRuns

/-!
# What a caller gets from the user heap

The size in a header counts the header, the size of a request does not.
Allocation allows for the difference; resizing compares and copies by the size
in the header. It does what its caller relies on when the block has the room, or
when there is no other block to move to.
-/

namespace MuditaOS.Memory

open Lib

/-- What a caller relies on: the pointer has the bytes asked for, resizing keeps
what fits of the old contents and reads nothing but the old block, and where it
fails it leaves the heap as it was. -/
def HeapSession.Serves (area : HeapArea) (s : HeapSession) : HeapCall → Prop
  | .usermalloc n => ∀ pv heap', s.heap.usermalloc area n = some (pv, heap') →
      pv ≠ 0 → n ≤ heap'.usable pv
  | .userfree _ => True
  | .userrealloc pv n => ∀ new copied heap',
      s.heap.userrealloc area pv n = some (new, copied, heap') →
      (new ≠ 0 → n ≤ heap'.usable new) ∧
      (pv ≠ 0 → new ≠ 0 → ∀ k, k < min (s.heap.usable pv) (heap'.usable new) →
        heap'.mem.word (new + k) = s.heap.mem.word (pv + k)) ∧
      (∀ src count, copied = some (src, count) →
        pv ≤ src ∧ src + count ≤ (s.heap.blockOf pv).stop) ∧
      (new = 0 → heap' = s.heap)

/-- The block has the room behind its header, or the request is larger than the
whole block and no free block has room for it. -/
def HeapSession.RoomOrNone (area : HeapArea) (s : HeapSession) : HeapCall → Prop
  | .usermalloc _ => True
  | .userfree _ => True
  | .userrealloc pv n => pv = 0 ∨ n ≤ s.heap.usable pv ∨
      (s.heap.blockOf pv).size < n ∧
        ∀ b ∈ s.heap.freeBlocks area, b.size < wantedSize n

variable {area : HeapArea}

theorem usable_pointer {heap : UserMem} {free taken : List Block}
    (h : Heaped area heap free taken) {t : Block} (ht : t ∈ taken) :
    heap.usable (t.addr + 32) = t.size - 32 := by
  have hblock : heap.blockOf (t.addr + 32) = t := blockOf_pointer h ht
  rw [UserMem.usable, hblock, Block.stop]
  omega

theorem usermalloc_serves {s : HeapSession} {free taken : List Block} {n : Nat}
    (h : Heaped area s.heap free taken) (hn : n < 2 ^ 32) {pv : Nat} {heap' : UserMem}
    (hmalloc : s.heap.usermalloc area n = some (pv, heap')) :
    (pv ≠ 0 → n ≤ heap'.usable pv) ∧ (pv = 0 → heap' = s.heap) := by
  rcases usermalloc_spec h hn with ⟨hnone, -⟩ |
      ⟨heap₁, free₁, c, hsome, -, hroom, -, hheaped, -⟩
  · rw [hnone, Option.some.injEq, Prod.mk.injEq] at hmalloc
    exact ⟨fun hpv => absurd hmalloc.1.symm hpv, fun _ => hmalloc.2.symm⟩
  · rw [hsome, Option.some.injEq, Prod.mk.injEq] at hmalloc
    obtain ⟨rfl, rfl⟩ := hmalloc
    refine ⟨fun _ => ?_, fun hpv => by omega⟩
    rw [usable_pointer hheaped (by simp)]
    omega

theorem userrealloc_null {heap : UserMem} {n : Nat} {new : Nat}
    {copied : Option (Nat × Nat)} {heap' : UserMem}
    (h : heap.userrealloc area 0 n = some (new, copied, heap')) :
    heap.usermalloc area n = some (new, heap') ∧ copied = none := by
  rw [UserMem.userrealloc, if_neg (by simp)] at h
  cases hmalloc : heap.usermalloc area n with
  | none =>
      rw [hmalloc] at h
      exact absurd h (by simp)
  | some result =>
      rw [hmalloc] at h
      simp only [Option.bind_eq_bind, Option.bind_some, Option.some.injEq,
        Prod.mk.injEq] at h
      obtain ⟨rfl, rfl, rfl⟩ := h
      exact ⟨rfl, rfl⟩

/-- For a live pointer, each way of resizing either serves and meets the
condition or does neither. -/
theorem userrealloc_serves {s : HeapSession} {free before behind : List Block}
    {c : Block} {n : Nat}
    (h : Heaped area s.heap free (before ++ c :: behind)) (hn : n < 2 ^ 32) :
    s.Serves area (.userrealloc (c.addr + 32) n) ↔
      s.RoomOrNone area (.userrealloc (c.addr + 32) n) := by
  have hc : c ∈ before ++ c :: behind := by simp
  have husable := usable_pointer h hc
  have hblock : s.heap.blockOf (c.addr + 32) = c := blockOf_pointer h hc
  have hfree := freeBlocks_eq h
  have hsize := h.layout.granule_le (List.mem_append_right _ hc)
  have hne : c.addr + 32 ≠ 0 := by omega
  simp only [HeapSession.Serves, HeapSession.RoomOrNone, husable, hblock, hfree]
  rcases userrealloc_spec h hn with ⟨hle, hrealloc⟩ | ⟨hlt, hsmall, hrealloc⟩ |
      ⟨heap₁, free₁, d, hlt, ⟨b, hb, hfits⟩, hrealloc, -⟩
  · -- In place: the comparison is with the whole block.
    refine ⟨fun hserves => ?_, fun hroom => ?_⟩
    · have := (hserves _ _ _ hrealloc).1 hne
      rw [husable] at this
      exact .inr (.inl this)
    · intro new copied heap' hresult
      rw [hrealloc, Option.some.injEq, Prod.mk.injEq, Prod.mk.injEq] at hresult
      obtain ⟨rfl, rfl, rfl⟩ := hresult
      refine ⟨fun _ => ?_, fun _ _ _ _ => rfl, by simp, fun hzero => absurd hzero hne⟩
      rw [husable]
      rcases hroom with hzero | hroom | hlarge
      · exact absurd hzero hne
      · exact hroom
      · omega
  · refine ⟨fun _ => .inr (.inr ⟨hlt, hsmall⟩), fun _ => ?_⟩
    intro new copied heap' hresult
    rw [hrealloc, Option.some.injEq, Prod.mk.injEq, Prod.mk.injEq] at hresult
    obtain ⟨rfl, rfl, rfl⟩ := hresult
    exact ⟨by simp, by simp, by simp, fun _ => rfl⟩
  · -- Moved: the copy reads as many bytes as the block has with its header.
    refine ⟨fun hserves => ?_, fun hroom => ?_⟩
    · have := ((hserves _ _ _ hrealloc).2.2.1 _ _ rfl).2
      simp only [Block.stop] at this
      omega
    · rcases hroom with hzero | hroom | hnone
      · exact absurd hzero hne
      · omega
      · have := hnone.2 b hb
        omega

/-- In every state a run reaches, a call serves its caller exactly when it has
the room or nowhere to move. -/
theorem userHeap_serves_iff (area : HeapArea) (mem : Words) (calls : List HeapCall)
    (s : HeapSession) (h : HeapSession.Reaches area mem calls s) (call : HeapCall)
    (hcall : s.Permitted call) :
    s.Serves area call ↔ s.RoomOrNone area call := by
  obtain ⟨free, taken, hholding⟩ := reaches_holding h
  cases call with
  | usermalloc n =>
      exact ⟨fun _ => trivial,
        fun _ _ _ hmalloc => (usermalloc_serves hholding.1 hcall hmalloc).1⟩
  | userfree pv => exact Iff.rfl
  | userrealloc pv n =>
      obtain ⟨hpv, hn⟩ := hcall
      rcases hpv with rfl | hpv
      · refine ⟨fun _ => .inl rfl, fun _ new copied heap' hresult => ?_⟩
        obtain ⟨hmalloc, rfl⟩ := userrealloc_null hresult
        have hserves := usermalloc_serves hholding.1 hn hmalloc
        exact ⟨hserves.1, fun hzero => absurd rfl hzero, by simp, hserves.2⟩
      · obtain ⟨before, c, behind, rfl, rfl, -⟩ := live_split hholding hpv
        exact userrealloc_serves hholding.1 hn

/-- Growing a block into the bytes it has leaves it where it is. -/
theorem userHeap_serves_grown :
    ∃ s, HeapSession.Reaches smallArea blank [.usermalloc 20] s ∧ s.live = [4128] ∧
      (s.Serves smallArea (.userrealloc 4128 32) ↔
        s.RoomOrNone smallArea (.userrealloc 4128 32)) := by
  have hlive : ((HeapSession.start smallArea blank).run smallArea
      [.usermalloc 20]).map HeapSession.live = some [4128] := by decide
  obtain ⟨s, hs, hslive⟩ := Option.map_eq_some_iff.1 hlive
  have h := reaches_of_run .start hs
  have hpermitted : s.Permitted (.userrealloc 4128 32) :=
    ⟨.inr (by rw [hslive]; exact List.mem_cons_self), by decide⟩
  exact ⟨s, h, hslive, userHeap_serves_iff smallArea blank _ _ h _ hpermitted⟩

/-- A block with 32 bytes behind its header is returned for a request of 64. -/
theorem userrealloc_short :
    ∃ s, HeapSession.Reaches smallArea blank [.usermalloc 32] s ∧
      s.Permitted (.userrealloc 4128 64) ∧
      ¬ s.Serves smallArea (.userrealloc 4128 64) := by
  have hlive : ((HeapSession.start smallArea blank).run smallArea
      [.usermalloc 32]).map (fun s => (s.live,
        (s.heap.userrealloc smallArea 4128 64).map
          fun result => (result.1, result.2.2.usable result.1))) =
      some ([4128], some (4128, 32)) := by decide
  obtain ⟨s, hs, hresult⟩ := Option.map_eq_some_iff.1 hlive
  rw [Prod.mk.injEq] at hresult
  obtain ⟨hslive, hrealloc⟩ := hresult
  obtain ⟨⟨new, copied, heap'⟩, hmove, hroom⟩ := Option.map_eq_some_iff.1 hrealloc
  rw [Prod.mk.injEq] at hroom
  obtain ⟨hnew, husable⟩ := hroom
  refine ⟨s, reaches_of_run .start hs,
    ⟨.inr (by rw [hslive]; exact List.mem_cons_self), by decide⟩, fun hserves => ?_⟩
  have hshort := (hserves new copied heap' hmove).1 (by rw [show new = 4128 from hnew]; decide)
  rw [show heap'.usable new = 32 from husable] at hshort
  exact absurd hshort (by decide)

end MuditaOS.Memory
