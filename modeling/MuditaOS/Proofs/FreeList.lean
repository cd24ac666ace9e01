import MuditaOS.Memory.UserMem

/-!
# The free list in memory

`Linked` says that the headers in memory link a list of blocks up to the end
marker. The loops of the allocator walk such a list, and what they write keeps
it: inserting a block is `insertAfter` on the list, and taking one out drops it.
-/

namespace MuditaOS.Memory

open Lib

/-! ## Fields of headers -/

/-- Two headers share no word. -/
def Far (a b : Nat) : Prop := a + sizeofBlockLink ≤ b ∨ b + sizeofBlockLink ≤ a

theorem Far.symm {a b : Nat} (h : Far a b) : Far b a := Or.symm h

theorem Far.ne {a b : Nat} (h : Far a b) : a ≠ b := by
  simp only [Far, sizeofBlockLink] at h
  omega

theorem far_of_apart {b c : Block} (h : b.Apart c) (hb : sizeofBlockLink ≤ b.size)
    (hc : sizeofBlockLink ≤ c.size) : Far b.addr c.addr := by
  simp only [Block.Apart, Block.stop, Far] at *
  omega

section Fields

variable {mem : Words} {p q v : Nat}

@[simp] theorem size_setSize : (mem.setSize p v).xBlockSize p = v := by
  simp [Words.setSize, Words.xBlockSize, Words.store]

@[simp] theorem next_setNext : (mem.setNext p v).pxNextFreeBlock p = v := by
  simp [Words.setNext, Words.pxNextFreeBlock, Words.store]

@[simp] theorem stamp_setStamp : (mem.setStamp p v).ulStamp p = v := by
  simp [Words.setStamp, Words.ulStamp, Words.store]

@[simp] theorem next_setSize : (mem.setSize p v).pxNextFreeBlock p =
    mem.pxNextFreeBlock p := by
  simp [Words.setSize, Words.pxNextFreeBlock, Words.store]

@[simp] theorem size_setNext : (mem.setNext p v).xBlockSize p = mem.xBlockSize p := by
  simp [Words.setNext, Words.xBlockSize, Words.store]

@[simp] theorem size_setStamp : (mem.setStamp p v).xBlockSize p =
    mem.xBlockSize p := by
  simp [Words.setStamp, Words.xBlockSize, Words.store]

@[simp] theorem next_setStamp : (mem.setStamp p v).pxNextFreeBlock p =
    mem.pxNextFreeBlock p := by
  simp [Words.setStamp, Words.pxNextFreeBlock, Words.store]

@[simp] theorem stamp_setSize : (mem.setSize p v).ulStamp p = mem.ulStamp p := by
  simp [Words.setSize, Words.ulStamp, Words.store]

@[simp] theorem stamp_setNext : (mem.setNext p v).ulStamp p = mem.ulStamp p := by
  simp [Words.setNext, Words.ulStamp, Words.store]

theorem word_setSize {w : Nat} (h : w ≠ p + 8) :
    (mem.setSize p v).word w = mem.word w := if_neg h

theorem word_setNext {w : Nat} (h : w ≠ p + 4) :
    (mem.setNext p v).word w = mem.word w := if_neg h

theorem word_setStamp {w : Nat} (h : w ≠ p) :
    (mem.setStamp p v).word w = mem.word w := if_neg h

end Fields

/-- The two memories agree on the header at `q`. -/
def SameHeader (mem mem' : Words) (q : Nat) : Prop :=
  mem'.xBlockSize q = mem.xBlockSize q ∧
  mem'.pxNextFreeBlock q = mem.pxNextFreeBlock q ∧
  mem'.ulStamp q = mem.ulStamp q

theorem SameHeader.trans {mem mem' mem'' : Words} {q : Nat}
    (h : SameHeader mem mem' q) (h' : SameHeader mem' mem'' q) :
    SameHeader mem mem'' q :=
  ⟨h'.1.trans h.1, h'.2.1.trans h.2.1, h'.2.2.trans h.2.2⟩

/-- Writing one header leaves the others alone. -/
theorem sameHeader_set {mem : Words} {p q v : Nat} (h : Far q p) :
    SameHeader mem (mem.setSize p v) q ∧ SameHeader mem (mem.setNext p v) q ∧
      SameHeader mem (mem.setStamp p v) q := by
  simp only [Far, sizeofBlockLink] at h
  refine ⟨⟨?_, ?_, ?_⟩, ⟨?_, ?_, ?_⟩, ⟨?_, ?_, ?_⟩⟩ <;>
    exact if_neg (by omega)

/-- The two memories agree but for the link and the size in the headers at the
given addresses. -/
def SameOff (headers : List Nat) (mem mem' : Words) : Prop :=
  ∀ w, (∀ a ∈ headers, w ≠ a + 4 ∧ w ≠ a + 8) → mem'.word w = mem.word w

theorem SameOff.trans {as bs : List Nat} {mem mem' mem'' : Words}
    (h : SameOff as mem mem') (h' : SameOff bs mem' mem'') (hle : as ⊆ bs) :
    SameOff bs mem mem'' := by
  intro w hw
  rw [h' w hw, h w fun a ha => hw a (hle ha)]

theorem SameOff.mono {as bs : List Nat} {mem mem' : Words} (h : SameOff as mem mem')
    (hle : as ⊆ bs) : SameOff bs mem mem' :=
  fun w hw => h w fun a ha => hw a (hle ha)

theorem SameOff.header {as : List Nat} {mem mem' : Words} {q : Nat}
    (h : SameOff as mem mem') (hq : ∀ a ∈ as, Far q a) : SameHeader mem mem' q := by
  have hword : ∀ k, k < sizeofBlockLink → mem'.word (q + k) = mem.word (q + k) := by
    intro k hk
    refine h (q + k) fun a ha => ?_
    have := hq a ha
    simp only [Far, sizeofBlockLink] at this hk
    omega
  exact ⟨hword 8 (by decide), hword 4 (by decide), hword 0 (by decide)⟩

/-- A stamp is kept even where the rest of its header is not. -/
theorem SameOff.stamp {as : List Nat} {mem mem' : Words} {q : Nat}
    (h : SameOff as mem mem') (hq : ∀ a ∈ as, q = a ∨ Far q a) :
    mem'.ulStamp q = mem.ulStamp q := by
  refine h q fun a ha => ?_
  rcases hq a ha with rfl | hfar
  · omega
  · simp only [Far, sizeofBlockLink] at hfar
    omega

theorem sameOff_setSize {mem : Words} {p v : Nat} :
    SameOff [p] mem (mem.setSize p v) :=
  fun _ hw => word_setSize (hw p List.mem_cons_self).2

theorem sameOff_setNext {mem : Words} {p v : Nat} :
    SameOff [p] mem (mem.setNext p v) :=
  fun _ hw => word_setNext (hw p List.mem_cons_self).1

/-! ## A linked list of blocks -/

def headAddr (pxUserEnd : Nat) : List Block → Nat
  | [] => pxUserEnd
  | b :: _ => b.addr

@[simp] theorem headAddr_cons {e : Nat} {b : Block} {bs : List Block} :
    headAddr e (b :: bs) = b.addr := rfl

def Linked (mem : Words) (pxUserEnd : Nat) : List Block → Prop
  | [] => True
  | b :: bs =>
      mem.xBlockSize b.addr = b.size ∧
      mem.pxNextFreeBlock b.addr = headAddr pxUserEnd bs ∧ Linked mem pxUserEnd bs

theorem Linked.frame {mem mem' : Words} {e : Nat} {bs : List Block}
    (h : Linked mem e bs) (hsame : ∀ b ∈ bs, SameHeader mem mem' b.addr) :
    Linked mem' e bs := by
  induction bs with
  | nil => trivial
  | cons b bs ih =>
      obtain ⟨hsize, hnext, hrest⟩ := h
      obtain ⟨hsize', hnext', -⟩ := hsame b List.mem_cons_self
      exact ⟨hsize'.trans hsize, hnext'.trans hnext,
        ih hrest fun c hc => hsame c (List.mem_cons_of_mem _ hc)⟩

theorem Linked.sizes {mem : Words} {e : Nat} {bs : List Block}
    (h : Linked mem e bs) : ∀ b ∈ bs, mem.xBlockSize b.addr = b.size := by
  induction bs with
  | nil => exact fun b hb => absurd hb List.not_mem_nil
  | cons b bs ih =>
      intro c hc
      rcases List.mem_cons.1 hc with rfl | hc
      · exact h.1
      · exact ih h.2.2 c hc

theorem headAddr_joinNext {e : Nat} {x : Block} {bs : List Block} :
    headAddr e (joinNext x bs) = x.addr := by
  cases bs with
  | nil => rfl
  | cons c cs =>
      rw [joinNext]
      split <;> rfl

/-! ## Insertion -/

section Insertion

variable {mem : Words} {e : Nat} {x : Block}

theorem joinWithNext_spec {i : Nat} {bs : List Block}
    (hi : mem.pxNextFreeBlock i = headAddr e bs)
    (hx : mem.xBlockSize x.addr = x.size) (hbs : Linked mem e bs)
    (hfar : ∀ c ∈ bs, Far x.addr c.addr ∧ c.addr ≠ e) :
    Linked (joinWithNext e i x.addr mem) e (joinNext x bs) ∧
      SameOff [x.addr] mem (joinWithNext e i x.addr mem) := by
  -- A memory that differs at the header of `x` alone still links the rest.
  have hrest : ∀ {mem' : Words} {cs : List Block}, cs ⊆ bs → Linked mem e cs →
      SameOff [x.addr] mem mem' → Linked mem' e cs := by
    intro mem' cs hsub hcs hsame
    refine hcs.frame fun c hc => hsame.header fun a ha => ?_
    rw [List.mem_singleton.1 ha]
    exact (hfar c (hsub hc)).1.symm
  rw [joinWithNext, hi, hx]
  cases bs with
  | nil =>
      simp only [headAddr, ne_eq, not_true_eq_false, if_false, joinNext]
      have hmem : (if x.addr + x.size = e then mem.setNext x.addr e
          else mem.setNext x.addr e) = mem.setNext x.addr e := ite_self _
      rw [hmem]
      exact ⟨⟨by rw [size_setNext, hx], by rw [next_setNext]; rfl, trivial⟩,
        sameOff_setNext⟩
  | cons c cs =>
      obtain ⟨hsize, hnext, hcs⟩ := hbs
      have hce : c.addr ≠ e := (hfar c List.mem_cons_self).2
      simp only [headAddr, hce, ne_eq, not_false_eq_true, if_true, joinNext]
      by_cases hstop : x.addr + x.size = c.addr
      · rw [if_pos hstop, if_pos (show x.stop = c.addr from hstop), hsize, hnext]
        have hsame := (@sameOff_setSize mem x.addr (x.size + c.size)).trans
          (@sameOff_setNext _ x.addr (headAddr e cs)) (fun _ h => h)
        refine ⟨⟨?_, ?_, hrest (List.subset_cons_self _ _) hcs hsame⟩, hsame⟩
        · rw [Block.join_addr, size_setNext, size_setSize]
          rfl
        · rw [Block.join_addr, next_setNext]
      · rw [if_neg hstop, if_neg (show ¬ x.stop = c.addr from hstop)]
        have hsame := @sameOff_setNext mem x.addr c.addr
        refine ⟨⟨by rw [size_setNext, hx], next_setNext, ?_⟩, hsame⟩
        exact hrest (fun _ h => h) ⟨hsize, hnext, hcs⟩ hsame

theorem insertBehind_spec {b : Block} {bs : List Block}
    (hlinked : Linked mem e (b :: bs)) (hx : mem.xBlockSize x.addr = x.size)
    (hbx : Far b.addr x.addr)
    (hfar : ∀ c ∈ bs, Far x.addr c.addr ∧ Far b.addr c.addr ∧ c.addr ≠ e) :
    Linked (insertBehind e b.addr x.addr mem) e
        (if b.stop = x.addr then joinNext (b.join x) bs else b :: joinNext x bs) ∧
      SameOff [b.addr, x.addr] mem (insertBehind e b.addr x.addr mem) := by
  obtain ⟨hsize, hnext, hbs⟩ := hlinked
  rw [insertBehind, hsize, hx]
  by_cases hstop : b.addr + b.size = x.addr
  · rw [if_pos (show b.stop = x.addr from hstop)]
    simp only [hstop, if_true, ne_eq, not_true_eq_false, if_false]
    have hset := @sameOff_setSize mem b.addr (b.size + x.size)
    have hbs' : Linked (mem.setSize b.addr (b.size + x.size)) e bs := by
      refine hbs.frame fun c hc => hset.header fun a ha => ?_
      rw [List.mem_singleton.1 ha]
      exact (hfar c hc).2.1.symm
    obtain ⟨hjoined, hsame⟩ := @joinWithNext_spec _ e (b.join x) b.addr bs
      (next_setSize.trans hnext) size_setSize hbs'
      (fun c hc => ⟨(hfar c hc).2.1, (hfar c hc).2.2⟩)
    refine ⟨hjoined, ?_⟩
    exact (hset.trans hsame (fun _ h => h)).mono (by simp)
  · rw [if_neg (show ¬ b.stop = x.addr from hstop)]
    simp only [hstop, if_false, ne_eq, hbx.ne, not_false_eq_true, if_true]
    obtain ⟨hjoined, hsame⟩ := joinWithNext_spec hnext hx hbs
      (fun c hc => ⟨(hfar c hc).1, (hfar c hc).2.2⟩)
    have hheader := hsame.header (q := b.addr) fun a ha => by
      rw [List.mem_singleton.1 ha]
      exact hbx
    have hset := @sameOff_setNext (joinWithNext e b.addr x.addr mem) b.addr x.addr
    refine ⟨⟨?_, ?_, hjoined.frame fun d hd => hset.header fun a ha => ?_⟩, ?_⟩
    · rw [size_setNext, hheader.1, hsize]
    · rw [next_setNext, headAddr_joinNext]
    · rw [List.mem_singleton.1 ha]
      refine joinNext_forall (P := fun d => Far d.addr b.addr)
        (fun _ _ _ h _ => h) hbx.symm (fun c hc => (hfar c hc).2.1.symm) d hd
    · exact (hsame.mono (by simp)).trans (hset.mono (by simp)) (fun _ h => h)

/-- The loop finds the place, and the insertion there is `insertAfter`. -/
theorem seek_insert (hx : mem.xBlockSize x.addr = x.size) (hxe : x.addr < e) :
    ∀ {bs : List Block} {b : Block} {fuel : Nat}, Linked mem e (b :: bs) →
      bs.length < fuel → (b :: bs).Pairwise (fun c d => Far c.addr d.addr) →
      (∀ c ∈ b :: bs, Far c.addr x.addr) → (∀ c ∈ bs, c.addr ≠ e) →
      ∃ it, seek mem x.addr fuel b.addr = some it ∧
        Linked (insertBehind e it x.addr mem) e (insertAfter b x bs) ∧
        SameOff (x.addr :: (b :: bs).map Block.addr) mem
          (insertBehind e it x.addr mem) := by
  have hstay : ∀ {bs : List Block} {b : Block}, Linked mem e (b :: bs) →
      (b :: bs).Pairwise (fun c d => Far c.addr d.addr) →
      (∀ c ∈ b :: bs, Far c.addr x.addr) → (∀ c ∈ bs, c.addr ≠ e) →
      Linked (insertBehind e b.addr x.addr mem) e
        (if b.stop = x.addr then joinNext (b.join x) bs else b :: joinNext x bs) ∧
      SameOff (x.addr :: (b :: bs).map Block.addr) mem
        (insertBehind e b.addr x.addr mem) := by
    intro bs b hlinked hpair hfar hend
    obtain ⟨hb, -⟩ := List.pairwise_cons.1 hpair
    obtain ⟨hins, hsame⟩ := insertBehind_spec hlinked hx
      (hfar b List.mem_cons_self) (fun c hc =>
        ⟨(hfar c (List.mem_cons_of_mem _ hc)).symm, hb c hc, hend c hc⟩)
    exact ⟨hins, hsame.mono (by simp)⟩
  intro bs
  induction bs with
  | nil =>
      intro b fuel hlinked hfuel hpair hfar hend
      obtain ⟨n, rfl⟩ := Nat.exists_eq_add_of_lt hfuel
      refine ⟨b.addr, ?_, hstay hlinked hpair hfar hend⟩
      rw [List.length_nil, Nat.zero_add, seek, hlinked.2.1,
        if_neg (by simp only [headAddr]; omega)]
  | cons c cs ih =>
      intro b fuel hlinked hfuel hpair hfar hend
      obtain ⟨n, rfl⟩ := Nat.exists_eq_add_of_lt hfuel
      rw [seek, hlinked.2.1, headAddr_cons, insertAfter]
      by_cases hlt : c.addr < x.addr
      · rw [if_pos hlt, if_pos hlt]
        obtain ⟨hb, hpair'⟩ := List.pairwise_cons.1 hpair
        obtain ⟨it, hseek, hins, hsame⟩ := @ih c ((c :: cs).length + n)
          hlinked.2.2 (by simp only [List.length_cons]; omega) hpair'
          (fun d hd => hfar d (List.mem_cons_of_mem _ hd))
          (fun d hd => hend d (List.mem_cons_of_mem _ hd))
        obtain ⟨d, ds, heq, haddr⟩ := @insertAfter_head c x cs
        have hheader := hsame.header (q := b.addr) fun a ha => by
          rcases List.mem_cons.1 ha with rfl | ha
          · exact hfar b List.mem_cons_self
          · obtain ⟨d, hd, rfl⟩ := List.mem_map.1 ha
            exact hb d hd
        refine ⟨it, hseek, ⟨?_, ?_, hins⟩, hsame.mono ?_⟩
        · rw [hheader.1, hlinked.1]
        · rw [hheader.2.1, hlinked.2.1, heq, headAddr_cons, headAddr_cons, haddr]
        · simp only [List.map_cons]
          exact List.cons_subset_cons _ (List.subset_cons_self _ _)
      · rw [if_neg hlt, if_neg hlt]
        exact ⟨b.addr, rfl, hstay hlinked hpair hfar hend⟩

/-- Inserting into a list whose head is no block of the heap. -/
theorem prvInsertBlockIntoFreeList_spec {head : Block} {free : List Block}
    {fuel : Nat} (hlinked : Linked mem e (head :: free))
    (hx : mem.xBlockSize x.addr = x.size) (hxe : x.addr < e)
    (hfuel : free.length < fuel)
    (hpair : (head :: free).Pairwise fun c d => Far c.addr d.addr)
    (hfar : ∀ c ∈ head :: free, Far c.addr x.addr) (hend : ∀ c ∈ free, c.addr ≠ e)
    (hhead : head.stop ≠ x.addr) :
    ∃ mem', prvInsertBlockIntoFreeList fuel head.addr e x.addr mem = some mem' ∧
      Linked mem' e (head :: insertBlock x free) ∧
      SameOff (x.addr :: (head :: free).map Block.addr) mem mem' := by
  obtain ⟨it, hseek, hins, hsame⟩ := seek_insert hx hxe hlinked hfuel hpair hfar hend
  rw [insertAfter_of_ne hhead] at hins
  refine ⟨_, ?_, hins, hsame⟩
  rw [prvInsertBlockIntoFreeList, hseek]
  rfl

end Insertion

/-! ## Search and removal -/

section Search

variable {mem : Words} {e : Nat}

def lastAddr : Block → List Block → Nat
  | b, [] => b.addr
  | _, c :: cs => lastAddr c cs

theorem lastAddr_mem {b : Block} {bs : List Block} :
    lastAddr b bs ∈ (b :: bs).map Block.addr := by
  induction bs generalizing b with
  | nil => exact List.mem_cons_self
  | cons c cs ih => exact List.mem_cons_of_mem _ ih

/-- What the search leaves behind it is too small; it stops at the first block
that is large enough, or at the end. -/
theorem findBlock_spec {wanted : Nat} (he : e ≠ 0) (hnext : mem.pxNextFreeBlock e = 0) :
    ∀ {bs : List Block} {b : Block} {fuel : Nat}, Linked mem e (b :: bs) →
      bs.length < fuel → (∀ c ∈ bs, c.addr ≠ 0) →
      (∃ (pre : List Block) (c : Block) (post : List Block), bs = pre ++ c :: post ∧
        wanted ≤ c.size ∧
        findBlock mem wanted fuel b.addr (mem.pxNextFreeBlock b.addr) =
          some (lastAddr b pre, c.addr)) ∨
      ((∀ c ∈ bs, c.size < wanted) ∧
        ∃ prev, findBlock mem wanted fuel b.addr (mem.pxNextFreeBlock b.addr) =
          some (prev, e)) := by
  intro bs
  induction bs with
  | nil =>
      intro b fuel hlinked hfuel _
      obtain ⟨n, rfl⟩ := Nat.exists_eq_add_of_lt hfuel
      refine .inr ⟨by simp, b.addr, ?_⟩
      rw [List.length_nil, Nat.zero_add, hlinked.2.1, findBlock, headAddr,
        if_neg (by rw [hnext]; simp)]
  | cons c cs ih =>
      intro b fuel hlinked hfuel hne
      obtain ⟨n, rfl⟩ := Nat.exists_eq_add_of_lt hfuel
      obtain ⟨-, hb, hlinked'⟩ := hlinked
      rw [hb, headAddr_cons, findBlock, hlinked'.1]
      by_cases hlt : c.size < wanted
      · have hgoes : mem.pxNextFreeBlock c.addr ≠ 0 := by
          rw [hlinked'.2.1]
          cases cs with
          | nil => exact he
          | cons d ds => exact hne d (by simp)
        rw [if_pos ⟨hlt, hgoes⟩]
        rcases @ih c ((c :: cs).length + n) hlinked'
            (by simp only [List.length_cons]; omega)
            (fun d hd => hne d (List.mem_cons_of_mem _ hd)) with
          ⟨pre, d, post, rfl, hfits, hfind⟩ | ⟨hsmall, hfind⟩
        · exact .inl ⟨c :: pre, d, post, rfl, hfits, hfind⟩
        · refine .inr ⟨fun d hd => ?_, hfind⟩
          rcases List.mem_cons.1 hd with rfl | hd
          · exact hlt
          · exact hsmall d hd
      · rw [if_neg fun h => hlt h.1]
        exact .inl ⟨[], c, cs, rfl, by omega, rfl⟩

theorem blocksBehind_eq {heap : UserMem} :
    ∀ {bs : List Block} {b : Block} {fuel : Nat},
      Linked heap.mem heap.pxUserEnd (b :: bs) → bs.length < fuel →
      (∀ c ∈ bs, c.addr ≠ heap.pxUserEnd) → heap.blocksBehind fuel b.addr = bs := by
  intro bs
  induction bs with
  | nil =>
      intro b fuel hlinked hfuel _
      obtain ⟨n, rfl⟩ := Nat.exists_eq_add_of_lt hfuel
      rw [List.length_nil, Nat.zero_add, UserMem.blocksBehind, hlinked.2.1]
      exact if_pos rfl
  | cons c cs ih =>
      intro b fuel hlinked hfuel hend
      obtain ⟨n, rfl⟩ := Nat.exists_eq_add_of_lt hfuel
      obtain ⟨-, hb, hlinked'⟩ := hlinked
      rw [UserMem.blocksBehind, hb, headAddr_cons, hlinked'.1]
      simp only [hend c List.mem_cons_self, if_false]
      rw [ih hlinked' (by simp only [List.length_cons]; omega)
        fun d hd => hend d (List.mem_cons_of_mem _ hd)]

theorem linked_last {c : Block} {post : List Block} :
    ∀ {pre : List Block} {b : Block}, Linked mem e (b :: (pre ++ c :: post)) →
      mem.pxNextFreeBlock (lastAddr b pre) = c.addr ∧
        mem.xBlockSize c.addr = c.size ∧
        mem.pxNextFreeBlock c.addr = headAddr e post := by
  intro pre
  induction pre with
  | nil => exact fun h => ⟨h.2.1, h.2.2.1, h.2.2.2.1⟩
  | cons d pre ih => exact fun h => ih h.2.2

/-- A block is taken out by linking the one before it to the one behind. -/
theorem linked_unlink {c : Block} {post : List Block} :
    ∀ {pre : List Block} {b : Block}, Linked mem e (b :: (pre ++ c :: post)) →
      (b :: (pre ++ c :: post)).Pairwise (fun c d => Far c.addr d.addr) →
      Linked (mem.setNext (lastAddr b pre) (headAddr e post)) e
        (b :: (pre ++ post)) := by
  have hothers : ∀ {cs ds : List Block} {b : Block} {v : Nat}, cs ⊆ ds →
      (b :: ds).Pairwise (fun c d => Far c.addr d.addr) → Linked mem e cs →
      Linked (mem.setNext b.addr v) e cs := by
    intro cs ds b v hsub hpair hcs
    refine hcs.frame fun d hd => sameOff_setNext.header fun a ha => ?_
    rw [List.mem_singleton.1 ha]
    exact ((List.pairwise_cons.1 hpair).1 d (hsub hd)).symm
  intro pre
  induction pre with
  | nil =>
      intro b hlinked hpair
      exact ⟨by rw [lastAddr, size_setNext, hlinked.1], next_setNext,
        hothers (List.subset_cons_self _ _) hpair hlinked.2.2.2.2⟩
  | cons d pre ih =>
      intro b hlinked hpair
      obtain ⟨hb, hpair'⟩ := List.pairwise_cons.1 hpair
      have hheader := @SameOff.header [lastAddr d pre] mem _ b.addr
        (@sameOff_setNext mem (lastAddr d pre) (headAddr e post)) (by
          intro a ha
          rw [List.mem_singleton.1 ha]
          obtain ⟨c', hc', heq⟩ := List.mem_map.1 (@lastAddr_mem d pre)
          rw [← heq]
          refine hb c' ?_
          rcases List.mem_cons.1 hc' with rfl | hc'
          · exact List.mem_cons_self
          · exact List.mem_cons_of_mem _ (List.mem_append_left _ hc'))
      refine ⟨?_, ?_, ih hlinked.2.2 hpair'⟩
      · rw [lastAddr, hheader.1, hlinked.1]
      · rw [lastAddr, hheader.2.1, hlinked.2.1]
        rfl

end Search

end MuditaOS.Memory
