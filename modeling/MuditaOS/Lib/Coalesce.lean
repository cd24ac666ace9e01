import Mathlib

/-!
# Free blocks in address order

A free list keeps its blocks in address order and never lets two of them touch:
inserting a block joins it with the one before and the one behind where it fills
the gap between them. The blocks then hold the bytes they held before and those of
the new block, and every property that survives a join survives an insertion.
-/

namespace MuditaOS.Lib

structure Block where
  addr : Nat
  size : Nat
  deriving DecidableEq, Repr

namespace Block

def stop (b : Block) : Nat := b.addr + b.size

def Holds (b : Block) (y : Nat) : Prop := b.addr ≤ y ∧ y < b.stop

def Apart (b c : Block) : Prop := b.stop ≤ c.addr ∨ c.stop ≤ b.addr

/-- There is a byte between the two. -/
def Below (b c : Block) : Prop := b.stop < c.addr

def join (b c : Block) : Block := ⟨b.addr, b.size + c.size⟩

theorem Apart.symm {b c : Block} (h : b.Apart c) : c.Apart b := Or.symm h

theorem Below.apart {b c : Block} (h : b.Below c) : b.Apart c := .inl (Nat.le_of_lt h)

@[simp] theorem join_addr (b c : Block) : (b.join c).addr = b.addr := rfl

theorem stop_join {b c : Block} (h : b.stop = c.addr) : (b.join c).stop = c.stop := by
  simp only [stop, join] at *
  omega

theorem holds_join {b c : Block} {y : Nat} (h : b.stop = c.addr) :
    (b.join c).Holds y ↔ b.Holds y ∨ c.Holds y := by
  simp only [Holds, stop, join] at *
  omega

theorem apart_join {a b c : Block} (h : b.stop = c.addr) (ha : 0 < a.size)
    (hb : b.Apart a) (hc : c.Apart a) : (b.join c).Apart a := by
  simp only [Apart, stop, join] at *
  omega

theorem Apart.not_holds {b c : Block} {y : Nat} (h : b.Apart c) (hb : b.Holds y) :
    ¬ c.Holds y := by
  simp only [Apart, Holds, stop] at *
  omega

end Block

/-! ## Insertion -/

def joinNext (x : Block) : List Block → List Block
  | [] => [x]
  | c :: cs => if x.stop = c.addr then x.join c :: cs else x :: c :: cs

/-- `x` inserted somewhere behind `b`, which is part of the list. -/
def insertAfter (b x : Block) : List Block → List Block
  | [] => if b.stop = x.addr then joinNext (b.join x) [] else b :: joinNext x []
  | c :: cs =>
      if c.addr < x.addr then b :: insertAfter c x cs
      else if b.stop = x.addr then joinNext (b.join x) (c :: cs)
      else b :: joinNext x (c :: cs)

def insertBlock (x : Block) : List Block → List Block
  | [] => joinNext x []
  | c :: cs => if c.addr < x.addr then insertAfter c x cs else joinNext x (c :: cs)

variable {b x : Block} {cs : List Block}

/-- A list head that touches no block is left alone. -/
theorem insertAfter_of_ne (h : b.stop ≠ x.addr) :
    insertAfter b x cs = b :: insertBlock x cs := by
  cases cs with
  | nil => rw [insertAfter, if_neg h, insertBlock]
  | cons c cs =>
      rw [insertAfter, insertBlock, if_neg h]
      split <;> rfl

/-! ## What holds of every block -/

section Closed

variable {P : Block → Prop}
  (hjoin : ∀ b c : Block, b.stop = c.addr → P b → P c → P (b.join c))
include hjoin

theorem joinNext_forall (hx : P x) (hcs : ∀ c ∈ cs, P c) :
    ∀ d ∈ joinNext x cs, P d := by
  cases cs with
  | nil => simpa [joinNext] using hx
  | cons c cs =>
      rw [joinNext]
      split
      · next hstop =>
          intro d hd
          rcases List.mem_cons.1 hd with rfl | hd
          · exact hjoin _ _ hstop hx (hcs c List.mem_cons_self)
          · exact hcs d (List.mem_cons_of_mem _ hd)
      · intro d hd
        rcases List.mem_cons.1 hd with rfl | hd
        · exact hx
        · exact hcs d hd

theorem insertAfter_forall (hx : P x) :
    ∀ {b : Block}, P b → (∀ c ∈ cs, P c) → ∀ d ∈ insertAfter b x cs, P d := by
  -- Both ends of the recursion are a `joinNext`, of `b.join x` or of `x`.
  have hend : ∀ {b : Block} {cs : List Block}, P b → (∀ c ∈ cs, P c) →
      ∀ d ∈ (if b.stop = x.addr then joinNext (b.join x) cs
        else b :: joinNext x cs), P d := by
    intro b cs hb hcs
    split
    · next hstop => exact joinNext_forall hjoin (hjoin _ _ hstop hb hx) hcs
    · intro d hd
      rcases List.mem_cons.1 hd with rfl | hd
      · exact hb
      · exact joinNext_forall hjoin hx hcs d hd
  induction cs with
  | nil => intro b hb hcs; exact hend hb hcs
  | cons c cs ih =>
      intro b hb hcs
      rw [insertAfter]
      split
      · intro d hd
        rcases List.mem_cons.1 hd with rfl | hd
        · exact hb
        · exact ih (hcs c List.mem_cons_self)
            (fun e he => hcs e (List.mem_cons_of_mem _ he)) d hd
      · exact hend hb hcs

theorem insertBlock_forall (hx : P x) (hcs : ∀ c ∈ cs, P c) :
    ∀ d ∈ insertBlock x cs, P d := by
  cases cs with
  | nil => exact joinNext_forall hjoin hx hcs
  | cons c cs =>
      rw [insertBlock]
      split
      · exact insertAfter_forall hjoin hx (hcs c List.mem_cons_self)
          (fun e he => hcs e (List.mem_cons_of_mem _ he))
      · exact joinNext_forall hjoin hx hcs

end Closed

/-! ## What is held, and how much -/

theorem holds_joinNext {y : Nat} :
    (∃ d ∈ joinNext x cs, d.Holds y) ↔ x.Holds y ∨ ∃ c ∈ cs, c.Holds y := by
  cases cs with
  | nil => simp [joinNext]
  | cons c cs =>
      rw [joinNext]
      split
      · next hstop => simp [Block.holds_join hstop, or_assoc]
      · simp

theorem holds_insertAfter {y : Nat} :
    ∀ {b : Block}, (∃ d ∈ insertAfter b x cs, d.Holds y) ↔
      b.Holds y ∨ x.Holds y ∨ ∃ c ∈ cs, c.Holds y := by
  have hend : ∀ {b : Block} {cs : List Block},
      (∃ d ∈ (if b.stop = x.addr then joinNext (b.join x) cs
        else b :: joinNext x cs), d.Holds y) ↔
      b.Holds y ∨ x.Holds y ∨ ∃ c ∈ cs, c.Holds y := by
    intro b cs
    split
    · next hstop => rw [holds_joinNext, Block.holds_join hstop, or_assoc]
    · rw [List.exists_mem_cons_iff, holds_joinNext]
  induction cs with
  | nil => intro b; exact hend
  | cons c cs ih =>
      intro b
      rw [insertAfter]
      split
      · rw [List.exists_mem_cons_iff, ih, List.exists_mem_cons_iff]
        tauto
      · exact hend

theorem holds_insertBlock {y : Nat} :
    (∃ d ∈ insertBlock x cs, d.Holds y) ↔ x.Holds y ∨ ∃ c ∈ cs, c.Holds y := by
  cases cs with
  | nil => rw [insertBlock, holds_joinNext]
  | cons c cs =>
      rw [insertBlock]
      split
      · rw [holds_insertAfter, List.exists_mem_cons_iff]
        tauto
      · exact holds_joinNext

def sizes (bs : List Block) : Nat := (bs.map Block.size).sum

@[simp] theorem sizes_nil : sizes [] = 0 := rfl

@[simp] theorem sizes_cons : sizes (b :: cs) = b.size + sizes cs := by
  rw [sizes, List.map_cons, List.sum_cons, sizes]

theorem sizes_append {bs : List Block} : sizes (bs ++ cs) = sizes bs + sizes cs := by
  rw [sizes, List.map_append, List.sum_append, sizes, sizes]

theorem sizes_joinNext : sizes (joinNext x cs) = x.size + sizes cs := by
  cases cs with
  | nil => rfl
  | cons c cs =>
      rw [joinNext]
      split
      · simp [Block.join, Nat.add_assoc]
      · simp

theorem sizes_insertAfter :
    ∀ {b : Block}, sizes (insertAfter b x cs) = b.size + x.size + sizes cs := by
  have hend : ∀ {b : Block} {cs : List Block},
      sizes (if b.stop = x.addr then joinNext (b.join x) cs
        else b :: joinNext x cs) = b.size + x.size + sizes cs := by
    intro b cs
    split
    · rw [sizes_joinNext]; rfl
    · rw [sizes_cons, sizes_joinNext, Nat.add_assoc]
  induction cs with
  | nil => intro b; exact hend
  | cons c cs ih =>
      intro b
      rw [insertAfter]
      split
      · rw [sizes_cons, ih, sizes_cons]
        omega
      · exact hend

theorem sizes_insertBlock : sizes (insertBlock x cs) = x.size + sizes cs := by
  cases cs with
  | nil => rw [insertBlock, sizes_joinNext]
  | cons c cs =>
      rw [insertBlock]
      split
      · rw [sizes_insertAfter, sizes_cons]
        omega
      · exact sizes_joinNext

/-! ## Order -/

/-- In address order, with a gap between one block and the next. -/
abbrev Gapped (bs : List Block) : Prop := bs.IsChain Block.Below

theorem joinNext_gapped (hcs : Gapped cs)
    (hbefore : ∀ c ∈ cs.head?, x.stop ≤ c.addr) : Gapped (joinNext x cs) := by
  cases cs with
  | nil => exact List.isChain_singleton _
  | cons c cs =>
      have hle := hbefore c rfl
      rw [joinNext]
      split
      · next hstop =>
          cases cs with
          | nil => exact List.isChain_singleton _
          | cons d ds =>
              rw [Gapped, List.isChain_cons_cons] at hcs ⊢
              refine ⟨?_, hcs.2⟩
              rw [Block.Below, Block.stop_join hstop]
              exact hcs.1
      · next hstop =>
          exact List.isChain_cons_cons.2 ⟨Nat.lt_of_le_of_ne hle hstop, hcs⟩

theorem insertAfter_head :
    ∃ d ds, insertAfter b x cs = d :: ds ∧ d.addr = b.addr := by
  cases cs with
  | nil =>
      rw [insertAfter]
      split
      · exact ⟨_, _, rfl, rfl⟩
      · exact ⟨_, _, rfl, rfl⟩
  | cons c cs =>
      rw [insertAfter]
      split
      · exact ⟨_, _, rfl, rfl⟩
      · split
        · rw [joinNext]
          split <;> exact ⟨_, _, rfl, rfl⟩
        · exact ⟨_, _, rfl, rfl⟩

theorem gapped_cons {bs : List Block} (hbs : Gapped bs)
    (h : ∀ c ∈ bs.head?, b.Below c) : Gapped (b :: bs) := by
  cases bs with
  | nil => exact List.isChain_singleton _
  | cons c cs => exact List.isChain_cons_cons.2 ⟨h c rfl, hbs⟩

theorem joinNext_head {d : Block} (h : d ∈ (joinNext x cs).head?) :
    d.addr = x.addr := by
  cases cs with
  | nil =>
      cases h
      rfl
  | cons c cs =>
      rw [joinNext] at h
      split at h <;> (cases h; rfl)

/-- The block to insert touches the list's blocks at most at their ends. -/
theorem insertAfter_gapped (hx : 0 < x.size) :
    ∀ {b : Block}, Gapped (b :: cs) → b.stop ≤ x.addr →
      (∀ c ∈ cs, 0 < c.size ∧ c.Apart x) → Gapped (insertAfter b x cs) := by
  have hend : ∀ {b : Block} {cs : List Block}, Gapped (b :: cs) →
      b.stop ≤ x.addr → (∀ c ∈ cs.head?, x.stop ≤ c.addr) →
      Gapped (if b.stop = x.addr then joinNext (b.join x) cs
        else b :: joinNext x cs) := by
    intro b cs hcs hb hbefore
    split
    · next hstop =>
        refine joinNext_gapped hcs.tail ?_
        rwa [Block.stop_join hstop]
    · next hstop =>
        refine gapped_cons (joinNext_gapped hcs.tail hbefore) ?_
        intro d hd
        rw [Block.Below, joinNext_head hd]
        exact Nat.lt_of_le_of_ne hb hstop
  induction cs with
  | nil => intro b hcs hb _; exact hend hcs hb (by simp)
  | cons c cs ih =>
      intro b hcs hb hapart
      obtain ⟨hbc, hrest⟩ := List.isChain_cons_cons.1 hcs
      obtain ⟨hc, hcx⟩ := hapart c List.mem_cons_self
      rw [insertAfter]
      split
      · next hlt =>
          have hstop : c.stop ≤ x.addr := by
            rcases hcx with hcx | hcx
            · exact hcx
            · simp only [Block.stop] at hcx
              omega
          refine gapped_cons
            (ih hrest hstop fun d hd => hapart d (List.mem_cons_of_mem _ hd)) ?_
          intro d hd
          obtain ⟨e, es, heq, haddr⟩ := @insertAfter_head c x cs
          rw [heq] at hd
          cases hd
          rw [Block.Below, haddr]
          exact hbc
      · next hlt =>
          refine hend hcs hb fun d hd => ?_
          cases hd
          rcases hcx with hcx | hcx
          · simp only [Block.stop] at hcx
            omega
          · exact hcx

theorem insertBlock_gapped (hx : 0 < x.size) (hcs : Gapped cs)
    (hapart : ∀ c ∈ cs, 0 < c.size ∧ c.Apart x) : Gapped (insertBlock x cs) := by
  cases cs with
  | nil => exact List.isChain_singleton _
  | cons c cs =>
      obtain ⟨hc, hcx⟩ := hapart c List.mem_cons_self
      rw [insertBlock]
      split
      · next hlt =>
          refine insertAfter_gapped hx hcs ?_
            fun d hd => hapart d (List.mem_cons_of_mem _ hd)
          rcases hcx with hcx | hcx
          · exact hcx
          · simp only [Block.stop] at hcx
            omega
      · next hlt =>
          refine joinNext_gapped hcs fun d hd => ?_
          cases hd
          rcases hcx with hcx | hcx
          · simp only [Block.stop] at hcx
            omega
          · exact hcx

/-- A gapped list is in order throughout. -/
theorem Gapped.pairwise {bs : List Block} (h : Gapped bs) :
    bs.Pairwise Block.Below := by
  have htrans : ∀ {a b c : Block}, a.Below b → b.Below c → a.Below c := by
    intro a b c hab hbc
    simp only [Block.Below, Block.stop] at *
    omega
  exact @List.IsChain.pairwise _ _ _ ⟨htrans⟩ h

end MuditaOS.Lib
