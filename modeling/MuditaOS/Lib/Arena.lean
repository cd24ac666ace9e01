import MuditaOS.Lib.Coalesce

/-!
# An interval shared out between free and taken blocks

A `Layout` says that the free and the taken blocks tile an interval, in whole
granules, the free ones in order and never touching. A free list `whole` that
`Splits` into a list and one block more is what both directions of an allocator
do: taking the block turns the first into the second, giving it back the second
into the first.
-/

namespace MuditaOS.Lib

/-- The bytes of some block of the list. -/
def Held (bs : List Block) (y : Nat) : Prop := ∃ b ∈ bs, b.Holds y

@[simp] theorem held_nil {y : Nat} : ¬ Held [] y := by simp [Held]

@[simp] theorem held_cons {b : Block} {bs : List Block} {y : Nat} :
    Held (b :: bs) y ↔ b.Holds y ∨ Held bs y := by
  simp [Held]

@[simp] theorem held_append {bs cs : List Block} {y : Nat} :
    Held (bs ++ cs) y ↔ Held bs y ∨ Held cs y := by
  simp only [Held, List.mem_append, or_and_right, exists_or]

theorem apart_iff {b c : Block} (hb : 0 < b.size) (hc : 0 < c.size) :
    b.Apart c ↔ ∀ y, b.Holds y → ¬ c.Holds y := by
  refine ⟨fun h y => h.not_holds, fun h => ?_⟩
  have := h (max b.addr c.addr)
  simp only [Block.Holds, Block.Apart, Block.stop] at *
  omega

structure Splits (whole parts : List Block) (c : Block) : Prop where
  held : ∀ y, Held whole y ↔ Held parts y ∨ c.Holds y
  bytes : sizes whole = sizes parts + c.size
  apart : ∀ b ∈ parts, b.Apart c

def Granular (g : Nat) (b : Block) : Prop := g ∣ b.addr ∧ g ∣ b.size ∧ 0 < b.size

theorem Granular.join {g : Nat} {b c : Block} (hb : Granular g b)
    (hc : Granular g c) : Granular g (b.join c) :=
  ⟨hb.1, Nat.dvd_add hb.2.1 hc.2.1, Nat.lt_of_lt_of_le hb.2.2 (Nat.le_add_right _ _)⟩

/-! ## The two ways a list splits -/

section Ways

variable {x c : Block} {free pre post : List Block}

theorem splits_insertBlock (h : ∀ b ∈ free, b.Apart x) :
    Splits (insertBlock x free) free x where
  held y := by
    rw [Held, holds_insertBlock, or_comm]
    rfl
  bytes := by rw [sizes_insertBlock, Nat.add_comm]
  apart := h

theorem splits_middle (h : Gapped (pre ++ c :: post)) :
    Splits (pre ++ c :: post) (pre ++ post) c where
  held y := by
    rw [held_append, held_cons, held_append]
    tauto
  bytes := by
    rw [sizes_append, sizes_cons, sizes_append]
    omega
  apart b hb := by
    obtain ⟨-, hpost, hcross⟩ := List.pairwise_append.1 h.pairwise
    rcases List.mem_append.1 hb with hb | hb
    · exact (hcross b hb c List.mem_cons_self).apart
    · exact ((List.pairwise_cons.1 hpost).1 b hb).apart.symm

theorem gapped_drop (h : Gapped (pre ++ c :: post)) : Gapped (pre ++ post) := by
  refine List.Pairwise.isChain (h.pairwise.sublist ?_)
  exact List.Sublist.append (List.Sublist.refl _) (List.sublist_cons_self _ _)

/-- The end of a block that was split off goes back into the list. -/
theorem splits_carve {parts : List Block} {n : Nat} (h : Splits free parts c)
    (hpos : 0 < n) (hrest : n < c.size)
    (hparts : ∀ b ∈ parts, 0 < b.size) :
    Splits free (insertBlock ⟨c.addr + n, c.size - n⟩ parts) ⟨c.addr, n⟩ where
  held y := by
    rw [h.held, Held, Held, holds_insertBlock]
    simp only [Block.Holds, Block.stop]
    have : (c.addr ≤ y ∧ y < c.addr + c.size) ↔
        (c.addr + n ≤ y ∧ y < c.addr + n + (c.size - n)) ∨
          (c.addr ≤ y ∧ y < c.addr + n) := by omega
    rw [this, ← or_assoc]
    exact or_congr_left or_comm
  bytes := by
    rw [h.bytes, sizes_insertBlock]
    simp only
    omega
  apart := by
    refine insertBlock_forall (fun b d hstop hb hd => ?_) ?_ fun b hb => ?_
    · exact Block.apart_join hstop hpos hb hd
    · exact .inr (by simp [Block.stop])
    · have hbc := h.apart b hb
      have := hparts b hb
      simp only [Block.Apart, Block.stop] at *
      omega

end Ways

/-! ## Layouts -/

structure Layout (g lo hi : Nat) (free taken : List Block) : Prop where
  gapped : Gapped free
  apart : taken.Pairwise Block.Apart
  cross : ∀ b ∈ free, ∀ c ∈ taken, b.Apart c
  granular : ∀ b ∈ free ++ taken, Granular g b
  tiles : ∀ y, (lo ≤ y ∧ y < hi) ↔ Held (free ++ taken) y
  bytes : sizes free + sizes taken = hi - lo

namespace Layout

variable {g lo hi : Nat} {free free' taken before behind : List Block} {c : Block}

theorem empty : Layout g lo lo [] [] where
  gapped := List.isChain_nil
  apart := List.Pairwise.nil
  cross := by simp
  granular := by simp
  tiles y := by
    rw [List.append_nil]
    have := @held_nil y
    refine ⟨fun h => ?_, fun h => absurd h this⟩
    omega
  bytes := by simp

theorem whole (hlo : g ∣ lo) (hhi : g ∣ hi) (h : lo < hi) :
    Layout g lo hi [⟨lo, hi - lo⟩] [] where
  gapped := List.isChain_singleton _
  apart := List.Pairwise.nil
  cross := by simp
  granular b hb := by
    rw [List.append_nil, List.mem_singleton] at hb
    subst hb
    exact ⟨hlo, Nat.dvd_sub hhi hlo, by simp only; omega⟩
  tiles y := by
    simp only [List.append_nil, held_cons, held_nil, or_false, Block.Holds, Block.stop]
    omega
  bytes := by simp

/-- Every block lies in the interval. -/
theorem within (h : Layout g lo hi free taken) {b : Block} (hb : b ∈ free ++ taken) :
    lo ≤ b.addr ∧ b.stop ≤ hi := by
  have hpos := (h.granular b hb).2.2
  have hfirst := (h.tiles b.addr).2 ⟨b, hb, by simp only [Block.Holds, Block.stop]; omega⟩
  have hlast := (h.tiles (b.stop - 1)).2
    ⟨b, hb, by simp only [Block.Holds, Block.stop]; omega⟩
  omega

theorem granule_le (h : Layout g lo hi free taken) {b : Block}
    (hb : b ∈ free ++ taken) : g ≤ b.size := by
  obtain ⟨-, hdvd, hpos⟩ := h.granular b hb
  exact Nat.le_of_dvd hpos hdvd

theorem length_le (h : Layout g lo hi free taken) : free.length ≤ hi - lo := by
  have hle : ∀ {bs : List Block}, (∀ b ∈ bs, 0 < b.size) → bs.length ≤ sizes bs := by
    intro bs
    induction bs with
    | nil => intro _; exact Nat.le_refl _
    | cons b bs ih =>
        intro hpos
        have hb := hpos b List.mem_cons_self
        have hbs := ih fun d hd => hpos d (List.mem_cons_of_mem _ hd)
        rw [List.length_cons, sizes_cons]
        omega
  have := hle fun b hb => (h.granular b (List.mem_append_left _ hb)).2.2
  have := h.bytes
  omega

theorem take (h : Layout g lo hi free taken) (hs : Splits free free' c)
    (hgapped : Gapped free') (hfree : ∀ b ∈ free', Granular g b)
    (hc : Granular g c) : Layout g lo hi free' (taken ++ [c]) where
  gapped := hgapped
  apart := by
    refine List.pairwise_append.2 ⟨h.apart, List.pairwise_singleton _ _, ?_⟩
    intro t ht d hd
    rw [List.mem_singleton.1 hd]
    have htpos := (h.granular t (List.mem_append_right _ ht)).2.2
    refine ((apart_iff hc.2.2 htpos).2 fun y hy => ?_).symm
    obtain ⟨b, hb, hby⟩ := (hs.held y).2 (.inr hy)
    exact (h.cross b hb t ht).not_holds hby
  cross := by
    intro b hb t ht
    rcases List.mem_append.1 ht with ht | ht
    · have htpos := (h.granular t (List.mem_append_right _ ht)).2.2
      refine (apart_iff (hfree b hb).2.2 htpos).2 fun y hy => ?_
      obtain ⟨d, hd, hdy⟩ := (hs.held y).2 (.inl ⟨b, hb, hy⟩)
      exact (h.cross d hd t ht).not_holds hdy
    · rw [List.mem_singleton.1 ht]
      exact hs.apart b hb
  granular := by
    intro b hb
    simp only [List.mem_append, List.mem_singleton] at hb
    rcases hb with hb | hb | rfl
    · exact hfree b hb
    · exact h.granular b (List.mem_append_right _ hb)
    · exact hc
  tiles := by
    intro y
    rw [h.tiles, held_append, held_append, held_append, hs.held, held_cons]
    have := @held_nil y
    tauto
  bytes := by
    have := h.bytes
    rw [hs.bytes] at this
    rw [sizes_append, sizes_cons, sizes_nil]
    omega

theorem give (h : Layout g lo hi free (before ++ c :: behind))
    (hs : Splits free' free c) (hgapped : Gapped free')
    (hfree : ∀ b ∈ free', Granular g b) :
    Layout g lo hi free' (before ++ behind) where
  gapped := hgapped
  apart := h.apart.sublist
    (List.Sublist.append (List.Sublist.refl _) (List.sublist_cons_self _ _))
  cross := by
    intro b hb t ht
    have htc : t ∈ before ++ c :: behind := by
      rcases List.mem_append.1 ht with ht | ht
      · exact List.mem_append_left _ ht
      · exact List.mem_append_right _ (List.mem_cons_of_mem _ ht)
    have htpos := (h.granular t (List.mem_append_right _ htc)).2.2
    refine (apart_iff (hfree b hb).2.2 htpos).2 fun y hy => ?_
    rcases (hs.held y).1 ⟨b, hb, hy⟩ with ⟨d, hd, hdy⟩ | hcy
    · exact (h.cross d hd t htc).not_holds hdy
    · obtain ⟨-, hbehind, hcross⟩ := List.pairwise_append.1 h.apart
      rcases List.mem_append.1 ht with ht | ht
      · exact (hcross t ht c List.mem_cons_self).symm.not_holds hcy
      · exact ((List.pairwise_cons.1 hbehind).1 t ht).not_holds hcy
  granular := by
    intro b hb
    rcases List.mem_append.1 hb with hb | hb
    · exact hfree b hb
    · refine h.granular b (List.mem_append_right _ ?_)
      rcases List.mem_append.1 hb with hb | hb
      · exact List.mem_append_left _ hb
      · exact List.mem_append_right _ (List.mem_cons_of_mem _ hb)
  tiles := by
    intro y
    rw [h.tiles, held_append, held_append, held_append, held_append, hs.held,
      held_cons]
    tauto
  bytes := by
    have := h.bytes
    rw [sizes_append, sizes_cons] at this
    rw [hs.bytes, sizes_append]
    omega

end Layout

end MuditaOS.Lib
