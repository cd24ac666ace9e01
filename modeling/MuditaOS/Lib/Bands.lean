import MuditaOS.Lib.Coalesce

/-!
# Bands of lines

A set of lines kept as a list of blocks of lines, from the first line down. `Scanned` is
what a scan has found that looks at one line after the other, and `Bands` what it ends
with: the lines of one kind, no more and no less, with another line between a band and
the next. Joining bands that stand near each other and widening bands to a grid lose no
line and keep the order, so the first and the last band bound all of them.
-/

namespace MuditaOS.Lib

variable {p : Nat → Prop} {n k : Nat} {b c : Block} {bs : List Block}

instance {b : Block} {y : Nat} : Decidable (b.Holds y) := inferInstanceAs (Decidable (_ ∧ _))

/-- The bands hold exactly the lines before `n` where `p` holds. -/
structure Bands (p : Nat → Prop) (n : Nat) (bs : List Block) : Prop where
  gapped : Gapped bs
  within : ∀ b ∈ bs, 0 < b.size ∧ b.stop ≤ n
  holds : ∀ y < n, p y ↔ ∃ b ∈ bs, b.Holds y

/-! ## Scanning -/

/-- The lines before `n` where `p` holds are those of `bs` and, if a band is open, those
from its first line on. -/
structure Scanned (p : Nat → Prop) (n : Nat) (bs : List Block) (opened : Option Nat) :
    Prop where
  gapped : Gapped bs
  within : ∀ b ∈ bs, 0 < b.size ∧ b.stop < opened.getD n
  started : ∀ k ∈ opened, k < n
  holds : ∀ y < n, p y ↔ (∃ b ∈ bs, b.Holds y) ∨ ∃ k ∈ opened, k ≤ y

theorem scanned_zero : Scanned p 0 [] none where
  gapped := List.isChain_nil
  within := by simp
  started := by simp
  holds := by simp

theorem Scanned.skip (h : Scanned p n bs none) (hn : ¬ p n) : Scanned p (n + 1) bs none where
  gapped := h.gapped
  within b hb := ⟨(h.within b hb).1, Nat.lt_succ_of_lt (h.within b hb).2⟩
  started := by simp
  holds y hy := by
    rcases Nat.lt_succ_iff_lt_or_eq.1 hy with hlt | rfl
    · exact h.holds y hlt
    · simp only [hn, false_iff, Option.not_mem_none, false_and, exists_false, or_false]
      rintro ⟨b, hb, -, hstop⟩
      exact absurd hstop (Nat.not_lt_of_lt (h.within b hb).2)

theorem Scanned.start (h : Scanned p n bs none) (hn : p n) :
    Scanned p (n + 1) bs (some n) where
  gapped := h.gapped
  within := h.within
  started := by simp
  holds y hy := by
    rcases Nat.lt_succ_iff_lt_or_eq.1 hy with hlt | rfl
    · simpa [Nat.not_le_of_lt hlt] using h.holds y hlt
    · simp [hn]

theorem Scanned.extend (h : Scanned p n bs (some k)) (hn : p n) :
    Scanned p (n + 1) bs (some k) where
  gapped := h.gapped
  within := h.within
  started j hj := Nat.lt_succ_of_lt (h.started j hj)
  holds y hy := by
    rcases Nat.lt_succ_iff_lt_or_eq.1 hy with hlt | rfl
    · exact h.holds y hlt
    · simp [hn, Nat.le_of_lt (h.started k rfl)]

/-- The open band ends before line `n`. -/
theorem Scanned.bands_close (h : Scanned p n bs (some k)) :
    Bands p n (bs ++ [⟨k, n - k⟩]) where
  gapped := by
    refine List.isChain_append.2 ⟨h.gapped, List.isChain_singleton _, fun b hb c hc => ?_⟩
    cases hc
    exact (h.within b (List.mem_of_mem_getLast? hb)).2
  within b hb := by
    have hk := h.started k rfl
    rcases List.mem_append.1 hb with hb | hb
    · have := (h.within b hb).2
      exact ⟨(h.within b hb).1, by simp only [Option.getD_some] at this; omega⟩
    · rw [List.mem_singleton.1 hb]
      simp only [Block.stop]
      omega
  holds y hy := by
    have hk := h.started k rfl
    have hlast : (⟨k, n - k⟩ : Block).Holds y ↔ k ≤ y := by
      simp only [Block.Holds, Block.stop]
      omega
    rw [h.holds y hy]
    simp [or_and_right, exists_or, hlast]

theorem Scanned.close (h : Scanned p n bs (some k)) (hn : ¬ p n) :
    Scanned p (n + 1) (bs ++ [⟨k, n - k⟩]) none := by
  have hbands := h.bands_close
  refine ⟨hbands.gapped, fun b hb => ?_, by simp, fun y hy => ?_⟩
  · exact ⟨(hbands.within b hb).1, Nat.lt_succ_of_le (hbands.within b hb).2⟩
  · rcases Nat.lt_succ_iff_lt_or_eq.1 hy with hlt | rfl
    · rw [hbands.holds y hlt]
      simp
    · simp only [hn, false_iff, Option.not_mem_none, false_and, exists_false, or_false]
      rintro ⟨b, hb, -, hstop⟩
      exact absurd hstop (Nat.not_lt_of_le (hbands.within b hb).2)

theorem Scanned.bands (h : Scanned p n bs none) : Bands p n bs where
  gapped := h.gapped
  within b hb := ⟨(h.within b hb).1, Nat.le_of_lt (h.within b hb).2⟩
  holds y hy := by simpa using h.holds y hy

/-! ## Order -/

/-- Neither end of a band stands above the same end of a band before it. -/
abbrev Descending (bs : List Block) : Prop :=
  bs.Pairwise fun b c => b.addr ≤ c.addr ∧ b.stop ≤ c.stop

theorem Gapped.descending (h : Gapped bs) : Descending bs :=
  h.pairwise.imp fun {b c} hbc => by
    simp only [Block.Below, Block.stop] at *
    omega

/-- The first and the last band bound all of them. -/
theorem Descending.bounds (h : Descending bs) (hne : bs ≠ []) :
    ∀ b ∈ bs, (bs.head hne).addr ≤ b.addr ∧ b.stop ≤ (bs.getLast hne).stop := by
  intro b hb
  constructor
  · obtain ⟨c, cs, rfl⟩ := List.exists_cons_of_ne_nil hne
    rcases List.mem_cons.1 hb with rfl | hb
    · exact Nat.le_refl _
    · exact ((List.pairwise_cons.1 h).1 b hb).1
  · rw [← List.dropLast_append_getLast hne] at h hb
    rcases List.mem_append.1 hb with hb | hb
    · exact ((List.pairwise_append.1 h).2.2 b hb _ (List.mem_singleton.2 rfl)).2
    · rw [List.mem_singleton.1 hb]

/-! ## Joining near bands -/

/-- `m` and the bands after it, with gaps of less than `t` lines filled. -/
def closeGaps (t : Nat) (m : Block) : List Block → List Block
  | [] => [m]
  | b :: bs =>
      if b.addr - m.stop < t then closeGaps t ⟨m.addr, b.stop - m.addr⟩ bs
      else m :: closeGaps t b bs

/-- Joining keeps the order, loses no line, and takes none beyond the bands' ends. -/
theorem closeGaps_spec {t : Nat} : ∀ {bs : List Block} {m : Block}, Gapped (m :: bs) →
    Gapped (closeGaps t m bs) ∧ (∀ c ∈ (closeGaps t m bs).head?, c.addr = m.addr) ∧
      (∀ b ∈ m :: bs, ∀ y, b.Holds y → ∃ c ∈ closeGaps t m bs, c.Holds y) ∧
      ∀ c ∈ closeGaps t m bs, ∃ b ∈ m :: bs, c.stop = b.stop := by
  intro bs
  induction bs with
  | nil =>
      intro m _
      simp [closeGaps]
  | cons b bs ih =>
      intro m h
      obtain ⟨hmb, hrest⟩ := List.isChain_cons_cons.1 h
      have hbelow : m.addr ≤ m.stop ∧ m.stop < b.addr ∧ b.addr ≤ b.stop := by
        simp only [Block.Below, Block.stop] at *
        omega
      rw [closeGaps]
      split
      · -- the joined band stops where `b` stops, so the rest is ordered after it as after `b`
        have hstop : (⟨m.addr, b.stop - m.addr⟩ : Block).stop = b.stop := by
          simp only [Block.stop] at hbelow ⊢
          omega
        have hjoined : Gapped (⟨m.addr, b.stop - m.addr⟩ :: bs) :=
          gapped_cons hrest.tail fun c hc => by
            have := (List.isChain_cons.1 hrest).1 c hc
            rwa [Block.Below, hstop]
        obtain ⟨hgapped, hhead, hholds, hstops⟩ := ih hjoined
        refine ⟨hgapped, hhead, fun c hc y hy => ?_, fun c hc => ?_⟩
        · rcases List.mem_cons.1 hc with rfl | hc
          · refine hholds _ List.mem_cons_self y ⟨hy.1, ?_⟩
            rw [hstop]
            have := hy.2
            omega
          · rcases List.mem_cons.1 hc with rfl | hc
            · refine hholds _ List.mem_cons_self y ⟨?_, by rw [hstop]; exact hy.2⟩
              show m.addr ≤ y
              have := hy.1
              omega
            · exact hholds c (List.mem_cons_of_mem _ hc) y hy
        · obtain ⟨d, hd, hcd⟩ := hstops c hc
          rcases List.mem_cons.1 hd with rfl | hd
          · exact ⟨b, by simp, hcd.trans hstop⟩
          · exact ⟨d, by simp [hd], hcd⟩
      · obtain ⟨hgapped, hhead, hholds, hstops⟩ := ih hrest
        refine ⟨gapped_cons hgapped fun c hc => ?_, by simp, fun c hc y hy => ?_,
          fun c hc => ?_⟩
        · rw [Block.Below, hhead c hc]
          exact hbelow.2.1
        · rcases List.mem_cons.1 hc with rfl | hc
          · exact ⟨_, List.mem_cons_self, hy⟩
          · obtain ⟨d, hd, hdy⟩ := hholds c hc y hy
            exact ⟨d, List.mem_cons_of_mem _ hd, hdy⟩
        · rcases List.mem_cons.1 hc with rfl | hc
          · exact ⟨_, List.mem_cons_self, rfl⟩
          · obtain ⟨d, hd, hcd⟩ := hstops c hc
            exact ⟨d, List.mem_cons_of_mem _ hd, hcd⟩

/-- What stays apart stays far apart. -/
abbrev FarApart (t : Nat) (bs : List Block) : Prop :=
  bs.IsChain fun b c => b.stop + t ≤ c.addr

theorem closeGaps_farApart {t : Nat} : ∀ {bs : List Block} {m : Block}, Gapped (m :: bs) →
    (∀ b ∈ m :: bs, 0 < b.size) → FarApart t (closeGaps t m bs) ∧
      ∀ b ∈ closeGaps t m bs, 0 < b.size := by
  intro bs
  induction bs with
  | nil =>
      intro m _ hsize
      exact ⟨List.isChain_singleton _, hsize⟩
  | cons b bs ih =>
      intro m h hsize
      obtain ⟨hmb, hrest⟩ := List.isChain_cons_cons.1 h
      have hm := hsize m List.mem_cons_self
      have hb := hsize b (by simp)
      simp only [Block.Below, Block.stop] at hmb
      rw [closeGaps]
      split
      · have hstop : (⟨m.addr, b.stop - m.addr⟩ : Block).stop = b.stop := by
          simp only [Block.stop]
          omega
        refine ih (gapped_cons hrest.tail fun c hc => ?_) fun c hc => ?_
        · have := (List.isChain_cons.1 hrest).1 c hc
          rwa [Block.Below, hstop]
        · rcases List.mem_cons.1 hc with rfl | hc
          · simp only [Block.stop]
            omega
          · exact hsize c (by simp [hc])
      · next hfar =>
          obtain ⟨hchain, hsizes⟩ := ih hrest fun c hc => hsize c (List.mem_cons_of_mem _ hc)
          have hhead := (closeGaps_spec (t := t) hrest).2.1
          refine ⟨List.isChain_cons.2 ⟨fun c hc => ?_, hchain⟩, fun c hc => ?_⟩
          · rw [hhead c hc]
            simp only [Block.stop] at hfar ⊢
            omega
          · rcases List.mem_cons.1 hc with rfl | hc
            · exact hm
            · exact hsizes c hc

/-- Few bands stand far apart. -/
theorem FarApart.length_le {t : Nat} : ∀ {bs : List Block}, FarApart t bs →
    (∀ b ∈ bs, 0 < b.size ∧ b.stop ≤ n) → ∀ b ∈ bs.head?,
      b.addr + bs.length * (t + 1) ≤ n + t := by
  intro bs
  induction bs with
  | nil => simp
  | cons b bs ih =>
      intro h hwithin c hc
      cases hc
      obtain ⟨hsize, hstop⟩ := hwithin b List.mem_cons_self
      simp only [Block.stop] at hstop
      cases bs with
      | nil =>
          rw [List.length_singleton]
          omega
      | cons d ds =>
          obtain ⟨hbd, hrest⟩ := List.isChain_cons_cons.1 h
          have htail := ih hrest (fun e he => hwithin e (List.mem_cons_of_mem _ he)) d rfl
          simp only [Block.stop] at hbd
          rw [show (b :: d :: ds).length = (d :: ds).length + 1 from rfl, Nat.succ_mul]
          omega

/-! ## Widening to a grid -/

/-- The band with its first line moved up, and its end moved down, to a multiple of `a`. -/
def widen (a : Nat) (b : Block) : Block :=
  ⟨b.addr / a * a, (b.addr - b.addr / a * a + b.size + (a - 1)) / a * a⟩

theorem stop_widen {a : Nat} (ha : 0 < a) :
    (widen a b).stop = (b.stop + (a - 1)) / a * a := by
  have hle := Nat.div_mul_le_self b.addr a
  have hsum : b.addr - b.addr / a * a + b.size + (a - 1) =
      b.stop + (a - 1) - a * (b.addr / a) := by
    simp only [Block.stop]
    rw [Nat.mul_comm a]
    omega
  have hq : b.addr / a ≤ (b.stop + (a - 1)) / a :=
    Nat.div_le_div_right (by simp only [Block.stop]; omega)
  show b.addr / a * a + (b.addr - b.addr / a * a + b.size + (a - 1)) / a * a = _
  rw [hsum, Nat.sub_mul_div, ← Nat.add_mul, Nat.add_sub_of_le hq]

theorem holds_widen {a y : Nat} (ha : 0 < a) (h : b.Holds y) : (widen a b).Holds y := by
  refine ⟨Nat.le_trans (Nat.div_mul_le_self b.addr a) h.1, ?_⟩
  rw [stop_widen ha]
  have hround := Nat.lt_div_mul_add ha (a := b.stop + (a - 1))
  have := h.2
  omega

theorem stop_widen_le {a : Nat} (ha : 0 < a) (hn : a ∣ n) (h : b.stop ≤ n) :
    (widen a b).stop ≤ n := by
  obtain ⟨q, rfl⟩ := hn
  rw [stop_widen ha, Nat.mul_comm a q]
  refine Nat.mul_le_mul_right a (Nat.le_of_lt_succ ?_)
  rw [Nat.div_lt_iff_lt_mul ha, Nat.succ_mul, Nat.mul_comm q a]
  omega

theorem Descending.widen {a : Nat} (ha : 0 < a) (h : Descending bs) :
    Descending (bs.map (widen a)) := by
  refine List.pairwise_map.2 (h.imp fun {b c} hbc => ⟨?_, ?_⟩)
  · exact Nat.mul_le_mul_right a (Nat.div_le_div_right hbc.1)
  · rw [stop_widen ha, stop_widen ha]
    exact Nat.mul_le_mul_right a (Nat.div_le_div_right (Nat.add_le_add_right hbc.2 _))

end MuditaOS.Lib
