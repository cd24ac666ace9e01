import Mathlib.Data.Fintype.EquivFin
import Mathlib.Data.Set.Card
import Mathlib.Data.Set.Finite.Lattice

/-!
# A walk that loses patience

A walk along links looks for something at each place it comes to, and gives up after so
many places in a row at which it found nothing. Nothing else bounds it, so it goes on
for ever exactly if it comes back to a place where it finds something before its
patience is used up. A walk that ends is as long as its patience for each find.
-/

namespace MuditaOS.Lib

section

variable {κ : Type*} (next : κ → Option κ) (finds : κ → Bool) (patience : Nat)
  (start : Option κ)

/-- The place behind `n` links. -/
def place : Nat → Option κ
  | 0 => start
  | n + 1 => (place n).bind next

def foundAt (n : Nat) : Bool := (place next start n).any finds

/-- The patience left at the `n`-th place, before anything is looked for there. -/
def patienceLeft : Nat → Nat
  | 0 => patience
  | n + 1 => if foundAt next finds start n then patience else patienceLeft n - 1

/-- The walk comes to the `n`-th place and looks there. -/
def Visits (n : Nat) : Prop :=
  (place next start n).isSome ∧ ∀ m ≤ n, patienceLeft next finds patience start m ≠ 0

/-- From the `g`-th place on, nothing is found in as many places as the patience lasts. -/
def Quiet (g : Nat) : Prop :=
  ∀ m, g ≤ m → m < g + patience → foundAt next finds start m = false

/-- Where the links come back to a place with a find, the patience was used up before. -/
def NoReturn : Prop :=
  ∀ i j k, i < j → place next start i = some k → place next start j = some k →
    finds k = true → ∃ g, g + patience ≤ j ∧ Quiet next finds patience start g

end

variable {κ : Type*} {next : κ → Option κ} {finds : κ → Bool} {patience : Nat}
  {start : Option κ} {i j m n g : Nat} {k : κ}

/-! ## Patience -/

theorem patienceLeft_le : patienceLeft next finds patience start n ≤ patience := by
  induction n with
  | zero => exact le_refl _
  | succ n ih =>
      rw [patienceLeft]
      split
      · exact le_refl _
      · omega

/-- The patience that is gone was spent on the last places. -/
theorem quiet_of_left :
    patience ≤ n + patienceLeft next finds patience start n ∧
      ∀ m, n + patienceLeft next finds patience start n - patience ≤ m → m < n →
        foundAt next finds start m = false := by
  induction n with
  | zero => exact ⟨Nat.le_add_left _ _, fun m _ hm => absurd hm (Nat.not_lt_zero m)⟩
  | succ n ih =>
      obtain ⟨hspent, hquiet⟩ := ih
      rw [patienceLeft]
      split
      · exact ⟨Nat.le_add_left _ _, fun m hlow hm => absurd hm (by omega)⟩
      · next hn =>
          refine ⟨by omega, fun m hlow hm => ?_⟩
          by_cases hlast : m = n
          · rw [hlast]
            exact Bool.eq_false_iff.2 hn
          · exact hquiet m (by omega) (by omega)

theorem left_of_quiet (hquiet : ∀ m, g ≤ m → m < g + i → foundAt next finds start m = false) :
    patienceLeft next finds patience start (g + i) ≤ patience - i := by
  induction i with
  | zero => exact patienceLeft_le
  | succ i ih =>
      have hle := ih fun m hlow hm => hquiet m hlow (by omega)
      rw [← Nat.add_assoc, patienceLeft, hquiet (g + i) (Nat.le_add_right _ _) (by omega),
        if_neg Bool.false_ne_true]
      omega

/-- The patience lasts exactly as long as no stretch of that length is quiet. -/
theorem patient_iff : (∀ m ≤ n, patienceLeft next finds patience start m ≠ 0) ↔
    ∀ g, g + patience ≤ n → ¬ Quiet next finds patience start g := by
  constructor
  · intro h g hg hquiet
    have hle : patienceLeft next finds patience start (g + patience) ≤ patience - patience :=
      left_of_quiet hquiet
    exact h (g + patience) hg (by omega)
  · intro h m hm hzero
    obtain ⟨hspent, hquiet⟩ := @quiet_of_left κ next finds patience start m
    rw [hzero] at hspent hquiet
    refine h (m - patience) (by omega) fun m' hlow hm' => hquiet m' (by omega) (by omega)

theorem visits_iff : Visits next finds patience start n ↔
    (place next start n).isSome ∧
      ∀ g, g + patience ≤ n → ¬ Quiet next finds patience start g :=
  and_congr_right fun _ => patient_iff

theorem place_isSome_of_le (h : (place next start n).isSome) (hm : m ≤ n) :
    (place next start m).isSome := by
  induction n with
  | zero => rwa [Nat.le_zero.1 hm]
  | succ n ih =>
      by_cases hlast : m = n + 1
      · rwa [hlast]
      · refine ih ?_ (by omega)
        rw [place] at h
        exact Option.isSome_of_isSome_bind h

theorem Visits.of_le (h : Visits next finds patience start n) (hm : m ≤ n) :
    Visits next finds patience start m :=
  ⟨place_isSome_of_le h.1 hm, fun m' hm' => h.2 m' (hm'.trans hm)⟩

/-! ## Coming back -/

/-- From two visits of one place on, the walk is the same. -/
theorem place_add (h : place next start i = place next start j) :
    place next start (i + n) = place next start (j + n) := by
  induction n with
  | zero => exact h
  | succ n ih => rw [← Nat.add_assoc, ← Nat.add_assoc, place, place, ih]

theorem foundAt_congr (h : place next start i = place next start j) :
    foundAt next finds start i = foundAt next finds start j := by
  rw [foundAt, foundAt, h]

theorem left_add (h : place next start i = place next start j)
    (hleft : patienceLeft next finds patience start i = patienceLeft next finds patience start j) :
    patienceLeft next finds patience start (i + n) =
      patienceLeft next finds patience start (j + n) := by
  induction n with
  | zero => exact hleft
  | succ n ih =>
      rw [← Nat.add_assoc, ← Nat.add_assoc, patienceLeft, patienceLeft, ih,
        foundAt_congr (place_add h)]

/-- A walk that is back with the same patience goes round for ever. -/
theorem visits_forever (hij : i < j) (hplace : place next start i = place next start j)
    (hleft : patienceLeft next finds patience start i = patienceLeft next finds patience start j)
    (h : ∀ m < j, Visits next finds patience start m) :
    Visits next finds patience start n := by
  induction n using Nat.strong_induction_on with
  | _ n ih =>
      by_cases hn : n < j
      · exact h n hn
      · have hback := ih (i + (n - j)) (by omega)
        have heq : n = j + (n - j) := by omega
        refine ⟨?_, fun m hm => ?_⟩
        · rw [heq, ← place_add hplace]
          exact hback.1
        · by_cases hlast : m = n
          · rw [hlast, heq, ← left_add hplace hleft]
            exact hback.2 _ (le_refl _)
          · exact (ih m (by omega)).2 m (le_refl _)

theorem left_succ_of_foundAt (h : foundAt next finds start n = true) :
    patienceLeft next finds patience start (n + 1) = patience := by
  rw [patienceLeft, if_pos h]

theorem foundAt_of_place (hplace : place next start n = some k) :
    foundAt next finds start n = finds k := by
  rw [foundAt, hplace, Option.any_some]

theorem foundAt_eq_true : foundAt next finds start n = true ↔
    ∃ k, place next start n = some k ∧ finds k = true := by
  rw [foundAt, Option.any_eq_true]

/-- A walk that does not end finds something again and again. -/
theorem exists_foundAt_ge (h : ∀ n, Visits next finds patience start n) (n : Nat) :
    ∃ m, n ≤ m ∧ foundAt next finds start m = true := by
  refine Classical.byContradiction fun hnone => ?_
  refine (visits_iff.1 (h (n + patience))).2 n (le_refl _) fun m hm _ => ?_
  exact Bool.eq_false_iff.2 fun hfound => hnone ⟨m, hm, hfound⟩

/-- Two visits with a find, of one place, are followed by visits for ever. -/
theorem visits_of_return (hij : i < j) (hi : place next start i = some k)
    (hj : place next start j = some k) (hk : finds k = true)
    (h : Visits next finds patience start j) : Visits next finds patience start n := by
  refine visits_forever (Nat.succ_lt_succ hij) (place_add (n := 1) (hi.trans hj.symm)) ?_
    fun m hm => h.of_le (Nat.lt_succ_iff.1 hm)
  rw [left_succ_of_foundAt ((foundAt_of_place hi).trans hk),
    left_succ_of_foundAt ((foundAt_of_place hj).trans hk)]

theorem ends_iff [Finite κ] :
    (∃ n, ¬ Visits next finds patience start n) ↔ NoReturn next finds patience start := by
  constructor
  · intro ⟨n, hend⟩ i j k hij hi hj hk
    refine Classical.byContradiction fun hquiet => hend (visits_of_return hij hi hj hk ?_)
    exact visits_iff.2 ⟨Option.isSome_of_eq_some hj, fun g hg hq => hquiet ⟨g, hg, hq⟩⟩
  · intro h
    refine Classical.byContradiction fun hforever => ?_
    have hvisits : ∀ n, Visits next finds patience start n := fun n =>
      Classical.byContradiction fun hn => hforever ⟨n, hn⟩
    have hinf : {n | foundAt next finds start n = true}.Infinite := by
      refine Set.infinite_of_not_bddAbove ?_
      intro ⟨b, hb⟩
      obtain ⟨m, hm, hfound⟩ := exists_foundAt_ge hvisits (b + 1)
      have hle := hb hfound
      omega
    have hdistinct : ∀ i j, i < j → foundAt next finds start i = true →
        place next start i ≠ place next start j := by
      intro i j hij hfound heq
      obtain ⟨k, hi, hk⟩ := foundAt_eq_true.1 hfound
      obtain ⟨g, hg, hquiet⟩ := h i j k hij hi (heq ▸ hi) hk
      exact (visits_iff.1 (hvisits j)).2 g hg hquiet
    obtain ⟨i, hi, j, hj, hne, heq⟩ := hinf.exists_ne_map_eq_of_mapsTo
      (Set.mapsTo_univ (place next start) _) Set.finite_univ
    rcases Nat.lt_or_gt_of_ne hne with hlt | hlt
    · exact hdistinct i j hlt hi heq
    · exact hdistinct j i hlt hj heq.symm

/-! ## The length of a walk -/

/-- How often something was found in front of the `n`-th place. -/
def findsBefore (next : κ → Option κ) (finds : κ → Bool) (start : Option κ) (n : Nat) : Nat :=
  ((Finset.range n).filter fun m => foundAt next finds start m = true).card

theorem findsBefore_succ : findsBefore next finds start (n + 1) =
    findsBefore next finds start n + if foundAt next finds start n then 1 else 0 := by
  rw [findsBefore, Finset.range_add_one, Finset.filter_insert]
  split
  · rw [Finset.card_insert_of_notMem (by simp), findsBefore]
  · rw [findsBefore, Nat.add_zero]

/-- Each find buys the walk as many places as its patience. -/
theorem length_add_left_le (h : ∀ m < n, Visits next finds patience start m) :
    n + patienceLeft next finds patience start n ≤
      patience * (findsBefore next finds start n + 1) := by
  induction n with
  | zero =>
      rw [Nat.zero_add]
      exact patienceLeft_le.trans (Nat.le_mul_of_pos_right _ (Nat.succ_pos _))
  | succ n ih =>
      have hle := ih fun m hm => h m (by omega)
      have hleft := (h n (Nat.lt_succ_self n)).2 n (le_refl _)
      rw [patienceLeft, findsBefore_succ]
      split
      · rw [Nat.add_assoc _ 1 1, Nat.mul_add _ _ 2]
        rw [Nat.mul_add] at hle
        omega
      · simp only [Nat.add_zero]
        omega

section

variable {β : Type*} {mark : κ → β}

/-- Where the links of a place depend on its mark only, a walk that ends has no two finds
at places with one mark. -/
theorem mark_ne_of_noReturn (hmark : ∀ a b, mark a = mark b → next a = next b)
    (h : NoReturn next finds patience start) {a b : κ} (hij : i < j)
    (hvisits : Visits next finds patience start j)
    (hi : place next start i = some a) (hj : place next start j = some b)
    (hb : finds b = true) : mark a ≠ mark b := by
  intro heq
  have hround : ∀ m, i < m → place next start m = place next start (m + (j - i)) := by
    intro m hm
    have hback : place next start (i + 1) = place next start (j + 1) := by
      rw [place, place, hi, hj]
      exact hmark a b heq
    have hm' : m = i + 1 + (m - (i + 1)) := by omega
    have hm'' : m + (j - i) = j + 1 + (m - (i + 1)) := by omega
    rw [hm'', ← place_add hback, ← hm']
  obtain ⟨g, hg, hquiet⟩ := h j (j + (j - i)) b (by omega) hj (hround j hij ▸ hj) hb
  have hpatient := (visits_iff.1 hvisits).2
  have hlate : j < g := by
    refine Classical.byContradiction fun hle => ?_
    by_cases hend : g + patience ≤ j
    · exact hpatient g hend hquiet
    · have hnone := hquiet j (by omega) (by omega)
      rw [foundAt_of_place hj, hb] at hnone
      exact absurd hnone (by simp)
  -- The quiet stretch behind `j` is one in front of it as well, a round earlier.
  refine hpatient (g - (j - i)) (by omega) fun m hlow hm => ?_
  rw [foundAt_congr (hround m (by omega))]
  exact hquiet (m + (j - i)) (by omega) (by omega)

/-- The walk finds something at each mark at most once. -/
theorem findsBefore_le (hmark : ∀ a b, mark a = mark b → next a = next b)
    (h : NoReturn next finds patience start)
    (hvisits : ∀ m < n, Visits next finds patience start m) {marks : Set β}
    (hfinite : marks.Finite) (hmem : ∀ k, finds k = true → mark k ∈ marks) :
    findsBefore next finds start n ≤ marks.ncard := by
  rw [Set.ncard_eq_toFinset_card marks hfinite,
    ← Finset.card_map (Function.Embedding.some (α := β))]
  refine Finset.card_le_card_of_injOn (fun m => (place next start m).map mark) ?_ ?_
  · intro m hm
    obtain ⟨k, hk, hfound⟩ := foundAt_eq_true.1 (Finset.mem_filter.1 hm).2
    rw [Finset.mem_coe, Finset.mem_map]
    refine ⟨mark k, hfinite.mem_toFinset.2 (hmem k hfound), ?_⟩
    simp [hk]
  · have hdistinct : ∀ i j, i < j → j < n → foundAt next finds start i = true →
        foundAt next finds start j = true →
        (place next start i).map mark ≠ (place next start j).map mark := by
      intro i j hij hj hi hfound heq
      obtain ⟨a, ha, -⟩ := foundAt_eq_true.1 hi
      obtain ⟨b, hb, hb'⟩ := foundAt_eq_true.1 hfound
      rw [ha, hb] at heq
      exact mark_ne_of_noReturn hmark h hij (hvisits j hj) ha hb hb' (Option.some.inj heq)
    intro i hi j hj heq
    obtain ⟨hi, hfi⟩ := Finset.mem_filter.1 hi
    obtain ⟨hj, hfj⟩ := Finset.mem_filter.1 hj
    rcases Nat.lt_trichotomy i j with hlt | heq' | hlt
    · exact absurd heq (hdistinct i j hlt (Finset.mem_range.1 hj) hfi hfj)
    · exact heq'
    · exact absurd heq.symm (hdistinct j i hlt (Finset.mem_range.1 hi) hfj hfi)

end

end MuditaOS.Lib
