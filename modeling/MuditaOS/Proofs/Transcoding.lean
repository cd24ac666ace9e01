import MuditaOS.Audio.Transcode
import MuditaOS.Lib.Spread

/-!
# Transcoded samples

The loops run in the direction in which nothing is written over that is still to be read, so a
transform may work where its input is. But a step that doubles the samples doubles the bytes in
its answer too: of an odd number of them, the last is half of a sample that is not read, and the
answer is longer than what was written.
-/

namespace MuditaOS.Transcode

open Lib

/-! ## What is promised -/

def samples (memory : Memory) (span : Span) : List UInt16 :=
  (List.range (span.dataSize.toNat / 2)).map fun i => memory.read16 (span.data + 2 * i)

/-- The first of every two samples. -/
def decimated : List UInt16 → List UInt16
  | first :: _ :: rest => first :: decimated rest
  | _ => []

def doubled : List UInt16 → List UInt16
  | [] => []
  | v :: rest => v :: v :: doubled rest

/-- What a transform is for. -/
def Transform.map : Transform → List UInt16 → List UInt16
  | .null => id
  | .basicDecimator => decimated
  | .basicInterpolator | .monoToStereo => doubled

def AnyTransform.map (t : AnyTransform) (input : List UInt16) : List UInt16 :=
  t.children.foldl (fun input t => t.map input) input

/-- The input is where the space is, or apart from it. -/
def Placed (input space : Span) : Prop :=
  input.data = space.data ∨ input.data + input.dataSize.toNat ≤ space.data ∨
    space.data + space.dataSize.toNat ≤ input.data

structure IsComposition (t : AnyTransform) (memory : Memory) (input space : Span) : Prop where
  inside : ∀ a, a < space.data ∨ space.data + space.dataSize.toNat ≤ a →
    (t.transform memory input space).2 a = memory a
  size : (t.transform memory input space).1.dataSize = t.transformBlockSize input.dataSize
  fits : (t.transform memory input space).1.dataSize ≤ space.dataSize
  samples : samples (t.transform memory input space).2 (t.transform memory input space).1 =
    t.map (samples memory input)

def Transform.Doubles (t : Transform) : Prop := t = .basicInterpolator ∨ t = .monoToStereo

/-- Every step that doubles the samples gets a block of whole ones. -/
def WholeSamples : List Transform → UInt32 → Prop
  | [], _ => True
  | t :: ts, blockSize =>
      (t.Doubles → blockSize % 2 = 0) ∧ WholeSamples ts (t.transformBlockSize blockSize)

/-! ## Memory -/

theorem read16_write16 (memory : Memory) (a : Nat) (value : UInt16) :
    (memory.write16 a value).read16 a = value := by
  have hnext : ¬ a + 1 = a := Nat.succ_ne_self a
  have hlt := value.toNat_lt
  simp only [Memory.read16, Memory.write16, if_true, if_neg hnext]
  rw [← UInt16.toNat_inj]
  simp only [UInt16.toNat_add, UInt16.toNat_mul, UInt8.toNat_toUInt16, UInt16.toNat_toUInt8,
    UInt16.toNat_div, UInt16.reduceToNat]
  omega

theorem write16_of_ne (memory : Memory) {a x : Nat} (value : UInt16) (h : x ≠ a)
    (hnext : x ≠ a + 1) : memory.write16 a value x = memory x := by
  rw [Memory.write16, if_neg h, if_neg hnext]

/-- Two bytes a cell. -/
def cells16 : Cells Memory Nat UInt16 where
  get := Memory.read16
  put := Memory.write16
  Apart a b := a + 2 ≤ b ∨ b + 2 ≤ a
  get_put := read16_write16
  get_put_of_apart memory value a b h := by
    rw [Memory.read16, Memory.read16, write16_of_ne memory value (by omega) (by omega),
      write16_of_ne memory value (by omega) (by omega)]

/-! ## The loops -/

section Loops

variable {input output count n : Nat} {memory : Memory}

theorem decimate_eq : Transform.decimate input output count memory =
    cells16.spread ((List.range count).map fun i => (input + 2 * (i * 2), [output + 2 * i]))
      memory := by
  rw [Transform.decimate, Cells.spread, List.foldl_map]
  rfl

theorem interpolate_eq : Transform.interpolate input output count memory =
    cells16.spread ((List.range' 1 count).reverse.flatMap fun i =>
      [(input + 2 * (i - 1), [output + 2 * (i * 2 - 1)]),
        (input + 2 * (i - 1), [output + 2 * (i * 2 - 2)])]) memory := by
  rw [Transform.interpolate, Cells.spread, List.foldl_flatMap]
  rfl

theorem duplicate_eq : Transform.duplicate input output count memory =
    cells16.spread ((List.range' 1 count).reverse.map fun i =>
      (input + 2 * (i - 1), [output + 2 * (i * 2 - 2), output + 2 * (i * 2 - 1)])) memory := by
  rw [Transform.duplicate, Cells.spread, List.foldl_map]
  rfl

/-- The input of `n` bytes is where the output is, or apart from its `m` bytes. -/
def Beside (input n output m : Nat) : Prop :=
  input = output ∨ input + n ≤ output ∨ output + m ≤ input

theorem Beside.mono {n' m m' : Nat} (h : Beside input n output m) (hn : n' ≤ n) (hm : m' ≤ m) :
    Beside input n' output m' := by
  rcases h with rfl | h | h
  · exact .inl rfl
  · exact .inr (.inl (by omega))
  · exact .inr (.inr (by omega))

theorem orderly_decimate (h : Beside input (4 * count) output (2 * count)) :
    cells16.Orderly
      ((List.range count).map fun i => (input + 2 * (i * 2), [output + 2 * i])) := by
  refine ⟨List.pairwise_map.2 (List.Pairwise.imp_of_mem ?_ List.pairwise_lt_range), ?_⟩
  · intro i j hi hj hlt
    rw [List.mem_range] at hi hj
    simp only [List.mem_singleton, forall_eq, cells16]
    rcases h with rfl | h | h <;> omega
  · simp

theorem orderly_duplicate (h : Beside input (2 * count) output (4 * count)) :
    cells16.Orderly ((List.range' 1 count).reverse.map fun i =>
      (input + 2 * (i - 1), [output + 2 * (i * 2 - 2), output + 2 * (i * 2 - 1)])) := by
  refine ⟨List.pairwise_map.2 (List.pairwise_reverse.2
    (List.Pairwise.imp_of_mem ?_ (List.pairwise_lt_range' ..))), ?_⟩
  · intro j i hj hi hlt
    rw [List.mem_range'_1] at hi hj
    simp only [List.forall_mem_cons, List.not_mem_nil, false_implies, implies_true, and_true,
      cells16]
    rcases h with rfl | h | h <;> omega
  · intro move hmove
    obtain ⟨i, hi, rfl⟩ := List.mem_map.1 hmove
    rw [List.mem_reverse, List.mem_range'_1] at hi
    simp only [List.pairwise_cons, List.mem_singleton, forall_eq, List.not_mem_nil, false_implies,
      implies_true, List.Pairwise.nil, and_true, cells16]
    omega

theorem orderly_interpolate (h : Beside input (2 * count) output (4 * count)) :
    cells16.Orderly ((List.range' 1 count).reverse.flatMap fun i =>
      [(input + 2 * (i - 1), [output + 2 * (i * 2 - 1)]),
        (input + 2 * (i - 1), [output + 2 * (i * 2 - 2)])]) := by
  refine ⟨List.pairwise_flatMap.2 ⟨?_, List.pairwise_reverse.2
    (List.Pairwise.imp_of_mem ?_ (List.pairwise_lt_range' ..))⟩, ?_⟩
  · intro i hi
    rw [List.mem_reverse, List.mem_range'_1] at hi
    simp only [List.pairwise_cons, List.mem_singleton, forall_eq, List.not_mem_nil, false_implies,
      implies_true, List.Pairwise.nil, and_true, cells16]
    rcases h with rfl | h | h <;> omega
  · intro j i hj hi hlt
    rw [List.mem_range'_1] at hi hj
    simp only [List.forall_mem_cons, List.mem_singleton, forall_eq, cells16]
    rcases h with rfl | h | h <;> omega
  · intro move hmove
    obtain ⟨i, -, hi⟩ := List.mem_flatMap.1 hmove
    rcases List.mem_cons.1 hi with rfl | hi
    · simp
    · rw [List.mem_singleton.1 hi]
      simp

end Loops

/-! ## The samples of a list -/

section Lists

variable {l : List UInt16}

theorem length_decimated : (decimated l).length = l.length / 2 := by
  induction l using decimated.induct with
  | case1 first second rest ih =>
      rw [decimated, List.length_cons, ih, List.length_cons, List.length_cons]
      omega
  | case2 l hshort =>
      cases l with
      | nil => rfl
      | cons first rest =>
          cases rest with
          | nil => simp [decimated]
          | cons second rest => exact absurd rfl (hshort first second rest)

theorem getElem?_decimated : ∀ {i : Nat}, i < l.length / 2 → (decimated l)[i]? = l[2 * i]? := by
  induction l using decimated.induct with
  | case1 first second rest ih =>
      intro i hi
      rw [List.length_cons, List.length_cons] at hi
      cases i with
      | zero => rfl
      | succ i =>
          rw [decimated, List.getElem?_cons_succ, ih (by omega), Nat.mul_succ,
            List.getElem?_cons_succ, List.getElem?_cons_succ]
  | case2 l hshort =>
      intro i hi
      cases l with
      | nil => exact absurd hi (Nat.not_lt_zero i)
      | cons first rest =>
          cases rest with
          | nil => simp at hi
          | cons second rest => exact absurd rfl (hshort first second rest)

theorem length_doubled : (doubled l).length = 2 * l.length := by
  induction l with
  | nil => rfl
  | cons v rest ih =>
      rw [doubled, List.length_cons, List.length_cons, ih, List.length_cons]
      omega

theorem getElem?_doubled {i : Nat} : (doubled l)[i]? = l[i / 2]? := by
  induction l generalizing i with
  | nil => simp [doubled]
  | cons v rest ih =>
      match i with
      | 0 => rfl
      | 1 => rfl
      | i + 2 =>
          rw [doubled, List.getElem?_cons_succ, List.getElem?_cons_succ, ih,
            Nat.add_div_right i (by decide), List.getElem?_cons_succ]

end Lists

/-! ## One transform -/

section Written

variable {input output : Nat} {memory memory' : Memory} {expected : List UInt16} {size : UInt32}

/-- The samples stand one after the other from `output` on, and nothing else is changed. -/
structure Written (memory : Memory) (output : Nat) (expected : List UInt16) (memory' : Memory) :
    Prop where
  inside : ∀ a, a < output ∨ output + 2 * expected.length ≤ a → memory' a = memory a
  reads : ∀ i, i < expected.length → some (memory'.read16 (output + 2 * i)) = expected[i]?

theorem length_samples (memory : Memory) (span : Span) :
    (samples memory span).length = span.dataSize.toNat / 2 := by
  rw [samples, List.length_map, List.length_range]

theorem getElem?_samples (memory : Memory) (span : Span) {i : Nat} (h : i < span.dataSize.toNat / 2) :
    (samples memory span)[i]? = some (memory.read16 (span.data + 2 * i)) := by
  rw [samples, List.getElem?_map, List.getElem?_range h, Option.map_some]

/-- A span that holds what was written and no other sample. -/
theorem samples_of_written (h : Written memory output expected memory')
    (hsize : size.toNat / 2 = expected.length) : samples memory' ⟨output, size⟩ = expected := by
  refine List.ext_getElem? fun i => ?_
  by_cases hi : i < expected.length
  · rw [← h.reads i hi]
    exact getElem?_samples memory' ⟨output, size⟩ (hsize ▸ hi)
  · have hlength : (samples memory' ⟨output, size⟩).length = expected.length :=
      (length_samples memory' ⟨output, size⟩).trans hsize
    rw [List.getElem?_eq_none (by omega), List.getElem?_eq_none (by omega)]

theorem written_spread {moves : List (Nat × List Nat)} (horderly : cells16.Orderly moves)
    (hdests : ∀ i < expected.length, ∃ move ∈ moves,
      output + 2 * i ∈ move.2 ∧ some (memory.read16 move.1) = expected[i]?)
    (hinside : ∀ move ∈ moves, ∀ dest ∈ move.2,
      output ≤ dest ∧ dest + 2 ≤ output + 2 * expected.length) :
    Written memory output expected (cells16.spread moves memory) := by
  refine ⟨fun a ha => ?_, fun i hi => ?_⟩
  · refine Cells.spread_inv (P := fun m : Memory => m a = memory a)
      (fun m v move hmove dest hdest hm => ?_) rfl
    have hbounds := hinside move hmove dest hdest
    exact (write16_of_ne m v (by omega) (by omega)).trans hm
  · obtain ⟨⟨src, dests⟩, hmove, hdest, hread⟩ := hdests i hi
    rw [← hread]
    exact congrArg some (@Cells.get_spread _ _ _ cells16 _ _ _ _ _ horderly hmove hdest)

variable {n : UInt32}

theorem written_decimate
    (h : Beside input n.toNat output (2 * (n.toNat / 2 / 2))) :
    Written memory output (decimated (samples memory ⟨input, n⟩))
      (Transform.decimate input output (n.toNat / 2 / 2) memory) := by
  have hlength : (decimated (samples memory ⟨input, n⟩)).length = n.toNat / 2 / 2 := by
    rw [length_decimated, length_samples]
  rw [decimate_eq]
  refine written_spread (orderly_decimate (h.mono (by omega) (Nat.le_refl _))) ?_ ?_
  · intro i hi
    rw [hlength] at hi
    refine ⟨_, List.mem_map_of_mem (List.mem_range.2 hi), List.mem_singleton_self _, ?_⟩
    rw [getElem?_decimated (by rw [length_samples]; exact hi), getElem?_samples memory ⟨input, n⟩ (by dsimp; omega),
      Nat.mul_comm i 2]
  · intro move hmove dest hdest
    obtain ⟨i, hi, rfl⟩ := List.mem_map.1 hmove
    rw [List.mem_range] at hi
    rw [List.mem_singleton] at hdest
    omega

/-- Both loops that double the samples write them in this way. -/
theorem written_doubled {moves : List (Nat × List Nat)} (horderly : cells16.Orderly moves)
    (hmoves : ∀ i, i < n.toNat / 2 → ∀ k, k < 2 →
      ∃ move ∈ moves, move.1 = input + 2 * i ∧ output + 2 * (2 * i + k) ∈ move.2)
    (hinside : ∀ move ∈ moves, ∀ dest ∈ move.2,
      output ≤ dest ∧ dest + 2 ≤ output + 4 * (n.toNat / 2)) :
    Written memory output (doubled (samples memory ⟨input, n⟩)) (cells16.spread moves memory) := by
  have hlength : (doubled (samples memory ⟨input, n⟩)).length = 2 * (n.toNat / 2) := by
    rw [length_doubled, length_samples]
  refine written_spread horderly (fun i hi => ?_) fun move hmove dest hdest => ?_
  · rw [hlength] at hi
    obtain ⟨move, hmove, hsrc, hdest⟩ := hmoves (i / 2) (by omega) (i % 2) (by omega)
    rw [Nat.div_add_mod i 2] at hdest
    refine ⟨move, hmove, hdest, ?_⟩
    rw [getElem?_doubled, hsrc]
    exact (getElem?_samples memory ⟨input, n⟩ (by dsimp; omega)).symm
  · have hbounds := hinside move hmove dest hdest
    rw [hlength]
    omega

theorem written_duplicate (h : Beside input n.toNat output (4 * (n.toNat / 2))) :
    Written memory output (doubled (samples memory ⟨input, n⟩))
      (Transform.duplicate input output (n.toNat / 2) memory) := by
  rw [duplicate_eq]
  refine written_doubled (orderly_duplicate (h.mono (by omega) (Nat.le_refl _))) ?_ ?_
  · intro i hi k hk
    refine ⟨_, List.mem_map_of_mem (a := i + 1) (by simp; omega), rfl, ?_⟩
    have hcases : k = 0 ∨ k = 1 := by omega
    rcases hcases with rfl | rfl
    · exact List.mem_cons.2 (.inl (by omega))
    · exact List.mem_cons_of_mem _ (List.mem_singleton.2 (by omega))
  · intro move hmove dest hdest
    obtain ⟨i, hi, rfl⟩ := List.mem_map.1 hmove
    rw [List.mem_reverse, List.mem_range'_1] at hi
    simp only [List.mem_cons, List.not_mem_nil, or_false] at hdest
    omega

theorem written_interpolate (h : Beside input n.toNat output (4 * (n.toNat / 2))) :
    Written memory output (doubled (samples memory ⟨input, n⟩))
      (Transform.interpolate input output (n.toNat / 2) memory) := by
  rw [interpolate_eq]
  refine written_doubled (orderly_interpolate (h.mono (by omega) (Nat.le_refl _))) ?_ ?_
  · intro i hi k hk
    refine ⟨(input + 2 * (i + 1 - 1), [output + 2 * ((i + 1) * 2 - (2 - k))]),
      List.mem_flatMap.2 ⟨i + 1, by simp; omega, ?_⟩, rfl, List.mem_singleton.2 (by omega)⟩
    have hcases : k = 0 ∨ k = 1 := by omega
    rcases hcases with rfl | rfl <;> simp
  · intro move hmove dest hdest
    obtain ⟨i, hi, hmem⟩ := List.mem_flatMap.1 hmove
    rw [List.mem_reverse, List.mem_range'_1] at hi
    simp only [List.mem_cons, List.not_mem_nil, or_false] at hmem
    rcases hmem with rfl | rfl
    · rw [List.mem_singleton] at hdest
      omega
    · rw [List.mem_singleton] at hdest
      omega

end Written

/-! ## One transform after the other -/

section Chains

variable {memory : Memory} {input space : Span} {b blockSize : UInt32} {t : Transform}
  {ts : List Transform}

/-- The sizes on the way: nothing wraps, and every answer fits into the space. -/
def Fits : List Transform → UInt32 → UInt32 → Prop
  | [], blockSize, b => blockSize ≤ b
  | t :: ts, blockSize, b =>
      (t.Doubles → blockSize.toNat < 2147483648) ∧
        (t ≠ .null → t.transformBlockSize blockSize ≤ b) ∧
        Fits ts (t.transformBlockSize blockSize) b

def transformAll (ts : List Transform) (memory : Memory) (input space : Span) : Span × Memory :=
  ts.foldl (fun (output, memory) t => t.transform memory output space) (input, memory)

theorem toNat_doubled (h : blockSize.toNat < 2147483648) :
    (blockSize * 2).toNat = 2 * blockSize.toNat := by
  rw [UInt32.toNat_mul]
  simp only [UInt32.reduceToNat]
  omega

theorem toNat_half : (blockSize / 2).toNat = blockSize.toNat / 2 := by
  rw [UInt32.toNat_div]
  rfl

theorem even_iff : blockSize % 2 = 0 ↔ blockSize.toNat % 2 = 0 := by
  rw [← UInt32.toNat_inj, UInt32.toNat_mod]
  rfl

/-- What is written by a transform that writes fits into its answer, and fills it if the samples
that are doubled are whole. -/
theorem transform_written (memory : Memory) (hnull : t ≠ .null)
    (hwraps : t.Doubles → input.dataSize.toNat < 2147483648)
    (h : Beside input.data input.dataSize.toNat space.data
      (t.transformBlockSize input.dataSize).toNat) :
    (t.transform memory input space).1 = ⟨space.data, t.transformBlockSize input.dataSize⟩ ∧
      Written memory space.data (t.map (samples memory input)) (t.transform memory input space).2 ∧
      2 * (t.map (samples memory input)).length ≤ (t.transformBlockSize input.dataSize).toNat ∧
      ((t.Doubles → input.dataSize % 2 = 0) →
        (t.transformBlockSize input.dataSize).toNat / 2 =
          (t.map (samples memory input)).length) := by
  cases t with
  | null => exact absurd rfl hnull
  | basicDecimator =>
      simp only [Transform.transformBlockSize, Transform.ratio, toNat_half] at h
      simp only [Transform.transform, Transform.map, Transform.transformBlockSize, Transform.ratio,
        toNat_half, length_decimated, length_samples, true_and]
      exact ⟨written_decimate (h.mono (Nat.le_refl _) (by omega)), by omega, fun _ => trivial⟩
  | basicInterpolator =>
      have hsize := toNat_doubled (hwraps (.inl rfl))
      simp only [Transform.transformBlockSize, Transform.ratio, hsize] at h
      simp only [Transform.transform, Transform.map, Transform.transformBlockSize, Transform.ratio,
        toNat_half, hsize, length_doubled, length_samples, true_and, even_iff]
      refine ⟨written_interpolate (h.mono (Nat.le_refl _) (by omega)), by omega, fun heven => ?_⟩
      have heven' := heven (.inl rfl)
      omega
  | monoToStereo =>
      have hsize := toNat_doubled (hwraps (.inr rfl))
      rw [UInt32.mul_comm] at hsize
      simp only [Transform.transformBlockSize, hsize] at h
      simp only [Transform.transform, Transform.map, Transform.transformBlockSize,
        toNat_half, hsize, length_doubled, length_samples, true_and, even_iff]
      refine ⟨written_duplicate (h.mono (Nat.le_refl _) (by omega)), by omega, fun heven => ?_⟩
      have heven' := heven (.inr rfl)
      omega

theorem transformAll_inside (memory : Memory) (hfits : Fits ts input.dataSize b)
    (h : Beside input.data input.dataSize.toNat space.data b.toNat) :
    (∀ a, a < space.data ∨ space.data + b.toNat ≤ a →
        (transformAll ts memory input space).2 a = memory a) ∧
      (transformAll ts memory input space).1.dataSize =
        ts.foldl (fun size t => t.transformBlockSize size) input.dataSize ∧
      (transformAll ts memory input space).1.dataSize ≤ b ∧
      (WholeSamples ts input.dataSize →
        samples (transformAll ts memory input space).2 (transformAll ts memory input space).1 =
          ts.foldl (fun input t => t.map input) (samples memory input)) := by
  induction ts generalizing memory input with
  | nil => exact ⟨fun _ _ => rfl, rfl, hfits, fun _ => rfl⟩
  | cons t ts ih =>
      obtain ⟨hwraps, hfirst, hrest⟩ := hfits
      by_cases hnull : t = .null
      · subst hnull
        obtain ⟨hinside, hsize, hle, hsamples⟩ := ih memory hrest h
        exact ⟨hinside, hsize, hle, fun hwhole => hsamples hwhole.2⟩
      · have hblock := hfirst hnull
        obtain ⟨hspan, hwritten, hlength, hfull⟩ := transform_written memory hnull hwraps
          (h.mono (Nat.le_refl _) (UInt32.le_iff_toNat_le.1 hblock))
        have hnext : transformAll (t :: ts) memory input space =
            transformAll ts (t.transform memory input space).2
              ⟨space.data, t.transformBlockSize input.dataSize⟩ space := by
          rw [← hspan]
          rfl
        obtain ⟨hinside, hsize, hle, hsamples⟩ :=
          @ih ⟨space.data, t.transformBlockSize input.dataSize⟩ (t.transform memory input space).2
            hrest (.inl rfl)
        rw [hnext]
        refine ⟨fun a ha => (hinside a ha).trans (hwritten.inside a ?_), hsize, hle, ?_⟩
        · have hbound := UInt32.le_iff_toNat_le.1 hblock
          omega
        · intro hwhole
          rw [hsamples hwhole.2, samples_of_written hwritten (hfull hwhole.1)]
          rfl

end Chains

/-! ## The transforms of the factory -/

section Factory

open TransformFactory

variable {source sink : AudioFormat} {made : AnyTransform} {t : Transform}

def madeTransforms : List AnyTransform :=
  [.single .null, .single .basicDecimator, .single .basicInterpolator, .single .monoToStereo,
    .composite [.basicDecimator, .monoToStereo], .composite [.basicInterpolator, .monoToStereo]]

theorem samplerate_cases (h : getSamplerateTransform source sink = .ok t) :
    t = .basicDecimator ∨ t = .basicInterpolator := by
  simp only [getSamplerateTransform] at h
  repeat' split at h
  all_goals cases h
  · exact .inl rfl
  · exact .inr rfl

theorem channels_cases (h : getChannelsTransform source sink = .ok t) : t = .monoToStereo := by
  rw [getChannelsTransform] at h
  split at h
  · cases h
    rfl
  · cases h

theorem mem_madeTransforms (h : makeTransform source sink = .ok made) :
    made ∈ madeTransforms := by
  rw [makeTransform] at h
  split at h
  · cases h
    simp [madeTransforms]
  rename_i hne
  split at h
  · cases h
  rename_i hwidth
  by_cases hrate : source.sampleRate ≠ sink.sampleRate
  · cases hrates : getSamplerateTransform source sink with
    | error failure => simp [hrate, hrates, bind, Except.bind] at h
    | ok first =>
        by_cases hchannels : source.channels ≠ sink.channels
        · cases hsecond : getChannelsTransform source sink with
          | error failure => simp [hrate, hrates, hchannels, hsecond, bind, Except.bind] at h
          | ok second =>
              simp [hrate, hrates, hchannels, hsecond, bind, Except.bind, pure, Except.pure] at h
              subst h
              rw [channels_cases hsecond]
              rcases samplerate_cases hrates with rfl | rfl <;> simp [madeTransforms]
        · simp [hrate, hrates, hchannels, bind, Except.bind, pure, Except.pure] at h
          subst h
          rcases samplerate_cases hrates with rfl | rfl <;> simp [madeTransforms]
  · by_cases hchannels : source.channels ≠ sink.channels
    · cases hsecond : getChannelsTransform source sink with
      | error failure => simp [hrate, hchannels, hsecond, bind, Except.bind, pure, Except.pure] at h
      | ok second =>
          simp [hrate, hchannels, hsecond, bind, Except.bind, pure, Except.pure] at h
          subst h
          rw [channels_cases hsecond]
          simp [madeTransforms]
    · -- Formats that agree in rate, width and channels are the same.
      refine absurd ?_ hne
      obtain ⟨sourceRate, sourceWidth, sourceChannels⟩ := source
      simp_all

variable {memory : Memory} {input space : Span} {b : UInt32}

theorem transform_eq_all (made : AnyTransform) (memory : Memory) (input space : Span) :
    made.transform memory input space = transformAll made.children memory input space := by
  cases made <;> rfl

theorem transformBlockSize_eq (made : AnyTransform) (blockSize : UInt32) :
    made.transformBlockSize blockSize =
      made.children.foldl (fun size t => t.transformBlockSize size) blockSize := by
  cases made <;> rfl

/-- The sizes fit on the way, wrapped or not. -/
theorem fits_made (h : made ∈ madeTransforms) :
    Fits made.children (made.transformBlockSizeInverted b) b := by
  have hb := b.toNat_lt
  simp only [madeTransforms, List.mem_cons, List.not_mem_nil, or_false] at h
  rcases h with rfl | rfl | rfl | rfl | rfl | rfl <;>
    simp only [AnyTransform.children, AnyTransform.transformBlockSizeInverted, List.foldl_cons,
      List.foldl_nil, Transform.transformBlockSizeInverted, Fits, Transform.Doubles,
      Transform.transformBlockSize, Transform.ratio, UInt32.le_iff_toNat_le, UInt32.toNat_mul,
      UInt32.toNat_div, UInt32.reduceToNat, reduceCtorEq, ne_eq, not_true_eq_false,
      not_false_eq_true, or_false, or_true, or_self, false_implies, true_implies, true_and] <;>
    omega

/-- An answer with as many samples as were to be made comes of whole samples. -/
theorem whole_of_length (h : made ∈ madeTransforms) {samples : List UInt16}
    (hinput : samples.length = (made.transformBlockSizeInverted b).toNat / 2)
    (hlength : (made.transformBlockSize (made.transformBlockSizeInverted b)).toNat / 2 =
      (made.map samples).length) :
    WholeSamples made.children (made.transformBlockSizeInverted b) := by
  have hb := b.toNat_lt
  simp only [madeTransforms, List.mem_cons, List.not_mem_nil, or_false] at h
  rcases h with rfl | rfl | rfl | rfl | rfl | rfl <;>
    simp only [AnyTransform.children, AnyTransform.transformBlockSizeInverted, List.foldl_cons,
      List.foldl_nil, Transform.transformBlockSizeInverted, WholeSamples, Transform.Doubles,
      Transform.transformBlockSize, Transform.ratio, even_iff, UInt32.toNat_mul,
      UInt32.toNat_div, UInt32.reduceToNat, reduceCtorEq, or_false, or_true, or_self,
      false_implies, true_implies, and_true, true_and, AnyTransform.transformBlockSize,
      AnyTransform.map, Transform.map, length_decimated, length_doubled, id_eq] at hinput hlength ⊢ <;>
    omega

/-- Whatever the factory makes transcodes a block of the size that belongs to the space, where
the input is as well as apart from it, exactly if every step that doubles the samples gets whole
ones. -/
theorem transcodes_iff (h : makeTransform source sink = .ok made)
    (hinput : input.dataSize = made.transformBlockSizeInverted space.dataSize)
    (hplaced : Placed input space) :
    IsComposition made memory input space ↔ WholeSamples made.children input.dataSize := by
  have hmade := mem_madeTransforms h
  constructor
  · intro hcomposition
    have hlength := congrArg List.length hcomposition.samples
    rw [length_samples, hcomposition.size, hinput] at hlength
    rw [hinput]
    exact whole_of_length hmade ((length_samples ..).trans (by rw [hinput])) hlength
  · intro hwhole
    have hfits : Fits made.children input.dataSize space.dataSize := hinput ▸ fits_made hmade
    obtain ⟨hinside, hsize, hle, hsamples⟩ := transformAll_inside memory hfits hplaced
    rw [← transform_eq_all] at hinside hsize hle hsamples
    exact ⟨hinside, hsize.trans (transformBlockSize_eq made _).symm, hle, hsamples hwhole⟩

theorem two_frames_transcoded :
    IsComposition (.single .monoToStereo) (fun a => a.toUInt8) ⟨0, 4⟩ ⟨0, 8⟩ := by
  have hmade : makeTransform ⟨44100, 16, 1⟩ ⟨44100, 16, 2⟩ = .ok (.single .monoToStereo) := by
    decide
  have hplaced : Placed ⟨0, 4⟩ ⟨0, 8⟩ := .inl rfl
  exact (transcodes_iff hmade (by decide) hplaced).2 ⟨fun _ => by decide, trivial⟩

/-- Of three bytes of mono one sample is read, and six bytes are answered: the last two hold what
was there before. -/
theorem half_sample_lost :
    makeTransform ⟨44100, 16, 1⟩ ⟨44100, 16, 2⟩ = .ok (.single .monoToStereo) ∧
      (AnyTransform.single .monoToStereo).transformBlockSizeInverted 6 = 3 ∧
      ¬ IsComposition (.single .monoToStereo) (fun a => a.toUInt8) ⟨0, 3⟩ ⟨0, 6⟩ := by
  refine ⟨by decide, by decide, fun h => ?_⟩
  exact absurd (congrArg List.length h.samples) (by decide)

end Factory

end MuditaOS.Transcode
