import Mathlib.Data.List.Basic

/-!
# A memory cut into slots

A list used as an array of records of one size. `slot` is one of them and
`patch` is an overwrite in place, so that what an overwrite does to the slots is
said once and no proof about a ring looks at single positions.
-/

namespace MuditaOS.Lib

variable {α : Type*}

/-- `src` in place of what stands at `off`. -/
def patch (l : List α) (off : Nat) (src : List α) : List α :=
  l.take off ++ src ++ l.drop (off + src.length)

/-- Record `k` of `l`. -/
def slot (size : Nat) (l : List α) (k : Nat) : List α :=
  (l.drop (k * size)).take size

theorem length_patch {l src : List α} {off : Nat}
    (h : off + src.length ≤ l.length) : (patch l off src).length = l.length := by
  rw [patch, List.length_append, List.length_append, List.length_take,
    List.length_drop]
  omega

theorem length_slot {size k : Nat} {l : List α} (h : (k + 1) * size ≤ l.length) :
    (slot size l k).length = size := by
  rw [Nat.add_one_mul] at h
  rw [slot, List.length_take, List.length_drop]
  omega

theorem slot_patch_same {size k : Nat} {l src : List α} (hsrc : src.length = size)
    (h : (k + 1) * size ≤ l.length) : slot size (patch l (k * size) src) k = src := by
  have htake : (l.take (k * size)).length = k * size := by
    rw [List.length_take, Nat.add_one_mul] at *
    omega
  rw [slot, patch, List.append_assoc, List.drop_left' htake, List.take_left' hsrc]

/-- Two different records have no position in common. -/
theorem slots_disjoint {j k : Nat} (size : Nat) (hjk : j ≠ k) :
    (j + 1) * size ≤ k * size ∨ (k + 1) * size ≤ j * size := by
  rcases Nat.lt_or_gt_of_ne hjk with h | h
  · exact .inl (Nat.mul_le_mul_right size h)
  · exact .inr (Nat.mul_le_mul_right size h)

theorem slot_patch_ne {size j k : Nat} {l src : List α} (hsrc : src.length = size)
    (hk : (k + 1) * size ≤ l.length) (hjk : j ≠ k) :
    slot size (patch l (k * size) src) j = slot size l j := by
  have htake : (l.take (k * size)).length = k * size := by
    rw [List.length_take, Nat.add_one_mul] at *
    omega
  rw [Nat.add_one_mul] at hk
  rw [slot, slot, patch, hsrc]
  rcases slots_disjoint size hjk with h | h
  · -- the record lies in the part that was kept in front
    rw [Nat.add_one_mul] at h
    rw [List.append_assoc, List.drop_append_of_le_length (by omega),
      List.take_append_of_le_length (by rw [List.length_drop]; omega),
      List.drop_take, List.take_take, Nat.min_eq_left (by omega)]
  · -- or behind
    rw [Nat.add_one_mul] at h
    have hfront : (l.take (k * size) ++ src).length = k * size + size := by
      rw [List.length_append, htake, hsrc]
    obtain ⟨d, hd⟩ : ∃ d, j * size = k * size + size + d :=
      ⟨j * size - (k * size + size), by omega⟩
    rw [hd, ← List.drop_drop, ← hfront, List.drop_left, hfront, List.drop_drop]

/-! ## Equal records -/

theorem getElem?_slot {size k i : Nat} {l : List α} (hi : i < size) :
    (slot size l k)[i]? = l[k * size + i]? := by
  rw [slot, List.getElem?_take_of_lt hi, List.getElem?_drop]

theorem slot_eq_iff {size k : Nat} {l m : List α} :
    slot size l k = slot size m k ↔ ∀ i < size, l[k * size + i]? = m[k * size + i]? := by
  constructor
  · intro h i hi
    rw [← getElem?_slot hi, ← getElem?_slot hi, h]
  · intro h
    refine List.ext_getElem? fun i => ?_
    by_cases hi : i < size
    · rw [getElem?_slot hi, getElem?_slot hi, h i hi]
    · have hlen : ∀ l : List α, (slot size l k)[i]? = none := fun l =>
        List.getElem?_eq_none (by rw [slot, List.length_take]; omega)
      rw [hlen, hlen]

/-- Records made of parts are equal when all their parts are. -/
theorem slot_eq_iff_parts {size n k : Nat} {l m : List α} :
    slot (n * size) l k = slot (n * size) m k ↔
      ∀ i < n, slot size l (k * n + i) = slot size m (k * n + i) := by
  have hpos : ∀ i j, k * (n * size) + (i * size + j) = (k * n + i) * size + j := by
    intro i j
    rw [Nat.add_mul, Nat.mul_assoc, Nat.add_assoc]
  simp only [slot_eq_iff]
  constructor
  · intro h i hi j hj
    rw [← hpos]
    refine h (i * size + j) ?_
    calc i * size + j < (i + 1) * size := by rw [Nat.succ_mul]; omega
      _ ≤ n * size := Nat.mul_le_mul_right size hi
  · intro h i hi
    have hsize : 0 < size := Nat.pos_of_ne_zero fun h0 => by
      rw [h0, Nat.mul_zero] at hi
      omega
    have hparts := h (i / size) (Nat.div_lt_of_lt_mul (Nat.mul_comm n size ▸ hi)) (i % size)
      (Nat.mod_lt i hsize)
    rwa [← hpos, Nat.mul_comm (i / size), Nat.div_add_mod] at hparts

/-! ## Records written one after the other -/

theorem length_flatMap {β : Type*} {size : Nat} {f : β → List α}
    (hsize : ∀ b, (f b).length = size) : ∀ {l : List β},
    (l.flatMap f).length = l.length * size := by
  intro l
  induction l with
  | nil => simp
  | cons b l ih =>
      rw [List.flatMap_cons, List.length_append, hsize, ih, List.length_cons, Nat.succ_mul,
        Nat.add_comm]

theorem getElem?_flatMap {β : Type*} {size j : Nat} {f : β → List α}
    (hsize : ∀ b, (f b).length = size) (hj : j < size) : ∀ {l : List β} {i : Nat},
    (l.flatMap f)[i * size + j]? = l[i]?.bind fun b => (f b)[j]? := by
  intro l
  induction l with
  | nil => simp
  | cons b l ih =>
      intro i
      rw [List.flatMap_cons]
      cases i with
      | zero =>
          rw [Nat.zero_mul, Nat.zero_add, List.getElem?_append_left (by rwa [hsize])]
          rfl
      | succ i =>
          rw [Nat.succ_mul, List.getElem?_append_right (by rw [hsize]; omega), hsize,
            show i * size + size + j - size = i * size + j by omega, ih]
          rfl

end MuditaOS.Lib
