import Mathlib.Data.List.Nodup
import MuditaOS.Vfs.HandleMapper

/-!
# A sound table of descriptors

The list of unused slots is sound as long as only slots in use are given back,
which `remove` does not check. What the functions on descriptors do is then said
through `findFilehandle` alone: a new descriptor referred to nothing before, and
one that is removed refers to nothing afterwards.
-/

namespace MuditaOS.Vfs

variable {T : Type*} {m : HandleMapper T}

/-- `unused` lists the free slots, each of them once. -/
structure HandleMapper.Sound (m : HandleMapper T) : Prop where
  nodup : m.unused.Nodup
  mem_iff : ∀ {i}, i ∈ m.unused ↔ m.data[i]? = some none

theorem HandleMapper.sound_empty : (empty : HandleMapper T).Sound :=
  ⟨List.nodup_nil, by simp [empty]⟩

theorem HandleMapper.get_of_free {i : Nat} (h : m.data[i]? = some none) : m.get i = none := by
  rw [get, h]
  rfl

theorem HandleMapper.get_remove {i j : Nat} :
    (m.remove i).get j = if j = i then none else m.get j := by
  rw [get, remove, get, List.getElem?_set]
  by_cases hij : i = j
  · rw [if_pos hij, if_pos hij.symm]
    split <;> rfl
  · rw [if_neg hij, if_neg (Ne.symm hij)]

theorem HandleMapper.insert_nil {value : T} (h : m.unused = []) :
    m.insert value = (m.data.length, { m with data := m.data ++ [some value] }) := by
  rw [insert, h]

theorem HandleMapper.insert_cons {value : T} {result : Nat} {unused : List Nat}
    (h : m.unused = result :: unused) :
    m.insert value = (result, { data := m.data.set result (some value), unused }) := by
  rw [insert, h]

/-- The slot that `insert` takes was free, and is the only one that changes. -/
theorem HandleMapper.Sound.get_insert {value : T} {j : Nat} (h : m.Sound) :
    m.get (m.insert value).1 = none ∧ (m.insert value).2.get j =
      if j = (m.insert value).1 then some value else m.get j := by
  cases hun : m.unused with
  | nil =>
      rw [insert_nil hun]
      refine ⟨by rw [get, List.getElem?_eq_none (Nat.le_refl _)]; rfl, ?_⟩
      change ((m.data ++ [some value])[j]?).join = if j = m.data.length then _ else _
      rw [List.getElem?_append]
      split
      · next hlt => rw [if_neg (Nat.ne_of_lt hlt), get]
      · next hge =>
          split
          · next heq => rw [heq, Nat.sub_self]; rfl
          · next hne =>
              have hbehind : [some value].length ≤ j - m.data.length := by
                rw [List.length_singleton]
                omega
              rw [get, List.getElem?_eq_none hbehind,
                List.getElem?_eq_none (Nat.le_of_not_lt hge)]
  | cons result unused =>
      have hfree : m.data[result]? = some none := h.mem_iff.1 (hun ▸ List.mem_cons_self)
      have hlt : result < m.data.length := (List.getElem?_eq_some_iff.1 hfree).1
      rw [insert_cons hun]
      refine ⟨get_of_free hfree, ?_⟩
      change ((m.data.set result (some value))[j]?).join = if j = result then _ else _
      rw [List.getElem?_set]
      by_cases hj : result = j
      · rw [if_pos hj, if_pos hj.symm, if_pos hlt]
        rfl
      · rw [if_neg hj, if_neg (Ne.symm hj), get]

theorem HandleMapper.Sound.insert {value : T} (h : m.Sound) : (m.insert value).2.Sound := by
  obtain ⟨hnodup, hmem⟩ := h
  cases hun : m.unused with
  | nil =>
      rw [insert_nil hun]
      refine ⟨hnodup, fun {i} => ?_⟩
      change i ∈ m.unused ↔ (m.data ++ [some value])[i]? = some none
      rw [hmem, List.getElem?_append]
      split
      · exact Iff.rfl
      · next hge =>
          rw [List.getElem?_eq_none (by omega), List.getElem?_singleton]
          split <;> simp
  | cons result unused =>
      rw [hun] at hnodup
      obtain ⟨hnotin, hnodup⟩ := List.nodup_cons.1 hnodup
      rw [insert_cons hun]
      refine ⟨hnodup, fun {i} => ?_⟩
      change i ∈ unused ↔ (m.data.set result (some value))[i]? = some none
      rw [List.getElem?_set]
      by_cases hi : result = i
      · rw [if_pos hi]
        refine ⟨fun hin => absurd (hi ▸ hin) hnotin, fun hnone => ?_⟩
        split at hnone <;> simp at hnone
      · rw [if_neg hi, ← hmem, hun, List.mem_cons, or_iff_right (Ne.symm hi)]

theorem HandleMapper.length_insert {value : T} :
    m.data.length ≤ (m.insert value).2.data.length := by
  cases hun : m.unused with
  | nil =>
      rw [insert_nil hun]
      change m.data.length ≤ (m.data ++ [some value]).length
      rw [List.length_append]
      omega
  | cons result unused =>
      rw [insert_cons hun]
      exact Nat.le_of_eq List.length_set.symm

/-- A slot may be given back when it holds something, and only then. -/
theorem HandleMapper.Sound.remove_iff {i : Nat} (h : m.Sound) (hi : i < m.data.length) :
    (m.remove i).Sound ↔ (m.get i).isSome := by
  constructor
  · rintro ⟨hnodup, -⟩
    have hnotin := (List.nodup_cons.1 hnodup).1
    rw [h.mem_iff, List.getElem?_eq_getElem hi] at hnotin
    rw [get, List.getElem?_eq_getElem hi]
    exact Option.isSome_iff_ne_none.2 fun hnone => hnotin (congrArg some hnone)
  · intro hsome
    have hslot : m.data[i]? ≠ some none := fun hfree => by
      rw [get_of_free hfree] at hsome
      exact absurd hsome (by simp)
    refine ⟨List.nodup_cons.2 ⟨fun hin => hslot (h.mem_iff.1 hin), h.nodup⟩, fun {j} => ?_⟩
    change j ∈ i :: m.unused ↔ (m.data.set i none)[j]? = some none
    rw [List.mem_cons, List.getElem?_set, h.mem_iff]
    by_cases hj : i = j
    · rw [if_pos hj, if_pos hi]
      exact iff_of_true (.inl hj.symm) rfl
    · rw [if_neg hj, or_iff_right (Ne.symm hj)]

/-! ## The same for descriptors -/

/-- The slot of a descriptor. -/
def slotOf (fds : Int) : Nat := (fds - firstFileDescriptor).toNat

theorem findFilehandle_eq {fds : Int} :
    findFilehandle m fds = if fds < firstFileDescriptor then none else m.get (slotOf fds) := by
  rw [findFilehandle]
  split
  · rfl
  · change (if m.isIndex (slotOf fds) then m.get (slotOf fds) else none) = m.get (slotOf fds)
    split
    · rfl
    · next hout =>
        rw [HandleMapper.isIndex, decide_eq_true_iff, Nat.not_lt] at hout
        rw [HandleMapper.get, List.getElem?_eq_none hout]
        rfl

theorem removeFilehandle_fst {fds : Int} :
    (removeFilehandle m fds).1 = findFilehandle m fds := by
  rw [removeFilehandle, findFilehandle]
  split
  · rfl
  · dsimp only
    split <;> rfl

theorem removeFilehandle_snd {fds : Int} (hfirst : firstFileDescriptor ≤ fds)
    (hslot : slotOf fds < m.data.length) :
    (removeFilehandle m fds).2 = m.remove (slotOf fds) := by
  rw [removeFilehandle, if_neg (by omega)]
  change (if m.isIndex (slotOf fds) then (m.get (slotOf fds), m.remove (slotOf fds))
    else (none, m)).2 = _
  rw [if_pos (by rw [HandleMapper.isIndex]; exact decide_eq_true hslot)]

/-- Only slots of the table hold something. -/
theorem slotOf_lt {fds : Int} {file : T} (h : findFilehandle m fds = some file) :
    firstFileDescriptor ≤ fds ∧ slotOf fds < m.data.length := by
  rw [findFilehandle_eq] at h
  split at h
  · exact absurd h (by simp)
  · next hfirst =>
      refine ⟨Int.le_of_not_gt hfirst, Nat.lt_of_not_le fun hle => ?_⟩
      rw [HandleMapper.get, List.getElem?_eq_none hle] at h
      exact absurd h (by simp)

theorem slotOf_inj {a b : Int} (ha : firstFileDescriptor ≤ a) (hb : firstFileDescriptor ≤ b) :
    slotOf a = slotOf b ↔ a = b := by
  rw [slotOf, slotOf]
  omega

theorem slotOf_add {i : Nat} : slotOf (i + firstFileDescriptor) = i := by
  rw [slotOf, Int.add_sub_cancel, Int.toNat_natCast]

/-- A new descriptor referred to nothing, and the others refer to what they did. -/
theorem findFilehandle_addFilehandle {file : T} {fds : Int} (h : m.Sound) :
    findFilehandle m (addFilehandle m file).1 = none ∧
      findFilehandle (addFilehandle m file).2 fds =
        if fds = (addFilehandle m file).1 then some file else findFilehandle m fds := by
  have hfirst : firstFileDescriptor ≤ (addFilehandle m file).1 := by
    rw [addFilehandle]
    omega
  have hslot : slotOf (addFilehandle m file).1 = (m.insert file).1 := slotOf_add
  obtain ⟨hfree, -⟩ := @HandleMapper.Sound.get_insert T m file 0 h
  refine ⟨by rw [findFilehandle_eq, if_neg (by omega), hslot, hfree], ?_⟩
  rw [findFilehandle_eq, findFilehandle_eq]
  by_cases hlow : fds < firstFileDescriptor
  · rw [if_pos hlow, if_pos hlow, if_neg (by omega)]
  · rw [if_neg hlow, if_neg hlow]
    change (m.insert file).2.get (slotOf fds) = _
    rw [(h.get_insert).2, ← hslot]
    simp only [slotOf_inj (Int.le_of_not_gt hlow) hfirst]

theorem findFilehandle_removeFilehandle {fds other : Int}
    (hfirst : firstFileDescriptor ≤ fds) (hslot : slotOf fds < m.data.length) :
    findFilehandle (removeFilehandle m fds).2 other =
      if other = fds then none else findFilehandle m other := by
  rw [removeFilehandle_snd hfirst hslot, findFilehandle_eq, findFilehandle_eq]
  by_cases hlow : other < firstFileDescriptor
  · rw [if_pos hlow, if_pos hlow, if_neg (by omega)]
  · rw [if_neg hlow, if_neg hlow, HandleMapper.get_remove]
    simp only [slotOf_inj (Int.le_of_not_gt hlow) hfirst]

end MuditaOS.Vfs
