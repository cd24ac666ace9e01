import MuditaOS.Lib.Search
import MuditaOS.Proofs.Utf8Ops
import MuditaOS.Unicode.Utf8String

/-!
# What a search finds

Both searches compare bytes, at the start of every character. The backward one takes all the
positions that its pattern fits at. The forward one gives up when the pattern reaches the end of
the text, whether it is there or not.
-/

namespace MuditaOS.Unicode

open MuditaOS.Lib

variable {u : UTF8} {cs ss : List Char} {rest : List UInt8} {left i last pos : Nat}

/-! ## Bytes and characters -/

theorem char_of_bytes {c d : Char} {s t : List UInt8}
    (heq : String.utf8EncodeChar c ++ s = String.utf8EncodeChar d ++ t) : c = d ∧ s = t := by
  have hdecode := congrArg decode heq
  rw [decode_char, decode_char] at hdecode
  obtain rfl : c = d := Char.ext (congrArg Prod.fst hdecode)
  exact ⟨rfl, List.append_cancel_left heq⟩

/-- A text is at the front of another's bytes if it is at its front: zeros behind the other do
not continue it. -/
theorem utf8_prefix_iff : ∀ {ss cs : List Char} {n : Nat}, '\x00' ∉ ss →
    (utf8 ss <+: utf8 cs ++ zeroed n ↔ ss <+: cs)
  | [], cs, n, _ => by simp
  | c :: ss, [], n, hnul => by
      refine iff_of_false ?_ (by simp)
      rintro ⟨t, ht⟩
      have hpos := length_char_pos c
      obtain ⟨b, bs, hb⟩ := List.exists_cons_of_length_pos hpos
      have hzero : b ∈ zeroed n := by
        rw [utf8_nil, List.nil_append] at ht
        rw [← ht, utf8_cons, hb]
        simp
      exact utf8_ne_zero hnul b (by rw [utf8_cons, hb]; simp) (List.eq_of_mem_replicate hzero)
  | c :: ss, d :: cs, n, hnul => by
      rw [utf8_cons, utf8_cons, List.append_assoc, List.cons_prefix_cons,
        ← utf8_prefix_iff (fun hmem => hnul (List.mem_cons_of_mem c hmem))]
      constructor
      · rintro ⟨t, ht⟩
        rw [List.append_assoc] at ht
        obtain ⟨hchar, hrest⟩ := char_of_bytes ht
        exact ⟨hchar, t, hrest⟩
      · rintro ⟨rfl, t, ht⟩
        exact ⟨t, by rw [List.append_assoc, ht]⟩

theorem memcmpEq_iff {n : Nat} (hnul : '\x00' ∉ ss) :
    UTF8.memcmpEq (utf8 cs ++ zeroed n) (offset cs i) (utf8 ss) = true ↔ OccursAt ss cs i := by
  rw [UTF8.memcmpEq, drop_offset, beq_iff_eq, OccursAt, ← utf8_prefix_iff hnul,
    List.prefix_iff_eq_take, eq_comm]

theorem not_memcmpEq {n : Nat} (hnul : '\x00' ∉ ss) (hno : ¬ OccursAt ss cs i) :
    ¬ UTF8.memcmpEq (utf8 cs ++ zeroed n) (offset cs i) (utf8 ss) = true := by
  rw [memcmpEq_iff hnul]
  exact hno

/-! ## The loops -/

section

variable {n : Nat}

/-- The comparisons at so many characters from the `i`-th on. -/
def comparedAt (ss cs : List Char) (i count : Nat) : List Compared :=
  (List.range' i count).map fun j => ⟨offset cs j, (utf8 ss).length⟩

theorem comparedAt_succ {count : Nat} : comparedAt ss cs i (count + 1) =
    ⟨offset cs i, (utf8 ss).length⟩ :: comparedAt ss cs (i + 1) count := by
  rw [comparedAt, List.range'_succ, List.map_cons]
  rfl

theorem offset_succ (hi : i < cs.length) :
    offset cs i + charLength ((utf8 cs ++ rest).drop (offset cs i)) = offset cs (i + 1) :=
  @walk_text rest 1 cs i hi

theorem findLoop_miss (hnul : '\x00' ∉ ss) : ∀ {left i : Nat}, i + left ≤ cs.length →
    (∀ j, i ≤ j → j < i + left → ¬ OccursAt ss cs j) →
    UTF8.findLoop (utf8 cs ++ zeroed n) (utf8 ss) left i (offset cs i) =
      (npos, comparedAt ss cs i left)
  | 0, _, _, _ => rfl
  | left + 1, i, hle, hmiss => by
      have hhere := @not_memcmpEq cs ss i n hnul (hmiss i le_rfl (by omega))
      rw [UTF8.findLoop, if_neg hhere, offset_succ (by omega),
        findLoop_miss hnul (by omega) fun j hj hlt => hmiss j (by omega) (by omega),
        comparedAt_succ]

theorem findLoop_hit (hnul : '\x00' ∉ ss) {k : Nat} (hocc : OccursAt ss cs k) :
    ∀ {left i : Nat}, i ≤ k → k < i + left → i + left ≤ cs.length →
      (∀ j, i ≤ j → j < k → ¬ OccursAt ss cs j) →
      UTF8.findLoop (utf8 cs ++ zeroed n) (utf8 ss) left i (offset cs i) =
        (k, comparedAt ss cs i (k - i + 1))
  | 0, i, hik, hlt, _, _ => absurd hlt (by omega)
  | left + 1, i, hik, hlt, hle, hfirst => by
      rcases Nat.eq_or_lt_of_le hik with rfl | hbefore
      · rw [UTF8.findLoop, if_pos ((memcmpEq_iff hnul).mpr hocc), Nat.sub_self, comparedAt_succ]
        rfl
      · have hhere := @not_memcmpEq cs ss i n hnul (hfirst i le_rfl hbefore)
        have hcount : k - i + 1 = k - (i + 1) + 1 + 1 := by omega
        rw [hcount, comparedAt_succ, UTF8.findLoop, if_neg hhere, offset_succ (by omega),
          findLoop_hit hnul hocc (by omega) (by omega) (by omega)
            fun j hj hlt => hfirst j (by omega) hlt]

/-- The last position may be the end of the text, and behind it the pointer is anywhere. -/
theorem findLastLoop_miss (hnul : '\x00' ∉ ss) : ∀ {left i dataPtr last : Nat},
    i + left ≤ cs.length + 1 → (i ≤ cs.length → dataPtr = offset cs i) →
    (∀ j, i ≤ j → j < i + left → ¬ OccursAt ss cs j) →
    UTF8.findLastLoop (utf8 cs ++ zeroed n) (utf8 ss) left i dataPtr last =
      (last, comparedAt ss cs i left)
  | 0, _, _, _, _, _, _ => rfl
  | left + 1, i, dataPtr, last, hle, hptr, hmiss => by
      obtain rfl := hptr (by omega)
      have hhere := @not_memcmpEq cs ss i n hnul (hmiss i le_rfl (by omega))
      have hrest : ∀ j, i + 1 ≤ j → j < i + 1 + left → ¬ OccursAt ss cs j :=
        fun j hj hlt => hmiss j (by omega) (by omega)
      rw [UTF8.findLastLoop, if_neg hhere, comparedAt_succ]
      rw [findLastLoop_miss hnul (by omega) (fun hi => offset_succ (by omega)) hrest]

theorem findLastLoop_hit (hnul : '\x00' ∉ ss) {k : Nat} (hocc : OccursAt ss cs k) :
    ∀ {left i dataPtr last : Nat}, i ≤ k → k < i + left → i + left ≤ cs.length + 1 →
      (i ≤ cs.length → dataPtr = offset cs i) →
      (∀ j, k < j → j < i + left → ¬ OccursAt ss cs j) →
      UTF8.findLastLoop (utf8 cs ++ zeroed n) (utf8 ss) left i dataPtr last =
        (k, comparedAt ss cs i left)
  | 0, i, _, _, hik, hlt, _, _, _ => absurd hlt (by omega)
  | left + 1, i, dataPtr, last, hik, hlt, hle, hptr, hlast => by
      obtain rfl := hptr (by omega)
      have hnext : i + 1 ≤ cs.length → offset cs i +
          charLength ((utf8 cs ++ zeroed n).drop (offset cs i)) = offset cs (i + 1) :=
        fun hi => offset_succ (by omega)
      rw [UTF8.findLastLoop, comparedAt_succ]
      rcases Nat.eq_or_lt_of_le hik with rfl | hbefore
      · rw [if_pos ((memcmpEq_iff hnul).mpr hocc)]
        rw [findLastLoop_miss hnul (by omega) hnext
          fun j hj hlt => hlast j (by omega) (by omega)]
      · rw [findLastLoop_hit hnul hocc (by omega) (by omega) (by omega) hnext
          fun j hj hlt => hlast j hj (by omega)]

end

/-! ## The functions -/

/-- A pattern in memory. -/
theorem patternLength_text (hnul : '\x00' ∉ ss) :
    UTF8.patternLength (utf8 ss ++ 0 :: rest) = ((utf8 ss).length, ss.length) := by
  have hle := @length_le_utf8 ss
  have hfuel : ss.length < (utf8 ss ++ 0 :: rest).length := by
    rw [List.length_append, List.length_cons]
    omega
  rw [UTF8.patternLength, getStreamLength_text hnul hfuel, Option.getD_some]

theorem find_eq (h : Text u cs) (hne : ss ≠ []) (hnul : '\x00' ∉ ss) (hpos : pos ≤ cs.length) :
    u.find (utf8 ss ++ 0 :: rest) pos =
      if cs.length ≤ pos + ss.length then (npos, [])
      else UTF8.findLoop u.bytes (utf8 ss) (cs.length - pos) pos (offset cs pos) := by
  have hcount : ss.length ≠ 0 := fun hzero => hne (List.eq_nil_of_length_eq_zero hzero)
  have hwalk : UTF8.walk u.bytes 0 pos = offset cs pos := by
    rw [h.bytes, walk_from_start hpos]
  simp only [UTF8.find, patternLength_text hnul, hcount, false_and, if_false, List.take_left,
    h.strLength, hwalk, ge_iff_le]

theorem findLast_eq (h : Text u cs) (hne : ss ≠ []) (hnul : '\x00' ∉ ss)
    (hpos : pos ≤ cs.length) :
    u.findLast (utf8 ss ++ 0 :: rest) pos =
      if pos + 1 < ss.length then (npos, [])
      else UTF8.findLastLoop u.bytes (utf8 ss) (pos + 1 - ss.length + 1) 0 0 npos := by
  have hcount : ss.length ≠ 0 := fun hzero => hne (List.eq_nil_of_length_eq_zero hzero)
  have hle : ¬ pos > cs.length := by omega
  have hshort : pos < ss.length - 1 ↔ pos + 1 < ss.length := by omega
  simp only [UTF8.findLast, patternLength_text hnul, hcount, false_and, if_false, List.take_left,
    h.strLength, hle, false_or, hshort]

/-! ## Inside the buffer -/

/-- Every comparison is of bytes of the buffer. -/
def Inside (u : UTF8) (compared : List Compared) : Prop :=
  ∀ a ∈ compared, a.off + a.size ≤ u.sizeAllocated

theorem offset_mono {j : Nat} (hij : i ≤ j) : offset cs i ≤ offset cs j := by
  obtain ⟨k, rfl⟩ := Nat.exists_eq_add_of_le hij
  rw [offset_add]
  omega

/-- It is the last comparison that reaches furthest. -/
theorem inside_comparedAt {count : Nat} : Inside u (comparedAt ss cs i (count + 1)) ↔
    offset cs (i + count) + (utf8 ss).length ≤ u.sizeAllocated := by
  constructor
  · intro hinside
    refine hinside ⟨offset cs (i + count), (utf8 ss).length⟩ (List.mem_map.mpr ⟨i + count, ?_, rfl⟩)
    exact List.mem_range'_1.mpr ⟨by omega, by omega⟩
  · intro hlast a ha
    obtain ⟨j, hj, rfl⟩ := List.mem_map.mp ha
    rw [List.mem_range'_1] at hj
    have hmono : offset cs j ≤ offset cs (i + count) := offset_mono (by omega)
    exact Nat.le_trans (Nat.add_le_add_right hmono _) hlast

theorem occurs_le {k : Nat} (hocc : OccursAt ss cs k) (hk : k ≤ cs.length) :
    k + ss.length ≤ cs.length ∧ offset cs k + (utf8 ss).length ≤ (utf8 cs).length := by
  obtain ⟨t, ht⟩ := hocc
  have hchars := congrArg List.length ht
  have hbytes : (utf8 cs).length = offset cs k + (utf8 (cs.drop k)).length := by
    rw [offset, ← List.length_append, ← utf8_split]
  rw [List.length_append, List.length_drop] at hchars
  rw [← ht, utf8_append, List.length_append] at hbytes
  omega

theorem occurs_lt {k : Nat} (hne : ss ≠ []) (hocc : OccursAt ss cs k) : k < cs.length := by
  by_contra hge
  rw [OccursAt, List.drop_eq_nil_of_le (by omega), List.prefix_nil] at hocc
  exact hne hocc

/-! ## Forwards -/

/-- The least position from `pos` on, or none if there is none. -/
def FindsFirst (ss cs : List Char) (pos result : Nat) : Prop :=
  (IsLeast {i | pos ≤ i ∧ OccursAt ss cs i} result ∧ result ≠ npos) ∨
    (∀ i, pos ≤ i → ¬ OccursAt ss cs i) ∧ result = npos

theorem find_miss (h : Text u cs) (hne : ss ≠ []) (hnul : '\x00' ∉ ss)
    (hshort : pos + ss.length < cs.length) (hmiss : ∀ i, pos ≤ i → ¬ OccursAt ss cs i) :
    u.find (utf8 ss ++ 0 :: rest) pos = (npos, comparedAt ss cs pos (cs.length - pos)) := by
  rw [find_eq h hne hnul (by omega), if_neg (by omega), h.bytes]
  exact findLoop_miss hnul (by omega) fun j hj _ => hmiss j hj

theorem find_hit {k : Nat} (h : Text u cs) (hne : ss ≠ []) (hnul : '\x00' ∉ ss)
    (hshort : pos + ss.length < cs.length) (hle : pos ≤ k) (hocc : OccursAt ss cs k)
    (hfirst : ∀ i, pos ≤ i → i < k → ¬ OccursAt ss cs i) :
    u.find (utf8 ss ++ 0 :: rest) pos = (k, comparedAt ss cs pos (k - pos + 1)) := by
  have hlt := occurs_lt hne hocc
  rw [find_eq h hne hnul (by omega), if_neg (by omega), h.bytes]
  exact findLoop_hit hnul hocc hle (by omega) (by omega) hfirst

theorem length_lt_npos (h : Text u cs) (hsize : u.sizeAllocated ≤ npos) : cs.length < npos := by
  have hle := @length_le_utf8 cs
  have hroom := h.room
  omega

/-- It is only missed where it is all that is left of the text. -/
theorem find_first_iff (h : Text u cs) (hsize : u.sizeAllocated ≤ npos) (hne : ss ≠ [])
    (hnul : '\x00' ∉ ss) (hpos : pos ≤ cs.length) :
    FindsFirst ss cs pos (u.find (utf8 ss ++ 0 :: rest) pos).1 ↔ cs.drop pos ≠ ss := by
  by_cases hshort : pos + ss.length < cs.length
  · have hdrop : cs.drop pos ≠ ss := by
      rintro rfl
      rw [List.length_drop] at hshort
      omega
    refine iff_of_true ?_ hdrop
    by_cases hex : ∃ i, pos ≤ i ∧ OccursAt ss cs i
    · obtain ⟨hle, hocc⟩ := Nat.find_spec hex
      have hfirst : ∀ i, pos ≤ i → i < Nat.find hex → ¬ OccursAt ss cs i :=
        fun i hi hlt hocc => Nat.find_min hex hlt ⟨hi, hocc⟩
      rw [find_hit h hne hnul hshort hle hocc hfirst]
      have hlt := occurs_lt hne hocc
      have hlength := length_lt_npos h hsize
      exact .inl ⟨⟨⟨hle, hocc⟩, fun i hi => Nat.find_min' hex hi⟩, by omega⟩
    · have hmiss : ∀ i, pos ≤ i → ¬ OccursAt ss cs i := fun i hi hocc => hex ⟨i, hi, hocc⟩
      rw [find_miss h hne hnul hshort hmiss]
      exact .inr ⟨hmiss, rfl⟩
  · rw [find_eq h hne hnul hpos, if_pos (by omega)]
    constructor
    · rintro (⟨_, hnpos⟩ | ⟨hmiss, _⟩) rfl
      · exact hnpos rfl
      · exact hmiss pos le_rfl (List.prefix_refl _)
    · refine fun hdrop => .inr ⟨fun i hi hocc => hdrop ?_, rfl⟩
      have hlt := occurs_lt hne hocc
      have hroom := (occurs_le hocc (by omega)).1
      obtain rfl : i = pos := by omega
      exact (hocc.eq_of_length (by rw [List.length_drop]; omega)).symm

theorem find_inside_iff (h : Text u cs) (hne : ss ≠ []) (hnul : '\x00' ∉ ss)
    (hpos : pos ≤ cs.length) :
    Inside u (u.find (utf8 ss ++ 0 :: rest) pos).2 ↔
      (pos + ss.length < cs.length → (∀ i, pos ≤ i → ¬ OccursAt ss cs i) →
        offset cs (cs.length - 1) + (utf8 ss).length ≤ u.sizeAllocated) := by
  by_cases hshort : pos + ss.length < cs.length
  · rw [forall_prop_of_true hshort]
    by_cases hex : ∃ i, pos ≤ i ∧ OccursAt ss cs i
    · obtain ⟨hle, hocc⟩ := Nat.find_spec hex
      have hfirst : ∀ i, pos ≤ i → i < Nat.find hex → ¬ OccursAt ss cs i :=
        fun i hi hlt hocc => Nat.find_min hex hlt ⟨hi, hocc⟩
      rw [find_hit h hne hnul hshort hle hocc hfirst, inside_comparedAt, Nat.add_sub_cancel' hle]
      have hlt := occurs_lt hne hocc
      have hbytes := (occurs_le hocc (by omega)).2
      have hroom := h.room
      exact iff_of_true (by omega) fun hmiss => absurd hocc (hmiss _ hle)
    · have hmiss : ∀ i, pos ≤ i → ¬ OccursAt ss cs i := fun i hi hocc => hex ⟨i, hi, hocc⟩
      have hcount : cs.length - pos = cs.length - 1 - pos + 1 := by omega
      rw [find_miss h hne hnul hshort hmiss, forall_prop_of_true hmiss, hcount, inside_comparedAt,
        Nat.add_sub_cancel' (by omega)]
  · rw [find_eq h hne hnul hpos, if_pos (by omega)]
    exact iff_of_true (fun a ha => nomatch ha) fun h => absurd h hshort

/-! ## Backwards -/

/-- The greatest position with the pattern in the first `pos + 1` characters. -/
def FindsLast (ss cs : List Char) (pos result : Nat) : Prop :=
  (IsGreatest {i | i + ss.length ≤ pos + 1 ∧ OccursAt ss cs i} result ∧ result ≠ npos) ∨
    (∀ i, i + ss.length ≤ pos + 1 → ¬ OccursAt ss cs i) ∧ result = npos

theorem findLast_miss (h : Text u cs) (hne : ss ≠ []) (hnul : '\x00' ∉ ss)
    (hpos : pos ≤ cs.length) (hlong : ss.length ≤ pos + 1)
    (hmiss : ∀ i, i + ss.length ≤ pos + 1 → ¬ OccursAt ss cs i) :
    u.findLast (utf8 ss ++ 0 :: rest) pos =
      (npos, comparedAt ss cs 0 (pos + 1 - ss.length + 1)) := by
  have hsize := List.length_pos_of_ne_nil hne
  rw [findLast_eq h hne hnul hpos, if_neg (by omega), h.bytes]
  exact findLastLoop_miss hnul (by omega) (fun _ => rfl) fun j _ hj => hmiss j (by omega)

theorem findLast_hit {k : Nat} (h : Text u cs) (hne : ss ≠ []) (hnul : '\x00' ∉ ss)
    (hpos : pos ≤ cs.length) (hk : k + ss.length ≤ pos + 1) (hocc : OccursAt ss cs k)
    (hlast : ∀ i, k < i → i + ss.length ≤ pos + 1 → ¬ OccursAt ss cs i) :
    u.findLast (utf8 ss ++ 0 :: rest) pos =
      (k, comparedAt ss cs 0 (pos + 1 - ss.length + 1)) := by
  have hsize := List.length_pos_of_ne_nil hne
  rw [findLast_eq h hne hnul hpos, if_neg (by omega), h.bytes]
  exact findLastLoop_hit hnul hocc (Nat.zero_le k) (by omega) (by omega) (fun _ => rfl)
    fun j hj hlt => hlast j hj (by omega)

/-- What is found, and the comparisons whether it is found or not. -/
theorem findLast_spec (h : Text u cs) (hsize : u.sizeAllocated ≤ npos) (hne : ss ≠ [])
    (hnul : '\x00' ∉ ss) (hpos : pos ≤ cs.length) :
    FindsLast ss cs pos (u.findLast (utf8 ss ++ 0 :: rest) pos).1 ∧
      (ss.length ≤ pos + 1 → (u.findLast (utf8 ss ++ 0 :: rest) pos).2 =
        comparedAt ss cs 0 (pos + 1 - ss.length + 1)) := by
  by_cases hlong : ss.length ≤ pos + 1
  · by_cases hex : ∃ i, i + ss.length ≤ pos + 1 ∧ OccursAt ss cs i
    · obtain ⟨i, hi, hocci⟩ := hex
      have hocc : OccursAt ss cs (Nat.findGreatest (OccursAt ss cs) (pos + 1 - ss.length)) :=
        Nat.findGreatest_spec (P := OccursAt ss cs) (show i ≤ pos + 1 - ss.length by omega) hocci
      have hle : Nat.findGreatest (OccursAt ss cs) (pos + 1 - ss.length) ≤ pos + 1 - ss.length :=
        Nat.findGreatest_le _
      have hgreatest : ∀ j, j + ss.length ≤ pos + 1 → OccursAt ss cs j →
          j ≤ Nat.findGreatest (OccursAt ss cs) (pos + 1 - ss.length) :=
        fun j hj hoccj => Nat.le_findGreatest (by omega) hoccj
      rw [findLast_hit h hne hnul hpos (by omega) hocc
        fun j hj hlt hoccj => absurd (hgreatest j hlt hoccj) (by omega)]
      have hlt := occurs_lt hne hocc
      have hlength := length_lt_npos h hsize
      exact ⟨.inl ⟨⟨⟨by omega, hocc⟩, fun j hj => hgreatest j hj.1 hj.2⟩, by omega⟩, fun _ => rfl⟩
    · have hmiss : ∀ i, i + ss.length ≤ pos + 1 → ¬ OccursAt ss cs i :=
        fun i hi hocc => hex ⟨i, hi, hocc⟩
      rw [findLast_miss h hne hnul hpos hlong hmiss]
      exact ⟨.inr ⟨hmiss, rfl⟩, fun _ => rfl⟩
  · rw [findLast_eq h hne hnul hpos, if_pos (by omega)]
    exact ⟨.inr ⟨fun i hi => by omega, rfl⟩, fun h => absurd h hlong⟩

theorem findLast_inside_iff (h : Text u cs) (hsize : u.sizeAllocated ≤ npos) (hne : ss ≠ [])
    (hnul : '\x00' ∉ ss) (hpos : pos ≤ cs.length) :
    Inside u (u.findLast (utf8 ss ++ 0 :: rest) pos).2 ↔
      (ss.length ≤ pos + 1 →
        offset cs (pos + 1 - ss.length) + (utf8 ss).length ≤ u.sizeAllocated) := by
  by_cases hlong : ss.length ≤ pos + 1
  · rw [(findLast_spec h hsize hne hnul hpos).2 hlong, inside_comparedAt, Nat.zero_add,
      forall_prop_of_true hlong]
  · rw [findLast_eq h hne hnul hpos, if_pos (by omega)]
    exact iff_of_true (fun a ha => nomatch ha) fun h => absurd h hlong

/-! ## Both -/

/-- Both searches find what is there, and compare no bytes but those of the buffer. -/
structure Searches (u : UTF8) (cs ss : List Char) (s : List UInt8) (pos : Nat) : Prop where
  first : FindsFirst ss cs pos (u.find s pos).1
  firstInside : Inside u (u.find s pos).2
  last : FindsLast ss cs pos (u.findLast s pos).1
  lastInside : Inside u (u.findLast s pos).2

/-- The text from `pos` on is not the pattern itself, and where the forward search comes to the
last character, and where the backward one begins to compare for the last time, the buffer has
as many bytes left as the pattern. -/
structure Searchable (u : UTF8) (cs ss : List Char) (pos : Nat) : Prop where
  notRest : cs.drop pos ≠ ss
  first : pos + ss.length < cs.length → (∀ i, pos ≤ i → ¬ OccursAt ss cs i) →
    offset cs (cs.length - 1) + (utf8 ss).length ≤ u.sizeAllocated
  last : ss.length ≤ pos + 1 →
    offset cs (pos + 1 - ss.length) + (utf8 ss).length ≤ u.sizeAllocated

theorem searches_iff (h : Text u cs) (hsize : u.sizeAllocated ≤ npos) (hne : ss ≠ [])
    (hnul : '\x00' ∉ ss) (hpos : pos ≤ cs.length) :
    Searches u cs ss (utf8 ss ++ 0 :: rest) pos ↔ Searchable u cs ss pos := by
  constructor
  · rintro ⟨hfirst, hfirstInside, _, hlastInside⟩
    exact ⟨(find_first_iff h hsize hne hnul hpos).mp hfirst,
      (find_inside_iff h hne hnul hpos).mp hfirstInside,
      (findLast_inside_iff h hsize hne hnul hpos).mp hlastInside⟩
  · rintro ⟨hrest, hfirst, hlast⟩
    exact ⟨(find_first_iff h hsize hne hnul hpos).mpr hrest,
      (find_inside_iff h hne hnul hpos).mpr hfirst,
      (findLast_spec h hsize hne hnul hpos).1,
      (findLast_inside_iff h hsize hne hnul hpos).mpr hlast⟩

/-- Four letters in their buffer. -/
def letters : UTF8 := UTF8.ofBytes 0 (utf8 ['a', 'b', 'c', 'b'])

theorem letters_text : Text letters ['a', 'b', 'c', 'b'] :=
  (UTF8.ofBytes_sound (by decide)).text

theorem second_letter_found :
    Searches letters ['a', 'b', 'c', 'b'] ['b'] (utf8 ['b'] ++ 0 :: []) 1 :=
  (searches_iff letters_text (by decide) (by decide) (by decide) (by decide)).mpr
    { notRest := by decide
      first := fun _ hmiss => absurd (by decide) (hmiss 1 le_rfl)
      last := fun _ => by decide }

/-- The last two letters are there, and the search from the start of them does not look. -/
theorem last_letters_missed :
    (letters.find (utf8 ['c', 'b'] ++ [0]) 2).1 = npos ∧
      OccursAt ['c', 'b'] ['a', 'b', 'c', 'b'] 2 ∧
      ¬ Searches letters ['a', 'b', 'c', 'b'] ['c', 'b'] (utf8 ['c', 'b'] ++ [0]) 2 := by
  have hnone : (letters.find (utf8 ['c', 'b'] ++ [0]) 2).1 = npos := by decide
  refine ⟨hnone, by decide, fun hsearches => ?_⟩
  rcases hsearches.first with ⟨_, hnpos⟩ | ⟨hmiss, _⟩
  · exact hnpos hnone
  · exact hmiss 2 le_rfl (by decide)

end MuditaOS.Unicode
