import MuditaOS.Proofs.Utf8Char
import MuditaOS.Unicode.Utf8String

/-!
# What each string operation keeps

The invariant has two halves. `Text` is about the buffer and the three sizes:
the text in standard UTF-8, then zeros to the end of the buffer, which an
insertion at the end relies on for its terminator. `Cached` is about the mutable
pair that `operator[]` leaves behind. Every operation that allocates goes through
`setData` and starts the pair anew, except `removeChar` and the move assignment;
an insertion without a new buffer leaves the pair where it is, which is right
only if the text in front of it keeps its length.
-/

namespace MuditaOS.Unicode

/-! ## Texts and offsets -/

/-- Where the `i`-th code point starts. -/
def offset (cs : List Char) (i : Nat) : Nat := (utf8 (cs.take i)).length

@[simp] theorem offset_zero {cs : List Char} : offset cs 0 = 0 := rfl

theorem utf8_split (cs : List Char) (i : Nat) :
    utf8 cs = utf8 (cs.take i) ++ utf8 (cs.drop i) := by
  rw [← utf8_append, List.take_append_drop]

theorem drop_offset (cs : List Char) (rest : List UInt8) (i : Nat) :
    (utf8 cs ++ rest).drop (offset cs i) = utf8 (cs.drop i) ++ rest := by
  rw [utf8_split cs i, List.append_assoc, offset, List.drop_left]

theorem take_offset (cs : List Char) (rest : List UInt8) (i : Nat) :
    (utf8 cs ++ rest).take (offset cs i) = utf8 (cs.take i) := by
  rw [utf8_split cs i, List.append_assoc, offset, List.take_left]

theorem offset_length (cs : List Char) : offset cs cs.length = (utf8 cs).length := by
  rw [offset, List.take_length]

theorem offset_add (cs : List Char) (i k : Nat) :
    offset cs (i + k) = offset cs i + offset (cs.drop i) k := by
  rw [offset, List.take_add, utf8_append, List.length_append]
  rfl

theorem offset_le (cs : List Char) (i : Nat) :
    offset cs i ≤ (utf8 cs).length := by
  rw [offset, utf8_split cs i, List.length_append]
  omega

theorem length_char_pos (c : Char) : 0 < (String.utf8EncodeChar c).length :=
  (form_utf8EncodeChar c).length_pos

theorem length_char_le (c : Char) : (String.utf8EncodeChar c).length ≤ 4 :=
  (form_utf8EncodeChar c).length_le

theorem walk_text {rest : List UInt8} : ∀ {count : Nat} {cs : List Char} {i : Nat},
    i + count ≤ cs.length →
    UTF8.walk (utf8 cs ++ rest) (offset cs i) count = offset cs (i + count) := by
  intro count
  induction count with
  | zero => intro cs i _; rfl
  | succ count ih =>
      intro cs i h
      obtain ⟨c, ds, hdrop⟩ : ∃ c ds, cs.drop i = c :: ds :=
        List.exists_cons_of_ne_nil fun hnil => by
          rw [List.drop_eq_nil_iff] at hnil
          omega
      have hone : offset cs (i + 1) =
          offset cs i + (String.utf8EncodeChar c).length := by
        rw [offset_add, hdrop]
        simp [offset]
      rw [UTF8.walk, drop_offset, hdrop, utf8_cons, List.append_assoc,
        charLength_char, ← hone, ih (by omega)]
      congr 1
      omega

theorem walk_from_start {rest : List UInt8} {cs : List Char} {count : Nat}
    (h : count ≤ cs.length) :
    UTF8.walk (utf8 cs ++ rest) 0 count = offset cs count := by
  have := @walk_text rest count cs 0 (by omega)
  rwa [offset_zero, Nat.zero_add] at this

theorem utf8_ne_zero {cs : List Char} (hnul : '\x00' ∉ cs) :
    ∀ x ∈ utf8 cs, x ≠ 0 := by
  intro x hx
  obtain ⟨c, hc, hxc⟩ := List.mem_flatMap.1 hx
  refine (form_utf8EncodeChar c).ne_zero (fun hv => hnul ?_) x hxc
  have hc0 : c = '\x00' := Char.ext (UInt32.toNat_inj.1 hv)
  rwa [← hc0]

/-- A C string is cut at its terminator. -/
theorem takeWhile_text {cs : List Char} {rest : List UInt8} (hnul : '\x00' ∉ cs) :
    (utf8 cs ++ 0 :: rest).takeWhile (· ≠ 0) = utf8 cs := by
  rw [List.takeWhile_append_of_pos]
  · simp
  · intro x hx
    simpa using utf8_ne_zero hnul x hx

theorem getStreamLength_text {rest : List UInt8} : ∀ {cs : List Char} {fuel : Nat},
    '\x00' ∉ cs → cs.length < fuel →
    getStreamLength fuel (utf8 cs ++ 0 :: rest) =
      some ((utf8 cs).length, cs.length) := by
  intro cs
  induction cs with
  | nil =>
      intro fuel _ hfuel
      obtain ⟨fuel, rfl⟩ : ∃ n, fuel = n + 1 := ⟨fuel - 1, by simp at hfuel; omega⟩
      rfl
  | cons c cs ih =>
      intro fuel hnul hfuel
      rw [List.length_cons] at hfuel
      obtain ⟨fuel, rfl⟩ : ∃ n, fuel = n + 1 := ⟨fuel - 1, by omega⟩
      have hpos := length_char_pos c
      have hbyte : byteAt (utf8 (c :: cs) ++ 0 :: rest) 0 ≠ 0 := by
        have hne := utf8_ne_zero hnul
        rw [utf8_cons] at hne ⊢
        cases hb : String.utf8EncodeChar c with
        | nil => rw [hb] at hpos; exact absurd hpos (Nat.lt_irrefl 0)
        | cons b bs => exact hne b (by rw [hb]; simp)
      rw [getStreamLength, if_neg hbyte, utf8_cons, List.append_assoc,
        charLength_char]
      simp only []
      rw [if_pos hpos, List.drop_left,
        ih (fun h => hnul (List.mem_cons_of_mem c h)) (by omega)]
      simp [Nat.add_comm]

/-! ## Buffers -/

@[simp] theorem length_zeroed {n : Nat} : (zeroed n).length = n :=
  List.length_replicate

theorem zeroed_succ {n : Nat} : zeroed (n + 1) = 0 :: zeroed n := rfl

theorem memcpy_zeroed {n : Nat} {s : List UInt8} :
    memcpy (zeroed n) 0 s = s ++ zeroed (n - s.length) := by
  simp [memcpy, zeroed]

theorem memcpy_behind {s t : List UInt8} {n : Nat} :
    memcpy (s ++ zeroed n) s.length t = s ++ t ++ zeroed (n - t.length) := by
  rw [memcpy, List.take_left, ← List.drop_drop, List.drop_left]
  simp [zeroed]

theorem lt_getDataBufferSize (n : Nat) : n < getDataBufferSize n := by
  rw [getDataBufferSize, stringExpansion]
  omega

/-! ## The invariant -/

/-- The buffer and the sizes. -/
structure Text (u : UTF8) (cs : List Char) : Prop where
  live : u.data.isSome = true
  bytes : u.bytes = utf8 cs ++ zeroed (u.sizeAllocated - (utf8 cs).length)
  room : (utf8 cs).length < u.sizeAllocated
  sizeUsed : u.sizeUsed = (utf8 cs).length + 1
  strLength : u.strLength = cs.length

/-- The pair points to the start of a code point of the buffer, or of its end. -/
structure Cached (u : UTF8) (cs : List Char) : Prop where
  inside : u.lastIndex ≤ cs.length
  pointer : u.lastIndexData = ⟨u.addr, offset cs u.lastIndex⟩

structure Sound (u : UTF8) (cs : List Char) : Prop where
  text : Text u cs
  cached : Cached u cs

/-- The bytes in use, terminator included. -/
theorem Text.used {u : UTF8} {cs : List Char} (h : Text u cs) :
    u.bytes.take u.sizeUsed = utf8 cs ++ [0] := by
  have hroom := h.room
  obtain ⟨k, hk⟩ : ∃ k, u.sizeAllocated - (utf8 cs).length = k + 1 :=
    ⟨u.sizeAllocated - (utf8 cs).length - 1, by omega⟩
  rw [h.bytes, h.sizeUsed, hk, zeroed_succ, List.append_cons,
    List.take_left' (by simp)]

theorem sound_setData {u : UTF8} {addr : Nat} {bytes : List UInt8}
    {cs : List Char}
    (hbytes : bytes = utf8 cs ++ zeroed (u.sizeAllocated - (utf8 cs).length))
    (hroom : (utf8 cs).length < u.sizeAllocated)
    (hused : u.sizeUsed = (utf8 cs).length + 1)
    (hlen : u.strLength = cs.length) : Sound (u.setData addr bytes) cs :=
  ⟨⟨rfl, hbytes, hroom, hused, hlen⟩, ⟨Nat.zero_le _, rfl⟩⟩

/-- As many code points as bytes at most. -/
theorem length_le_utf8 : ∀ {cs : List Char}, cs.length ≤ (utf8 cs).length := by
  intro cs
  induction cs with
  | nil => exact Nat.le_refl 0
  | cons c cs ih =>
      have := length_char_pos c
      rw [utf8_cons, List.length_append, List.length_cons]
      omega

namespace UTF8

theorem empty_sound {addr : Nat} : Sound (empty addr) [] :=
  ⟨⟨rfl, rfl, Nat.succ_pos 31, rfl, rfl⟩, ⟨Nat.zero_le _, rfl⟩⟩

theorem clear_sound {addr : Nat} {u : UTF8} : Sound (clear addr u) [] :=
  sound_setData rfl (Nat.succ_pos 31) rfl rfl

theorem ofBytes_eq {addr : Nat} {str : List UInt8} :
    ofBytes addr str = setData
      { data := none
        sizeAllocated := getDataBufferSize (str.length + 1)
        sizeUsed := str.length + 1
        strLength := getCharactersCount
          (memcpy (zeroed (getDataBufferSize (str.length + 1))) 0 (str ++ [0]))
        lastIndex := 0
        lastIndexData := ⟨0, 0⟩ } addr
      (memcpy (zeroed (getDataBufferSize (str.length + 1))) 0 (str ++ [0])) := rfl

/-- A text with its terminator, copied to a larger buffer. -/
theorem memcpy_terminated {s : List UInt8} {n : Nat} (h : s.length < n) :
    memcpy (zeroed n) 0 (s ++ [0]) = s ++ zeroed (n - s.length) := by
  obtain ⟨k, rfl⟩ : ∃ k, n = s.length + 1 + k :=
    ⟨n - (s.length + 1), by omega⟩
  rw [memcpy_zeroed, List.append_assoc,
    show s.length + 1 + k - s.length = k + 1 by omega, zeroed_succ]
  simp

theorem memcpy_terminated_behind {s t : List UInt8} {n : Nat}
    (h : t.length < n) :
    memcpy (s ++ zeroed n) s.length (t ++ [0]) =
      s ++ t ++ zeroed (n - t.length) := by
  obtain ⟨k, rfl⟩ : ∃ k, n = t.length + 1 + k := ⟨n - (t.length + 1), by omega⟩
  rw [memcpy_behind, show t.length + 1 + k - t.length = k + 1 by omega,
    zeroed_succ]
  simp

theorem ofBytes_sound {addr : Nat} {cs : List Char} (hnul : '\x00' ∉ cs) :
    Sound (ofBytes addr (utf8 cs)) cs := by
  have hsize := lt_getDataBufferSize ((utf8 cs).length + 1)
  have hbytes := @memcpy_terminated (utf8 cs)
    (getDataBufferSize ((utf8 cs).length + 1)) (by omega)
  rw [ofBytes_eq, hbytes]
  refine sound_setData rfl (by simp only []; omega) rfl ?_
  obtain ⟨k, hk⟩ : ∃ k, getDataBufferSize ((utf8 cs).length + 1) -
      (utf8 cs).length = k + 1 :=
    ⟨getDataBufferSize ((utf8 cs).length + 1) - (utf8 cs).length - 1, by omega⟩
  have hfuel := @length_le_utf8 cs
  simp only []
  rw [getCharactersCount, hk, zeroed_succ, getStreamLength_text hnul (by simp; omega)]

theorem ofCString_sound {addr : Nat} {cs : List Char} {rest : List UInt8}
    (hnul : '\x00' ∉ cs) : Sound (ofCString addr (utf8 cs ++ 0 :: rest)) cs := by
  rw [ofCString, takeWhile_text hnul]
  exact ofBytes_sound hnul

/-! ## Copies and moves -/

/-- The buffer of a text, copied whole. -/
theorem memcpy_text {u : UTF8} {cs : List Char} (h : Text u cs) :
    memcpy (zeroed u.sizeAllocated) 0 (u.bytes.take u.sizeAllocated) =
      utf8 cs ++ zeroed (u.sizeAllocated - (utf8 cs).length) := by
  have hlen : u.bytes.length = u.sizeAllocated := by
    have := h.room
    rw [h.bytes, List.length_append, length_zeroed]
    omega
  rw [List.take_of_length_le (Nat.le_of_eq hlen), memcpy_zeroed, hlen,
    Nat.sub_self, h.bytes]
  simp [zeroed]

theorem copy_sound {addr : Nat} {u : UTF8} {cs : List Char} (h : Text u cs) :
    Sound (copy addr u) cs := by
  rw [copy]
  split
  · rw [memcpy_text h]
    exact @sound_setData u addr _ cs rfl h.room h.sizeUsed h.strLength
  · next hzero =>
      have hnil : cs = [] := List.length_eq_zero_iff.1 (by
        rw [← h.strLength]
        exact Decidable.not_not.1 hzero)
      subst hnil
      exact ⟨⟨rfl, rfl, Nat.succ_pos 31, rfl, h.strLength⟩, ⟨Nat.zero_le _, rfl⟩⟩

theorem move_sound {u : UTF8} {cs : List Char} (h : Text u cs) :
    Sound (move u) cs :=
  ⟨⟨h.live, h.bytes, h.room, h.sizeUsed, h.strLength⟩, ⟨Nat.zero_le _, rfl⟩⟩

theorem copyAssign_sound {addr : Nat} {u utf : UTF8} {cs : List Char}
    (h : Text utf cs) : Sound (copyAssign addr u utf) cs := by
  rw [copyAssign]
  simp only []
  rw [memcpy_text h]
  exact sound_setData rfl h.room h.sizeUsed h.strLength

/-- A move assignment brings the text over, not the pair. -/
theorem moveAssign_text {u utf : UTF8} {cs : List Char} (h : Text utf cs) :
    Text (moveAssign u utf) cs :=
  ⟨h.live, h.bytes, h.room, h.sizeUsed, h.strLength⟩

theorem moveAssign_sound {u utf : UTF8} {cs : List Char} (h : Text utf cs)
    (hinside : u.lastIndex ≤ cs.length)
    (hpointer : u.lastIndexData = ⟨utf.addr, offset cs u.lastIndex⟩) :
    Sound (moveAssign u utf) cs :=
  ⟨moveAssign_text h, ⟨hinside, hpointer⟩⟩

theorem append_sound {addr : Nat} {u utf : UTF8} {cs ds : List Char}
    (h : Sound u cs) (h' : Text utf ds) :
    Sound (append addr u utf) (cs ++ ds) := by
  rw [append]
  split
  · next hzero =>
      have hnil : ds = [] := List.length_eq_zero_iff.1 (by
        rw [← h'.strLength]
        exact hzero)
      rw [hnil, List.append_nil]
      exact h
  · have hsize := lt_getDataBufferSize (u.sizeUsed + utf.sizeUsed)
    have hu := h.text.sizeUsed
    have hutf := h'.sizeUsed
    have hlen : (utf8 (cs ++ ds)).length = (utf8 cs).length + (utf8 ds).length := by
      rw [utf8_append, List.length_append]
    simp only []
    rw [h.text.used, h'.used, memcpy_terminated (by omega),
      show u.sizeUsed - 1 = (utf8 cs).length by omega,
      memcpy_terminated_behind (by omega)]
    refine sound_setData ?_ ?_ ?_ ?_
    · simp only []
      rw [hlen, utf8_append, Nat.sub_sub]
    · simp only []
      omega
    · simp only []
      omega
    · simp only []
      rw [h.text.strLength, h'.strLength, List.length_append]

/-! ## Reading -/

theorem index_eq {u : UTF8} {cs : List Char} (h : Sound u cs) {i : Nat}
    (hi : i < cs.length) :
    u.index i = (cs[i].val,
      { u with lastIndex := i, lastIndexData := ⟨u.addr, offset cs i⟩ }) := by
  have hread : decode ((utf8 cs ++ zeroed (u.sizeAllocated -
      (utf8 cs).length)).drop (offset cs i)) =
        (cs[i].val, some (String.utf8EncodeChar cs[i]).length) := by
    rw [drop_offset, List.drop_eq_getElem_cons hi, utf8_cons, List.append_assoc,
      decode_char]
  have hlen := h.text.strLength
  rw [index, if_neg (by omega), h.cached.pointer]
  simp only [ne_eq, not_true, and_false, if_false]
  rw [h.text.bytes]
  by_cases hbefore : u.lastIndex < i
  · simp only [hbefore, if_true]
    rw [walk_text (by omega), show u.lastIndex + (i - u.lastIndex) = i by omega,
      hread]
  · simp only [hbefore, if_false]
    rw [walk_from_start (by omega), Nat.sub_zero, hread]

/-- A read moves the pair to what it read. -/
theorem index_sound {u : UTF8} {cs : List Char} (h : Sound u cs) (i : Nat) :
    Sound (u.index i).2 cs := by
  by_cases hi : i < cs.length
  · rw [index_eq h hi]
    exact ⟨⟨h.text.live, h.text.bytes, h.text.room, h.text.sizeUsed,
      h.text.strLength⟩, ⟨Nat.le_of_lt hi, rfl⟩⟩
  · rw [index, if_pos (by rw [h.text.strLength]; omega)]
    exact h

/-! ## Parts -/

theorem expand_sound {addr size : Nat} {u : UTF8} {cs : List Char}
    (h : Text u cs) : Sound (expand addr u size) cs := by
  have hsize := lt_getDataBufferSize (u.sizeAllocated + size)
  have hroom := h.room
  rw [expand, h.used, memcpy_terminated (by omega)]
  exact sound_setData rfl (by simp only []; omega) h.sizeUsed h.strLength

/-- Only the characters in front of the terminator matter, not what is behind. -/
theorem substr_of_bytes {addr begin length : Nat} {u : UTF8} {cs : List Char}
    {rest : List UInt8} (hbytes : u.bytes = utf8 cs ++ rest)
    (hlen : u.strLength = cs.length) (hin : begin + length ≤ cs.length)
    (hnul : '\x00' ∉ (cs.drop begin).take length) :
    Sound (substr addr u begin length) ((cs.drop begin).take length) := by
  rw [substr]
  split
  · next hcase =>
      rcases hcase with hcase | hcase
      · rw [hlen] at hcase
        omega
      · rw [hcase, List.take_zero]
        exact empty_sound
  · simp only []
    rw [hbytes, walk_from_start (by omega), walk_text hin, drop_offset,
      show offset cs (begin + length) - offset cs begin =
        offset (cs.drop begin) length by rw [offset_add]; omega, take_offset,
      memcpy_zeroed, offset, Nat.add_sub_cancel_left]
    exact ofCString_sound hnul

theorem substr_sound {addr begin length : Nat} {u : UTF8} {cs : List Char}
    (h : Text u cs) (hin : begin + length ≤ cs.length)
    (hnul : '\x00' ∉ (cs.drop begin).take length) :
    Sound (substr addr u begin length) ((cs.drop begin).take length) :=
  substr_of_bytes h.bytes h.strLength hin hnul

theorem split_sound {addr addrLeft idx : Nat} {u : UTF8} {cs : List Char}
    (h : Text u cs) (hidx : idx < cs.length) (hnul : '\x00' ∉ cs.drop idx) :
    Sound (split addr addrLeft u idx).1 (cs.drop idx) ∧
      Sound (split addr addrLeft u idx).2 (cs.take idx) := by
  have hroom := h.room
  have hsize := lt_getDataBufferSize (offset cs idx)
  rw [split, if_neg (by rw [h.strLength]; omega)]
  simp only []
  rw [h.bytes, walk_from_start (by omega), drop_offset, take_offset]
  refine ⟨?_, ?_⟩
  · obtain ⟨k, hk⟩ : ∃ k, u.sizeAllocated - (utf8 cs).length = k + 1 :=
      ⟨u.sizeAllocated - (utf8 cs).length - 1, by omega⟩
    rw [hk, zeroed_succ]
    exact ofCString_sound hnul
  · rw [memcpy_zeroed]
    exact sound_setData rfl hsize rfl (by
      rw [List.length_take, Nat.min_eq_left (Nat.le_of_lt hidx)])

/-- A removal keeps the text right, not the pair: its pointer is into the
buffer that was replaced. -/
theorem removeChar_text {addr pos count : Nat} {u : UTF8} {cs : List Char}
    (h : Text u cs) (hin : pos + count ≤ cs.length) (hcount : count ≠ 0) :
    Text (removeChar addr u pos count).2
      (cs.take pos ++ cs.drop (pos + count)) := by
  have hbegin : (utf8 (cs.take pos)).length = offset cs pos := rfl
  have hwhole : (utf8 cs).length =
      offset cs (pos + count) + (utf8 (cs.drop (pos + count))).length := by
    rw [utf8_split cs (pos + count), List.length_append]
    rfl
  have hle : offset cs pos ≤ offset cs (pos + count) := by
    rw [offset_add]
    omega
  have hused := h.sizeUsed
  have hsize := lt_getDataBufferSize
    (u.sizeUsed - (offset cs (pos + count) - offset cs pos))
  have hroom := h.room
  have htail : (utf8 (cs.drop (pos + count)) ++
      zeroed (u.sizeAllocated - (utf8 cs).length)).take
        (u.sizeUsed - (offset cs (pos + count) - offset cs pos) - offset cs pos) =
      utf8 (cs.drop (pos + count)) ++ [0] := by
    obtain ⟨k, hk⟩ : ∃ k, u.sizeAllocated - (utf8 cs).length = k + 1 :=
      ⟨u.sizeAllocated - (utf8 cs).length - 1, by omega⟩
    rw [hk, zeroed_succ, List.append_cons, List.take_left' (by
      rw [List.length_append, List.length_singleton]
      omega)]
  rw [removeChar, if_neg hcount, if_neg (by rw [h.strLength]; omega)]
  simp only []
  rw [h.bytes, walk_from_start (by omega), walk_text hin, take_offset,
    drop_offset, htail, memcpy_zeroed, hbegin]
  have hbehind := @memcpy_terminated_behind (utf8 (cs.take pos))
    (utf8 (cs.drop (pos + count)))
    (getDataBufferSize (u.sizeUsed - (offset cs (pos + count) - offset cs pos)) -
      offset cs pos) (by omega)
  rw [hbegin] at hbehind
  rw [hbehind]
  have hlen : (utf8 (cs.take pos ++ cs.drop (pos + count))).length =
      offset cs pos + (utf8 (cs.drop (pos + count))).length := by
    rw [utf8_append, List.length_append]
    rfl
  refine ⟨rfl, ?_, ?_, ?_, ?_⟩
  · simp only [bytes]
    rw [hlen, utf8_append, Nat.sub_sub]
  · simp only []
    omega
  · simp only []
    omega
  · simp only []
    rw [h.strLength, List.length_append, List.length_take, List.length_drop]
    omega

/-! ## Insertions -/

theorem insertIndex_eq {u : UTF8} {cs : List Char} (h : Text u cs) {index : Nat} :
    u.insertIndex index =
      if index ≠ npos then if index > cs.length then none else some index
      else some cs.length := by
  rw [insertIndex, h.strLength]

/-- Room made in the middle of a text by moving its end and the terminator. -/
theorem memcpy_memmove {a t e : List UInt8} {m : Nat} (hm : e.length < m) :
    memcpy (memmove (a ++ t ++ zeroed m) (a.length + e.length) a.length
      (t.length + 1)) a.length e = a ++ e ++ t ++ zeroed (m - e.length) := by
  obtain ⟨k, rfl⟩ : ∃ k, m = e.length + 1 + k := ⟨m - (e.length + 1), by omega⟩
  have hmoved : ((a ++ t ++ zeroed (e.length + 1 + k)).drop a.length).take
      (t.length + 1) = t ++ [0] := by
    rw [List.append_assoc, List.drop_left,
      show e.length + 1 + k = (e.length + k) + 1 by omega, zeroed_succ,
      List.append_cons, List.take_left' (by simp)]
  have hrest : (a ++ t ++ zeroed (e.length + 1 + k)).drop
      (a.length + e.length + (t ++ [0]).length) = zeroed k := by
    have hlen : a.length + e.length + (t ++ [0]).length =
        (a ++ t).length + (e.length + 1) := by
      simp
      omega
    rw [hlen, ← List.drop_drop, List.drop_left]
    simp [zeroed]
  -- what stands between the front and the moved end does not matter
  obtain ⟨g, hfront, hg⟩ : ∃ g, (a ++ t ++ zeroed (e.length + 1 + k)).take
      (a.length + e.length) = a ++ g ∧ g.length = e.length := by
    refine ⟨_, by rw [List.append_assoc, List.take_length_add_append], ?_⟩
    rw [List.length_take]
    simp
    omega
  have hmove : memmove (a ++ t ++ zeroed (e.length + 1 + k))
      (a.length + e.length) a.length (t.length + 1) =
        a ++ (g ++ (t ++ [0] ++ zeroed k)) := by
    rw [memmove, hmoved, memcpy, hrest, hfront]
    simp
  rw [hmove, memcpy, List.take_left, ← List.drop_drop, List.drop_left, ← hg,
    List.drop_left, hg, show e.length + 1 + k - e.length = k + 1 by omega,
    zeroed_succ]
  simp

/-- An insertion leaves the pair at the same code point, if the buffer is new,
or the pair is not behind it, or the code point in front of the pair has the
length of the new one. -/
def KeepsCached (u : UTF8) (cs : List Char) (c : Char) (k : Nat) : Prop :=
  u.sizeAllocated ≤ (String.utf8EncodeChar c).length + u.sizeUsed ∨
  u.lastIndex ≤ k ∨
  (cs[u.lastIndex - 1]?).map (fun d => (String.utf8EncodeChar d).length) =
    some (String.utf8EncodeChar c).length

instance {u : UTF8} {cs : List Char} {c : Char} {k : Nat} :
    Decidable (KeepsCached u cs c k) :=
  inferInstanceAs (Decidable (_ ∨ _ ∨ _))

/-- Where the pair has to point after an insertion. -/
theorem offset_insert {cs : List Char} {c : Char} {k i : Nat} (hk : k ≤ cs.length)
    (hi : i ≤ cs.length)
    (h : i ≤ k ∨ (cs[i - 1]?).map (fun d => (String.utf8EncodeChar d).length) =
      some (String.utf8EncodeChar c).length) :
    offset (cs.take k ++ c :: cs.drop k) i = offset cs i := by
  by_cases hik : i ≤ k
  · rw [offset, List.take_append_of_le_length (by
      rw [List.length_take]; omega), List.take_take, Nat.min_eq_left hik]
    rfl
  · obtain ⟨j, rfl⟩ : ∃ j, i = k + 1 + j := ⟨i - (k + 1), by omega⟩
    have hd := h.resolve_left hik
    rw [show k + 1 + j - 1 = k + j by omega] at hd
    have hlast : offset cs (k + 1 + j) =
        offset cs (k + j) + (String.utf8EncodeChar c).length := by
      obtain ⟨d, hget, hlen⟩ := Option.map_eq_some_iff.1 hd
      rw [show k + 1 + j = (k + j) + 1 by omega, offset_add, ← hlen]
      have hdrop : cs.drop (k + j) = d :: cs.drop (k + j + 1) := by
        obtain ⟨hlt, hval⟩ := List.getElem?_eq_some_iff.1 hget
        rw [List.drop_eq_getElem_cons hlt, hval]
      rw [hdrop]
      simp [offset]
    have hfront : offset (cs.take k ++ c :: cs.drop k) (k + 1 + j) =
        offset cs k + (String.utf8EncodeChar c).length +
          offset (cs.drop k) j := by
      have hlen : (cs.take k).length = k := by
        rw [List.length_take]; omega
      rw [offset, show k + 1 + j = (cs.take k).length + (j + 1) by omega,
        List.take_length_add_append, List.take_succ_cons]
      simp [offset]
      omega
    rw [hfront, hlast, offset_add]
    omega

/-- The buffer an insertion writes to, new or not. -/
theorem insert_buffer {addr n : Nat} {u : UTF8} {cs : List Char} (h : Text u cs)
    (hn : n ≤ 4) :
    let v := if n + u.sizeUsed ≥ u.sizeAllocated then
      u.expand addr stringExpansion else u
    Text v cs ∧ (utf8 cs).length + n < v.sizeAllocated := by
  have hused := h.sizeUsed
  have hroom := h.room
  by_cases hfull : n + u.sizeUsed ≥ u.sizeAllocated
  · have hsize := lt_getDataBufferSize (u.sizeAllocated + stringExpansion)
    simp only [hfull, if_true]
    refine ⟨(expand_sound h).text, ?_⟩
    rw [show (u.expand addr stringExpansion).sizeAllocated =
      getDataBufferSize (u.sizeAllocated + stringExpansion) from rfl]
    rw [stringExpansion] at hsize
    rw [stringExpansion]
    omega
  · simp only [hfull, if_false]
    exact ⟨h, by omega⟩

/-- Writing a code point into a buffer with room for it. -/
theorem insert_bytes {u : UTF8} {cs : List Char} {c : Char} {k : Nat}
    {e : List UInt8} (he : e = String.utf8EncodeChar c) (h : Text u cs)
    (hroom : (utf8 cs).length + e.length < u.sizeAllocated) :
    memcpy (if k ≠ u.strLength then
        memmove u.bytes (offset cs k + e.length) (offset cs k)
          (u.sizeUsed - offset cs k) else u.bytes) (offset cs k) e =
      utf8 (cs.take k ++ c :: cs.drop k) ++
        zeroed (u.sizeAllocated - (utf8 (cs.take k ++ c :: cs.drop k)).length) := by
  have hsplit := utf8_split cs k
  have hlen : (utf8 cs).length = offset cs k + (utf8 (cs.drop k)).length := by
    rw [hsplit, List.length_append]
    rfl
  have hnew : utf8 (cs.take k ++ c :: cs.drop k) =
      utf8 (cs.take k) ++ e ++ utf8 (cs.drop k) := by
    rw [he, utf8_append, utf8_cons, List.append_assoc]
  have hnewLen : (utf8 (cs.take k ++ c :: cs.drop k)).length =
      (utf8 cs).length + e.length := by
    rw [hnew, List.length_append, List.length_append, hlen, offset]
    omega
  rw [hnewLen, hnew, ← Nat.sub_sub]
  by_cases hend : k = u.strLength
  · -- at the end there is nothing to move
    rw [if_neg (not_not.2 hend)]
    have hlast : k = cs.length := by rw [hend, h.strLength]
    rw [h.bytes, hlast, offset_length, memcpy_behind, List.drop_length,
      List.take_length, utf8_nil, List.append_nil]
  · rw [if_pos hend, h.sizeUsed, show (utf8 cs).length + 1 - offset cs k =
      (utf8 (cs.drop k)).length + 1 by omega, h.bytes]
    have hm : e.length < u.sizeAllocated - (utf8 cs).length := by omega
    generalize u.sizeAllocated - (utf8 cs).length = m at hm ⊢
    rw [hsplit]
    exact memcpy_memmove hm

theorem insert_sound {addr : Nat} {u : UTF8} {cs : List Char} {c : Char}
    {tail : List UInt8} {index k : Nat} (h : Sound u cs)
    (hindex : u.insertIndex index = some k) (hk : k ≤ cs.length)
    (hkeep : KeepsCached u cs c k) :
    Sound (insert addr u (String.utf8EncodeChar c ++ tail) index).2
      (cs.take k ++ c :: cs.drop k) := by
  have hpos := length_char_pos c
  obtain ⟨htext, hroom⟩ := @insert_buffer addr _ u cs h.text (length_char_le c)
  rw [insert, hindex]
  simp only [charLength_char]
  rw [if_neg (by omega), List.take_left]
  generalize hv : (if (String.utf8EncodeChar c).length + u.sizeUsed ≥
    u.sizeAllocated then u.expand addr stringExpansion else u) = v at htext hroom ⊢
  have hwalk : walk v.bytes 0 k = offset cs k := by
    rw [htext.bytes]
    exact walk_from_start hk
  have hle := offset_le cs k
  rw [hwalk, if_neg (by rw [htext.sizeUsed]; omega),
    insert_bytes rfl htext hroom]
  have hlen : (utf8 (cs.take k ++ c :: cs.drop k)).length =
      (utf8 cs).length + (String.utf8EncodeChar c).length := by
    conv_rhs => rw [utf8_split cs k]
    simp only [utf8_append, utf8_cons, List.length_append]
    omega
  have hcached : v.lastIndex ≤ cs.length ∧ v.lastIndexData =
      ⟨v.addr, offset (cs.take k ++ c :: cs.drop k) v.lastIndex⟩ := by
    by_cases hfull : (String.utf8EncodeChar c).length + u.sizeUsed ≥ u.sizeAllocated
    · rw [if_pos hfull] at hv
      rw [← hv]
      exact ⟨Nat.zero_le _, rfl⟩
    · rw [if_neg hfull] at hv
      rw [← hv, offset_insert hk h.cached.inside
        (hkeep.resolve_left (by omega))]
      exact ⟨h.cached.inside, h.cached.pointer⟩
  refine ⟨⟨rfl, rfl, ?_, ?_, ?_⟩, ⟨?_, hcached.2⟩⟩
  · simp only [hlen]
    omega
  · simp only [hlen, htext.sizeUsed]
    omega
  · simp only [htext.strLength, List.length_append, List.length_cons,
      List.length_take, List.length_drop]
    omega
  · simp only [List.length_append, List.length_cons, List.length_take,
      List.length_drop]
    have := hcached.1
    omega

theorem memcpy_nil {mem : List UInt8} {off : Nat} : memcpy mem off [] = mem := by
  simp [memcpy]

theorem memmove_self {mem : List UInt8} {off size : Nat} :
    memmove mem off off size = mem := by
  rw [memmove, memcpy, ← List.drop_drop, List.append_assoc, List.length_take]
  rcases Nat.le_total size (mem.drop off).length with h | h
  · rw [Nat.min_eq_left h, List.take_append_drop, List.take_append_drop]
  · rw [Nat.min_eq_right h, List.drop_length, List.append_nil,
      List.take_of_length_le h, List.take_append_drop]

/-- Inserting the empty string only reallocates. -/
theorem insertString_sound {addr index : Nat} {u str : UTF8} {cs : List Char}
    (h : Sound u cs) (hstr : Text str []) :
    Sound (insertString addr u str index).2 cs := by
  rw [insertString]
  split
  · exact h
  · next k _ =>
      simp only [hstr.sizeUsed, utf8_nil, List.length_nil, Nat.zero_add,
        Nat.add_sub_cancel, Nat.sub_self, List.take_zero, memmove_self,
        memcpy_nil]
      exact @expand_sound addr (getDataBufferSize u.sizeUsed) u cs h.text

end UTF8

end MuditaOS.Unicode
