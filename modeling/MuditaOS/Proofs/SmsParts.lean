import Mathlib.Data.List.TakeWhile
import MuditaOS.Cellular.SmsPartsHandler
import MuditaOS.Lib.Packing
import MuditaOS.Proofs.Ucs2RoundTrip

/-!
# How a long message is split

The handler counts its parts in bytes, moves its cursor in characters and limits
a part in hexadecimal digits. Each part is the longest front of what is left
that fits, so the parts are the greedy cut of the text, and no cut has fewer.
Their number is what the handler announced only if the bytes of the text,
counted in parts, happen to give it.

The text that is cut ends at the first zero character, and a part reads back as
what was in it only where the encoder writes the standard surrogates.
-/

namespace MuditaOS.Sms

open MuditaOS.Lib MuditaOS.Unicode

/-! ## What a part says -/

/-- The 16-bit units of a hexadecimal form, four digits each. -/
def hexUnits : List UInt8 → Option (List Nat)
  | [] => some []
  | a :: b :: c :: d :: rest =>
      match digit 16 a, digit 16 b, digit 16 c, digit 16 d, hexUnits rest with
      | some a, some b, some c, some d, some units =>
          some ((((a * 16 + b) * 16 + c) * 16 + d) :: units)
      | _, _, _, _, _ => none
  | _ => none

/-- The characters of UTF-16 units; a surrogate without its other half has no
reading. -/
def utf16Chars : List Nat → Option (List Char)
  | [] => some []
  | a :: ns =>
      if a < 0xD800 ∨ 0xE000 ≤ a then (utf16Chars ns).map (Char.ofNat a :: ·)
      else
        match ns with
        | [] => none
        | b :: ns =>
            if a < 0xDC00 ∧ 0xDC00 ≤ b ∧ b < 0xE000 then
              (utf16Chars ns).map
                (Char.ofNat (0x10000 + (a - 0xD800) * 0x400 + (b - 0xDC00)) :: ·)
            else none

/-- What the receiver of a part reads. -/
def readPart (part : List UInt8) : Option (List Char) :=
  (hexUnits part).bind utf16Chars

/-- The parts written by `onSendSMS`, as the handler was asked for them. -/
def SMSPartsHandler.allParts (alloc : Nat → Nat → Nat) (h : SMSPartsHandler) :
    List (List UInt8) := (h.nextParts alloc h.getPartsCount).1

/-- The parts that are not empty, of as many as one asks for. -/
def SMSPartsHandler.sentParts (alloc : Nat → Nat → Nat) (h : SMSPartsHandler)
    (count : Nat) : List (List UInt8) :=
  (h.nextParts alloc count).1.filter (· ≠ [])

/-- The message is split exactly. -/
structure SplitExactly (alloc : Nat → Nat → Nat) (h : SMSPartsHandler)
    (message : List Char) : Prop where
  ne_nil : ∀ part ∈ h.allParts alloc, part ≠ []
  fits : ∀ part ∈ h.allParts alloc, part.length ≤ 4 * 67
  /-- No part cuts a pair, and together they say the message. -/
  reads : ∃ texts : List (List Char),
    (h.allParts alloc).map readPart = texts.map some ∧ texts.flatten = message
  exhausted :
    ((h.nextParts alloc h.getPartsCount).2.getNextSmsPart alloc).1 = []
  single : ∀ count, h.getPartsCount ≤ count →
    (h.isSinglePartSMS = true ↔ (h.sentParts alloc count).length = 1)
  aboveLimit : ∀ count, h.getPartsCount ≤ count →
    (h.isPartsCountAboveLimit = true ↔ 7 < (h.sentParts alloc count).length)

/-! ## Characters and units -/

/-- The units of a character. -/
def units (c : Char) : Nat := if c.val.toNat < 0x10000 then 1 else 2

theorem units_pos {c : Char} : 0 < units c := by
  rw [units]
  split
  · exact Nat.one_pos
  · exact Nat.two_pos

theorem units_le {c : Char} : units c ≤ 2 := by
  rw [units]
  split
  · exact Nat.le_succ 1
  · exact Nat.le_refl 2

theorem length_chunks {c : Char} : (UCS2.chunks c).length = units c := by
  rw [UCS2.chunks, units]
  split
  · rfl
  · rfl

/-- The hexadecimal form of a text. -/
def hexOf (cs : List Char) : List UInt8 := UCS2.hexText (cs.flatMap UCS2.chunks)

theorem hexOf_cons {c : Char} {cs : List Char} :
    hexOf (c :: cs) = UCS2.hexText (UCS2.chunks c) ++ hexOf cs := by
  rw [hexOf, List.flatMap_cons, UCS2.hexText_append]
  rfl

theorem length_hexOf : ∀ {cs : List Char},
    (hexOf cs).length = 4 * weight units cs := by
  intro cs
  induction cs with
  | nil => rfl
  | cons c cs ih =>
      rw [hexOf_cons, List.length_append, UCS2.length_hexText, length_chunks, ih,
        weight_cons]
      omega

theorem hexOf_ne_nil {cs : List Char} (h : cs ≠ []) : hexOf cs ≠ [] := by
  rcases cs with _ | ⟨c, cs⟩
  · exact absurd rfl h
  · have := @units_pos c
    refine List.ne_nil_of_length_pos ?_
    rw [length_hexOf, weight_cons]
    omega

theorem hexUnits_hexText : ∀ {ns : List Nat}, (∀ n ∈ ns, n < 65536) →
    hexUnits (UCS2.hexText ns) = some ns := by
  intro ns
  induction ns with
  | nil => intro _; simp [UCS2.hexText, hexUnits]
  | cons n ns ih =>
      intro hlt
      have hdigit := UCS2.writes_hexDigit.digit
      have h16 : 16 > 0 := by omega
      have hn := hlt n List.mem_cons_self
      rw [UCS2.hexText_cons, UCS2.hex4, UCS2.nibbles]
      simp only [List.map_cons, List.map_nil, List.cons_append, List.nil_append,
        hexUnits]
      rw [hdigit _ (Nat.mod_lt _ h16), hdigit _ (Nat.mod_lt _ h16),
        hdigit _ (Nat.mod_lt _ h16), hdigit _ (Nat.mod_lt _ h16),
        ih fun m hm => hlt m (List.mem_cons_of_mem n hm)]
      exact congrArg (fun v => some (v :: ns)) (by omega)

/-- The character that a reader of the units of `c` sees. -/
def readChar (c : Char) : Char :=
  if c.val.toNat < 0x10000 then c
  else UCS2.pairChar (UCS2.highSurrogate c.val.toNat)
    (UCS2.lowSurrogate c.val.toNat)

theorem readChar_eq_iff {c : Char} : readChar c = c ↔ UCS2.Plain c := by
  rw [readChar, UCS2.Plain]
  split
  · next hbase => exact ⟨fun _ => .inl hbase, fun _ => rfl⟩
  · next hpair =>
      rw [UCS2.char_eq_iff, UCS2.pairChar_val, eq_comm,
        UCS2.code_of_pair (by omega), or_iff_right hpair]

theorem utf16Chars_scalar {a : Nat} {ns : List Nat} (h : a < 0xD800 ∨ 0xE000 ≤ a) :
    utf16Chars (a :: ns) = (utf16Chars ns).map (Char.ofNat a :: ·) := by
  rw [utf16Chars.eq_def]
  exact if_pos h

theorem utf16Chars_pair {a b : Nat} {ns : List Nat}
    (ha : ¬ (a < 0xD800 ∨ 0xE000 ≤ a))
    (h : a < 0xDC00 ∧ 0xDC00 ≤ b ∧ b < 0xE000) :
    utf16Chars (a :: b :: ns) = (utf16Chars ns).map
      (Char.ofNat (0x10000 + (a - 0xD800) * 0x400 + (b - 0xDC00)) :: ·) := by
  rw [utf16Chars.eq_def]
  exact (if_neg ha).trans (if_pos h)

theorem utf16Chars_chunks {c : Char} {ns : List Nat} :
    utf16Chars (UCS2.chunks c ++ ns) =
      (utf16Chars ns).map (readChar c :: ·) := by
  have hbits := @UCS2.upperBits_lt c.val.toNat
  rw [UCS2.chunks, readChar]
  split
  · next hbase =>
      have hscalar : c.val.toNat < 0xD800 ∨ 0xE000 ≤ c.val.toNat := by
        rcases c.valid with h | h
        · exact .inl h
        · exact .inr (Nat.lt_of_succ_le h.1)
      have hc : Char.ofNat c.val.toNat = c := Char.ofNat_toNat c
      rw [List.singleton_append, utf16Chars_scalar hscalar, hc]
  · next hpair =>
      have hhigh : ¬ (UCS2.highSurrogate c.val.toNat < 0xD800 ∨
          0xE000 ≤ UCS2.highSurrogate c.val.toNat) := by
        rw [UCS2.highSurrogate]
        omega
      have hlow : UCS2.highSurrogate c.val.toNat < 0xDC00 ∧
          0xDC00 ≤ UCS2.lowSurrogate c.val.toNat ∧
          UCS2.lowSurrogate c.val.toNat < 0xE000 := by
        rw [UCS2.highSurrogate, UCS2.lowSurrogate]
        omega
      have hcode : 0x10000 + (UCS2.highSurrogate c.val.toNat - 0xD800) * 0x400 +
          (UCS2.lowSurrogate c.val.toNat - 0xDC00) =
          0x10000 + UCS2.highSurrogate c.val.toNat % 1024 * 1024 +
            UCS2.lowSurrogate c.val.toNat % 1024 := by
        rw [UCS2.highSurrogate, UCS2.lowSurrogate]
        omega
      rw [List.cons_append, List.singleton_append, utf16Chars_pair hhigh hlow,
        hcode, UCS2.pairChar]

/-- A part is always readable, whatever is read. -/
theorem readPart_hexOf (cs : List Char) :
    readPart (hexOf cs) = some (cs.map readChar) := by
  rw [readPart, hexOf, hexUnits_hexText UCS2.flatMap_chunks_lt, Option.bind_some]
  induction cs with
  | nil => rfl
  | cons c cs ih =>
      rw [List.flatMap_cons, utf16Chars_chunks, ih]
      rfl

/-! ## Reading a string whose pair is stale -/

/-- A read of the first character goes from the start, whatever the pair. -/
theorem index_zero {u : UTF8} (h : u.strLength ≠ 0) :
    u.index 0 = u.move.index 0 := by
  have hpos : ¬ 0 ≥ u.strLength := by omega
  have hpos' : ¬ 0 ≥ u.move.strLength := hpos
  rw [UTF8.index, UTF8.index, if_neg hpos, if_neg hpos']
  simp only [Nat.not_lt_zero, false_and, if_false]
  rfl

/-- `UCS2(const UTF8 &)` reads from the first character on, so the pair a move
assignment leaves does no harm. -/
theorem ofUtf8_str_text {u : UTF8} {cs : List Char} (h : Text u cs) :
    (UCS2.ofUtf8 u).str = hexOf cs := by
  have hmove : UCS2.ofUtf8 u = UCS2.ofUtf8 u.move := by
    rw [UCS2.ofUtf8, UCS2.ofUtf8, show u.move.strLength = u.strLength from rfl]
    obtain ⟨n, hn⟩ : ∃ n, n = u.strLength := ⟨_, rfl⟩
    rw [← hn]
    cases n with
    | zero => rfl
    | succ n =>
        rw [UCS2.ofUtf8Loop, UCS2.ofUtf8Loop, Nat.sub_self,
          index_zero (by omega)]
  rw [hmove, UCS2.ofUtf8_str (UTF8.move_sound h)]
  rfl

theorem index_text {u : UTF8} {cs : List Char} (h : Text u cs) (i : Nat) :
    Text (u.index i).2 cs := by
  rw [UTF8.index]
  split
  · exact h
  · exact ⟨h.live, h.bytes, h.room, h.sizeUsed, h.strLength⟩

theorem readAll_text {u : UTF8} {cs : List Char} (h : Text u cs) :
    Text (SMSPartsHandler.readAll u) cs := by
  have hfold : ∀ (is : List Nat) (u : UTF8), Text u cs →
      Text (is.foldl (fun string i => (string.index i).2) u) cs := by
    intro is
    induction is with
    | nil => exact fun _ h => h
    | cons i is ih => exact fun u h => ih _ (index_text h i)
  exact hfold _ u h

/-! ## One part -/

/-- The text of a string up to its first zero character. -/
def front (cs : List Char) : List Char := cs.takeWhile (· ≠ '\x00')

theorem nul_notMem_front {cs : List Char} : '\x00' ∉ front cs := by
  intro h
  have := List.mem_takeWhile_imp h
  simp at this

theorem front_eq_self {cs : List Char} (h : '\x00' ∉ cs) : front cs = cs := by
  refine List.takeWhile_eq_self_iff.2 fun c hc => ?_
  exact decide_eq_true fun heq => h (heq ▸ hc)

/-- The handler holds `cs`, terminated, and is at the `i`-th character. -/
structure At (h : SMSPartsHandler) (cs : List Char) (i : Nat) : Prop where
  bytes : ∃ rest, h.rawMessageUTF.bytes = utf8 cs ++ rest
  strLength : h.rawMessageUTF.strLength = cs.length
  nul : '\x00' ∉ cs
  lastIndex : h.lastIndex = i

/-- Behind the front stands a zero, of the text or its terminator. -/
theorem utf8_front : ∀ {cs : List Char} {s : List UInt8},
    ∃ rest, utf8 cs ++ 0 :: s = utf8 (front cs) ++ 0 :: rest := by
  intro cs
  induction cs with
  | nil => exact fun {s} => ⟨s, rfl⟩
  | cons c cs ih =>
      intro s
      by_cases hc : c = '\x00'
      · subst hc
        exact ⟨utf8 cs ++ 0 :: s, rfl⟩
      · obtain ⟨rest, hrest⟩ := @ih s
        refine ⟨rest, ?_⟩
        rw [front, List.takeWhile_cons_of_pos (by simpa using hc), utf8_cons,
          utf8_cons, List.append_assoc, List.append_assoc, hrest]
        rfl

theorem ofMessage_at {addr : Nat} {cs : List Char} :
    At (SMSPartsHandler.ofMessage addr (utf8 cs)) (front cs) 0 := by
  have hsize := lt_getDataBufferSize ((utf8 cs).length + 1)
  obtain ⟨k, hk⟩ : ∃ k, getDataBufferSize ((utf8 cs).length + 1) -
      (utf8 cs).length = k + 1 :=
    ⟨getDataBufferSize ((utf8 cs).length + 1) - (utf8 cs).length - 1, by omega⟩
  obtain ⟨rest, hrest⟩ := @utf8_front cs (zeroed k)
  have hbuffer : memcpy (zeroed (getDataBufferSize ((utf8 cs).length + 1))) 0
      (utf8 cs ++ [0]) = utf8 (front cs) ++ 0 :: rest := by
    rw [UTF8.memcpy_terminated (by omega), hk, zeroed_succ, hrest]
  have hbytes : (UTF8.ofString addr (utf8 cs)).bytes =
      utf8 (front cs) ++ 0 :: rest := hbuffer
  refine ⟨⟨_, hbytes⟩, ?_, nul_notMem_front, rfl⟩
  have hlen := @length_le_utf8 (front cs)
  change getCharactersCount (memcpy _ 0 (utf8 cs ++ [0])) = _
  rw [hbuffer, getCharactersCount, getStreamLength_text nul_notMem_front
    (by rw [List.length_append, List.length_cons]; omega)]

section Parts

variable {alloc : Nat → Nat → Nat} {h : SMSPartsHandler} {cs : List Char} {i : Nat}

/-- The loop stops at the longest front that fits: a longer one holds the next
character, which does not. -/
theorem shrink_eq {p rest : List Char} (hat : At h cs i)
    (hsplit : cs.drop i = p ++ rest) (hne : p ≠ []) (hfits : weight units p ≤ 67)
    (hfull : Full units 67 p rest) : ∀ {more : Nat} {part : UTF8},
    Text part ((cs.drop i).take (p.length + more)) →
    p.length + more ≤ (cs.drop i).length →
    ∃ part', h.shrink alloc (p.length + more) part = some part' ∧
      Text part' p := by
  intro more
  induction more with
  | zero =>
      intro part htext _
      rw [Nat.add_zero, hsplit, List.take_left] at htext
      obtain ⟨n, hn⟩ : ∃ n, p.length = n + 1 :=
        ⟨p.length - 1, by have := List.length_pos_of_ne_nil hne; omega⟩
      refine ⟨SMSPartsHandler.readAll part, ?_, readAll_text htext⟩
      rw [Nat.add_zero, hn, SMSPartsHandler.shrink, if_neg]
      rw [ofUtf8_str_text htext, length_hexOf]
      change ¬ _ > 67 * 4
      omega
  | succ more ih =>
      intro part htext hlen
      have hheavy : 67 < weight units ((cs.drop i).take (p.length + (more + 1))) := by
        rw [hsplit, List.length_append] at hlen
        obtain ⟨a, tail, rfl⟩ : ∃ a tail, rest = a :: tail :=
          List.exists_cons_of_length_pos (by omega)
        have := hfull a rfl
        rw [hsplit, List.take_length_add_append, List.take_succ_cons,
          weight_append, weight_cons]
        omega
      obtain ⟨tail, hbytes⟩ := hat.bytes
      have hdrop : (cs.drop i).length = cs.length - i := List.length_drop
      have hshorter := @UTF8.substr_of_bytes
        (alloc i (p.length + more)) i (p.length + more) _ cs tail hbytes
        hat.strLength (by omega)
        (fun hmem => hat.nul (List.mem_of_mem_drop (List.mem_of_mem_take hmem)))
      change ∃ part', h.shrink alloc (p.length + more + 1) part = some part' ∧ _
      rw [SMSPartsHandler.shrink, if_pos, hat.lastIndex]
      · exact ih (UTF8.moveAssign_text hshorter.text) (by omega)
      · rw [ofUtf8_str_text htext, length_hexOf]
        change _ > 67 * 4
        omega

theorem getNextSmsPart_eq {p rest : List Char} (hat : At h cs i)
    (hsplit : cs.drop i = p ++ rest) (hne : p ≠ []) (hfits : weight units p ≤ 67)
    (hfull : Full units 67 p rest) :
    h.getNextSmsPart alloc = (hexOf p, { h with lastIndex := i + p.length }) := by
  have hpos := List.length_pos_of_ne_nil hne
  have hshort := (length_le_weight @units_pos).trans hfits
  have hleft : cs.length - i = p.length + rest.length := by
    rw [← List.length_drop, hsplit, List.length_append]
  obtain ⟨tail, hbytes⟩ := hat.bytes
  obtain ⟨more, hmore⟩ : ∃ more, (if cs.length - i < singleMessageMaxLen then
      cs.length - i else singleMessageMaxLen) = p.length + more := by
    refine ⟨_ - p.length, (Nat.add_sub_of_le ?_).symm⟩
    change _ ≤ if cs.length - i < 67 then cs.length - i else 67
    split
    · omega
    · exact hshort
  have hwhole : p.length + more ≤ cs.length - i := by
    rw [← hmore]
    change (if cs.length - i < 67 then cs.length - i else 67) ≤ _
    split
    · exact Nat.le_refl _
    · omega
  have hpart := @UTF8.substr_of_bytes (alloc i (p.length + more)) i
    (p.length + more) _ cs tail hbytes hat.strLength (by omega)
    (fun hmem => hat.nul (List.mem_of_mem_drop (List.mem_of_mem_take hmem)))
  obtain ⟨part, hshrink, htext⟩ := @shrink_eq alloc h cs i p rest hat hsplit hne
    hfits hfull more _ hpart.text (by rw [List.length_drop]; exact hwhole)
  rw [SMSPartsHandler.getNextSmsPart, hat.strLength, hat.lastIndex]
  simp only [hmore]
  rw [if_neg (by omega), hshrink]
  simp only [ofUtf8_str_text htext, htext.strLength]

theorem getNextSmsPart_end (hat : At h cs i) (hend : cs.length ≤ i) :
    h.getNextSmsPart alloc = ([], h) := by
  have hzero : cs.length - i = 0 := by omega
  rw [SMSPartsHandler.getNextSmsPart, hat.strLength, hat.lastIndex, hzero]
  rfl

/-! ## All parts -/

/-- What is left of the text, cut greedily. -/
def Ahead (h : SMSPartsHandler) (cs : List Char) (ps : List (List Char)) : Prop :=
  ∃ i, At h cs i ∧ Greedy units 67 (cs.drop i) ps

theorem getNextSmsPart_ahead {ps : List (List Char)} (hahead : Ahead h cs ps) :
    (h.getNextSmsPart alloc).1 = hexOf (ps.headD []) ∧
      Ahead (h.getNextSmsPart alloc).2 cs ps.tail := by
  obtain ⟨i, hat, hgreedy⟩ := hahead
  obtain ⟨l, hl⟩ : ∃ l, cs.drop i = l := ⟨_, rfl⟩
  rw [hl] at hgreedy
  cases hgreedy with
  | nil =>
      rw [getNextSmsPart_end hat (List.drop_eq_nil_iff.1 hl)]
      exact ⟨rfl, i, hat, by rw [hl]; exact .nil⟩
  | @cons p rest ps hne hfits hfull hrest =>
      rw [getNextSmsPart_eq hat hl hne hfits hfull]
      refine ⟨rfl, i + p.length, ⟨hat.bytes, hat.strLength, hat.nul, rfl⟩, ?_⟩
      rw [← List.drop_drop, hl, List.drop_left]
      exact hrest

theorem nextParts_ahead : ∀ {count : Nat} {h : SMSPartsHandler}
    {ps : List (List Char)}, Ahead h cs ps →
    (h.nextParts alloc count).1 =
        (ps.take count).map hexOf ++ List.replicate (count - ps.length) [] ∧
      Ahead (h.nextParts alloc count).2 cs (ps.drop count) := by
  intro count
  induction count with
  | zero =>
      intro h ps hahead
      rw [Nat.zero_sub]
      exact ⟨rfl, hahead⟩
  | succ count ih =>
      intro h ps hahead
      obtain ⟨hpart, hnext⟩ := @getNextSmsPart_ahead alloc h cs ps hahead
      obtain ⟨hparts, hlast⟩ := ih hnext
      rw [SMSPartsHandler.nextParts]
      simp only []
      rw [hpart, hparts]
      cases ps with
      | nil => exact ⟨by simp [hexOf, UCS2.hexText, List.replicate_succ], by simpa using hlast⟩
      | cons p ps => exact ⟨by simp, hlast⟩

end Parts

/-! ## When the split is exact -/

section Exact

variable {alloc : Nat → Nat → Nat} {h : SMSPartsHandler} {cs message : List Char}
  {ps : List (List Char)}

theorem map_readPart : ∀ {ps : List (List Char)},
    (ps.map hexOf).map readPart = (ps.map (List.map readChar)).map some := by
  intro ps
  rw [List.map_map, List.map_map]
  exact List.map_congr_left fun p _ => readPart_hexOf p

/-- The parts that carry something are those of the greedy cut. -/
theorem sentParts_eq (hahead : Ahead h cs ps) (hne : ∀ p ∈ ps, p ≠ []) (count : Nat) :
    h.sentParts alloc count = (ps.take count).map hexOf := by
  rw [SMSPartsHandler.sentParts, (nextParts_ahead hahead).1, List.filter_append,
    List.filter_eq_self.2, List.filter_eq_nil_iff.2, List.append_nil]
  · intro part hpart
    simp [List.eq_of_mem_replicate hpart]
  · intro part hpart
    obtain ⟨p, hp, rfl⟩ := List.mem_map.1 hpart
    exact decide_eq_true (hexOf_ne_nil (hne p (List.mem_of_mem_take hp)))

theorem splitExactly_of_ahead (hahead : Ahead h cs ps) (hpacks : Packs units 67 cs ps) :
    SplitExactly alloc h message ↔
      h.partsCount = ps.length ∧ cs.map readChar = message := by
  obtain ⟨hparts, hlast⟩ := @nextParts_ahead alloc cs h.partsCount h ps hahead
  have hend := (@getNextSmsPart_ahead alloc _ cs _ hlast).1
  have hflatten : (ps.map (List.map readChar)).flatten = cs.map readChar := by
    rw [← List.map_flatten, hpacks.flatten]
  refine ⟨fun hexact => ?_, fun ⟨hcount, hread⟩ => ?_⟩
  · have hle : h.partsCount ≤ ps.length := by
      refine Nat.le_of_not_lt fun hlt => hexact.ne_nil [] ?_ rfl
      change [] ∈ (h.nextParts alloc h.partsCount).1
      rw [hparts]
      refine List.mem_append_right _ (List.mem_replicate.2 ⟨by omega, rfl⟩)
    have hge : ps.length ≤ h.partsCount := by
      refine Nat.le_of_not_lt fun hlt => ?_
      have hdrop := List.drop_eq_getElem_cons hlt
      rw [hdrop] at hend
      exact hexOf_ne_nil (hpacks.ne_nil _ (List.getElem_mem hlt))
        (hend.symm.trans hexact.exhausted)
    have hcount : h.partsCount = ps.length := Nat.le_antisymm hle hge
    obtain ⟨texts, htexts, hmessage⟩ := hexact.reads
    refine ⟨hcount, ?_⟩
    change ((h.nextParts alloc h.partsCount).1).map readPart = _ at htexts
    rw [hparts, hcount, Nat.sub_self, List.take_length, List.replicate_zero,
      List.append_nil, map_readPart] at htexts
    have hinj := List.map_injective_iff.2 (Option.some_injective (List Char)) htexts
    rw [← hflatten, hinj, hmessage]
  · have hall : h.allParts alloc = ps.map hexOf := by
      rw [SMSPartsHandler.allParts, SMSPartsHandler.getPartsCount, hparts, hcount,
        Nat.sub_self, List.take_length, List.replicate_zero, List.append_nil]
    have hsent : ∀ count, h.getPartsCount ≤ count →
        (h.sentParts alloc count).length = h.partsCount := by
      intro count hle
      rw [SMSPartsHandler.getPartsCount, hcount] at hle
      rw [sentParts_eq hahead hpacks.ne_nil, List.length_map,
        List.take_of_length_le hle, hcount]
    refine ⟨?_, ?_, ?_, ?_, ?_, ?_⟩
    · intro part hpart
      rw [hall] at hpart
      obtain ⟨p, hp, rfl⟩ := List.mem_map.1 hpart
      exact hexOf_ne_nil (hpacks.ne_nil p hp)
    · intro part hpart
      rw [hall] at hpart
      obtain ⟨p, hp, rfl⟩ := List.mem_map.1 hpart
      have := hpacks.fits p hp
      rw [length_hexOf]
      omega
    · exact ⟨ps.map (List.map readChar), by rw [hall, map_readPart],
        by rw [hflatten, hread]⟩
    · rw [SMSPartsHandler.getPartsCount, hend, hcount, List.drop_length]
      rfl
    · intro count hle
      rw [hsent count hle, SMSPartsHandler.isSinglePartSMS, beq_iff_eq]
    · intro count hle
      rw [hsent count hle, SMSPartsHandler.isPartsCountAboveLimit,
        decide_eq_true_eq]
      exact Iff.rfl

/-- A message comes back if nothing of it is behind a zero character and its
surrogates are the standard ones. -/
theorem read_front_iff :
    (front message).map readChar = message ↔
      '\x00' ∉ message ∧ ∀ c ∈ message, UCS2.Plain c := by
  refine ⟨fun hread => ?_, fun ⟨hnul, hplain⟩ => ?_⟩
  · have hlen : (front message).length = message.length := by
      conv_rhs => rw [← hread, List.length_map]
    have hfront : front message = message :=
      (List.takeWhile_prefix _).eq_of_length hlen
    rw [hfront] at hread
    refine ⟨?_, fun c hc => readChar_eq_iff.1 ?_⟩
    · rw [← hfront]
      exact nul_notMem_front
    · exact List.map_inj_left.1 (hread.trans (List.map_id message).symm) c hc
  · rw [front_eq_self hnul]
    refine (List.map_congr_left fun c hc => ?_).trans (List.map_id message)
    exact readChar_eq_iff.2 (hplain c hc)

theorem ofMessage_partsCount {addr : Nat} {rawMessage : List UInt8} :
    (SMSPartsHandler.ofMessage addr rawMessage).partsCount =
      (rawMessage.length + 66) / 67 := by
  change rawMessage.length / 67 + (if rawMessage.length % 67 ≠ 0 then 1 else 0) = _
  split
  · omega
  · omega

theorem exists_cut (message : List Char) {addr : Nat} :
    ∃ ps, Greedy units 67 (front message) ps ∧
      Ahead (SMSPartsHandler.ofMessage addr (utf8 message)) (front message) ps := by
  obtain ⟨ps, hps⟩ := @exists_greedy _ units 67
    (fun c => (@units_le c).trans (by omega)) (front message)
  exact ⟨ps, hps, 0, ofMessage_at, hps⟩

/-- A message is split exactly if it has no zero character, all its pairs are
standard, and the least number of parts that hold it is that of its bytes. -/
theorem splitExactly_iff {addr : Nat} :
    SplitExactly alloc (SMSPartsHandler.ofMessage addr (utf8 message)) message ↔
      ('\x00' ∉ message ∧ ∀ c ∈ message, UCS2.Plain c) ∧
        IsLeast {n | ∃ parts, Packs units 67 message parts ∧ parts.length = n}
          (((utf8 message).length + 66) / 67) := by
  obtain ⟨ps, hgreedy, hahead⟩ := @exists_cut message addr
  rw [splitExactly_of_ahead hahead hgreedy.packs, ofMessage_partsCount,
    read_front_iff, and_comm]
  refine and_congr_right fun ⟨hnul, _⟩ => ?_
  rw [front_eq_self hnul] at hgreedy
  exact ⟨fun hcount => hcount ▸ hgreedy.isLeast,
    fun hleast => hleast.unique hgreedy.isLeast⟩

end Exact

/-- Thirty-four letters of two bytes each: two parts are announced, and the
first holds all of them. -/
theorem second_part_empty :
    ¬ SplitExactly (fun _ _ => 1)
      (SMSPartsHandler.ofMessage 0 (utf8 (List.replicate 34 'é')))
      (List.replicate 34 'é') := by
  have hfront : front (List.replicate 34 'é') = List.replicate 34 'é' :=
    front_eq_self (by decide)
  have hgreedy := @Greedy.cons _ units 67 (List.replicate 34 'é') [] []
    (by decide) (by decide) (by simp [Full]) .nil
  rw [List.append_nil] at hgreedy
  have hahead := @ofMessage_at 0 (List.replicate 34 'é')
  rw [hfront] at hahead
  rw [splitExactly_of_ahead ⟨0, hahead, hgreedy⟩ hgreedy.packs]
  exact fun h => absurd h.1 (by decide)

theorem length_utf8_ascii : ∀ {cs : List Char}, (∀ c ∈ cs, c.val.toNat < 128) →
    (utf8 cs).length = cs.length := by
  intro cs
  induction cs with
  | nil => exact fun _ => rfl
  | cons c cs ih =>
      intro hascii
      have hc := hascii c List.mem_cons_self
      have hone : (String.utf8EncodeChar c).length = 1 := by
        have hform := form_utf8EncodeChar c
        obtain ⟨v, hv⟩ : ∃ v, v = c.val.toNat := ⟨_, rfl⟩
        obtain ⟨bytes, hbytes⟩ : ∃ bytes, bytes = String.utf8EncodeChar c := ⟨_, rfl⟩
        rw [← hv, ← hbytes] at hform
        rw [← hbytes]
        cases hform with
        | one _ => rfl
        | two _ _ _ => omega
        | three _ _ _ _ => omega
        | four _ _ _ _ _ => omega
      rw [utf8_cons, List.length_append, hone,
        ih fun d hd => hascii d (List.mem_cons_of_mem c hd), List.length_cons,
        Nat.add_comm]

/-- In a text of one byte a character the three counts agree. -/
theorem splitExactly_ascii {alloc : Nat → Nat → Nat} {addr : Nat} {message : List Char}
    (hascii : ∀ c ∈ message, 0 < c.val.toNat ∧ c.val.toNat < 128) :
    SplitExactly alloc (SMSPartsHandler.ofMessage addr (utf8 message)) message := by
  have hnul : '\x00' ∉ message := fun h => absurd (hascii _ h).1 (by decide)
  have hplain : ∀ c ∈ message, UCS2.Plain c := fun c hc =>
    .inl ((hascii c hc).2.trans (by omega))
  obtain ⟨ps, hgreedy, hahead⟩ := @exists_cut message addr
  rw [splitExactly_of_ahead hahead hgreedy.packs, ofMessage_partsCount]
  refine ⟨?_, read_front_iff.2 ⟨hnul, hplain⟩⟩
  rw [front_eq_self hnul] at hgreedy
  have hbytes := length_utf8_ascii fun c hc => (hascii c hc).2
  rw [hgreedy.length_eq (by omega) fun c hc => ?_, hbytes]
  · exact if_pos ((hascii c hc).2.trans (by omega))

end MuditaOS.Sms
