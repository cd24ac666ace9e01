import MuditaOS.Lib.Run
import MuditaOS.Proofs.Utf8Ops

/-!
# Runs of string operations

A run is a list of public operations on a growing list of strings. Every string
is kept together with the code points it is expected to hold, which the
operation changes by its documentation and not by its code; there is no
expectation after a move from the string, or once it got what is no code point.

Not every operation keeps its promise, so the run theorem has a rule for the
steps: a removal that is made, a non-empty string that is inserted, a three-byte
code point inserted by code and the zero code point where C strings are made of
it are out; a move assignment and an insertion have to fit the pair that
`operator[]` left.
-/

namespace MuditaOS.Unicode

open MuditaOS.Lib

/-- A string and the code points it is expected to hold. -/
structure Obj where
  str : UTF8
  text : Option (List Char)
  deriving DecidableEq

/-- The public operations. Strings are named by their position; `addr` is the
address of the buffer the operation allocates. -/
inductive Op where
  | default (addr : Nat)
  | ofCString (addr : Nat) (text : List Char)
  | ofString (addr : Nat) (text : List Char)
  | copy (addr i : Nat)
  | move (i : Nat)
  | copyAssign (addr i j : Nat)
  | moveAssign (i j : Nat)
  | append (addr i j : Nat)
  | insert (addr i : Nat) (c : Char) (tail : List UInt8) (index : Nat)
  | insertCode (addr i : Nat) (code : UInt32) (index : Nat)
  | insertString (addr i j index : Nat)
  | removeChar (addr i pos count : Nat)
  | split (addr addrLeft i idx : Nat)
  | substr (addr i begin length : Nat)
  | clear (addr i : Nat)
  | index (i idx : Nat)

/-! ## What is expected -/

/-- The position an index names in a text. -/
def position (cs : List Char) (index : Nat) : Option Nat :=
  if index ≠ npos then if index > cs.length then none else some index
  else some cs.length

def insertText (cs : List Char) (index : Nat) (ds : List Char) : List Char :=
  match position cs index with
  | some k => cs.take k ++ ds ++ cs.drop k
  | none => cs

def removeText (cs : List Char) (pos count : Nat) : List Char :=
  if pos + count ≤ cs.length then cs.take pos ++ cs.drop (pos + count) else cs

def substrText (cs : List Char) (begin length : Nat) : List Char :=
  if begin + length ≤ cs.length then (cs.drop begin).take length else []

/-- Surrogates are refused; beyond the last code point nothing is expected. -/
def insertCodeText (cs : List Char) (index : Nat) (code : UInt32) :
    Option (List Char) :=
  if 0xD800 ≤ code ∧ code ≤ 0xDFFF then some cs
  else if h : code.isValidChar then some (insertText cs index [⟨code, h⟩])
  else none

namespace Obj

def movedFrom (o : Obj) : Obj := ⟨o.str.movedFrom, none⟩

end Obj

/-! ## The step -/

def step (objs : List Obj) : Op → List Obj
  | .default addr => objs ++ [⟨UTF8.empty addr, some []⟩]
  | .ofCString addr text =>
      objs ++ [⟨UTF8.ofCString addr (utf8 text ++ [0]),
        some (text.takeWhile (· ≠ '\x00'))⟩]
  | .ofString addr text => objs ++ [⟨UTF8.ofString addr (utf8 text), some text⟩]
  | .copy addr i =>
      objs ++ (objs[i]?.map fun o => ⟨UTF8.copy addr o.str, o.text⟩).toList
  | .move i =>
      objs.modify i Obj.movedFrom ++
        (objs[i]?.map fun o => ⟨UTF8.move o.str, o.text⟩).toList
  | .copyAssign addr i j =>
      if i = j then objs
      else match objs[j]? with
        | some o' =>
            objs.modify i fun o => ⟨UTF8.copyAssign addr o.str o'.str, o'.text⟩
        | none => objs
  | .moveAssign i j =>
      if i = j then objs
      else match objs[j]? with
        | some o' =>
            (objs.modify i fun o =>
              ⟨UTF8.moveAssign o.str o'.str, o'.text⟩).modify j Obj.movedFrom
        | none => objs
  | .append addr i j =>
      match objs[j]? with
      | some o' => objs.modify i fun o =>
          ⟨UTF8.append addr o.str o'.str,
            do let cs ← o.text; let ds ← o'.text; some (cs ++ ds)⟩
      | none => objs
  | .insert addr i c tail index =>
      objs.modify i fun o =>
        ⟨(UTF8.insert addr o.str (String.utf8EncodeChar c ++ tail) index).2,
          o.text.map fun cs => insertText cs index [c]⟩
  | .insertCode addr i code index =>
      objs.modify i fun o =>
        ⟨(UTF8.insertCode addr o.str code index).2,
          o.text.bind fun cs => insertCodeText cs index code⟩
  | .insertString addr i j index =>
      match objs[j]? with
      | some o' => objs.modify i fun o =>
          ⟨(UTF8.insertString addr o.str o'.str index).2,
            do let cs ← o.text; let ds ← o'.text; some (insertText cs index ds)⟩
      | none => objs
  | .removeChar addr i pos count =>
      objs.modify i fun o =>
        ⟨(UTF8.removeChar addr o.str pos count).2,
          o.text.map fun cs => removeText cs pos count⟩
  | .split addr addrLeft i idx =>
      (objs.modify i fun o =>
        ⟨(UTF8.split addr addrLeft o.str idx).2,
          o.text.map fun cs => if idx < cs.length then cs.take idx else cs⟩) ++
        (objs[i]?.map fun o => ⟨(UTF8.split addr addrLeft o.str idx).1,
          o.text.map fun cs => cs.drop idx⟩).toList
  | .substr addr i begin length =>
      objs ++ (objs[i]?.map fun o => ⟨UTF8.substr addr o.str begin length,
        o.text.map fun cs => substrText cs begin length⟩).toList
  | .clear addr i => objs.modify i fun o => ⟨UTF8.clear addr o.str, some []⟩
  | .index i idx =>
      objs.modify i fun o => ⟨(UTF8.index o.str idx).2, o.text⟩

/-! ## The rule -/

/-- The step does not run into one of the defects. -/
def Rule (objs : List Obj) : Op → Prop
  | .ofString _ text => '\x00' ∉ text
  | .moveAssign i j => i = j ∨ ∀ o o', objs[i]? = some o → objs[j]? = some o' →
      ∀ cs, o'.text = some cs → o.str.lastIndex ≤ cs.length ∧
        o.str.lastIndexData = ⟨o'.str.addr, offset cs o.str.lastIndex⟩
  | .insert _ i c _ index => ∀ o, objs[i]? = some o → ∀ cs, o.text = some cs →
      ∀ k, position cs index = some k → UTF8.KeepsCached o.str cs c k
  | .insertCode _ i code index => ∀ o, objs[i]? = some o →
      ∀ cs, o.text = some cs → ∀ c : Char, c.val = code →
        (code.toNat < 0x800 ∨ 0x10000 ≤ code.toNat) ∧
        ∀ k, position cs index = some k → UTF8.KeepsCached o.str cs c k
  | .insertString _ i j index => ∀ o o', objs[i]? = some o → objs[j]? = some o' →
      ∀ cs ds, o.text = some cs → o'.text = some ds →
        position cs index = none ∨ ds = []
  | .removeChar _ i pos count => ∀ o, objs[i]? = some o →
      ∀ cs, o.text = some cs → count = 0 ∨ cs.length < pos + count
  | .split _ _ i idx => ∀ o, objs[i]? = some o → ∀ cs, o.text = some cs →
      '\x00' ∉ cs.drop idx
  | .substr _ i begin length => ∀ o, objs[i]? = some o →
      ∀ cs, o.text = some cs → '\x00' ∉ substrText cs begin length
  | _ => True

/-! ## One step -/

/-- The string holds what is expected, if anything is. -/
def Good (o : Obj) : Prop := ∀ cs, o.text = some cs → Sound o.str cs

theorem forall_modify {P : Obj → Prop} {objs : List Obj} {i : Nat}
    {f : Obj → Obj} (h : ∀ o ∈ objs, P o)
    (hf : ∀ o, objs[i]? = some o → P (f o)) : ∀ o ∈ objs.modify i f, P o := by
  intro o ho
  obtain ⟨k, hk⟩ := List.mem_iff_getElem?.1 ho
  rw [List.getElem?_modify] at hk
  obtain ⟨o', ho', rfl⟩ := Option.map_eq_some_iff.1 hk
  split
  · next hik => exact hf o' (by rw [hik]; exact ho')
  · exact h o' (List.mem_of_getElem? ho')

theorem forall_append_map {P : Obj → Prop} {objs : List Obj} {i : Nat}
    {new : List Obj} {f : Obj → Obj} (h : ∀ o ∈ new, P o)
    (hf : ∀ o, objs[i]? = some o → P (f o)) :
    ∀ o ∈ new ++ (objs[i]?.map f).toList, P o := by
  intro o ho
  rcases List.mem_append.1 ho with ho | ho
  · exact h o ho
  · obtain ⟨o', ho', rfl⟩ := Option.map_eq_some_iff.1 (Option.mem_toList.1 ho)
    exact hf o' ho'

theorem forall_append_one {P : Obj → Prop} {objs : List Obj} {o' : Obj}
    (h : ∀ o ∈ objs, P o) (ho' : P o') : ∀ o ∈ objs ++ [o'], P o := by
  intro o ho
  rcases List.mem_append.1 ho with ho | ho
  · exact h o ho
  · rw [List.mem_singleton.1 ho]
    exact ho'

theorem good_movedFrom {o : Obj} : Good o.movedFrom := fun _ h => (nomatch h)

theorem insertIndex_position {u : UTF8} {cs : List Char} (h : Text u cs)
    {index : Nat} : u.insertIndex index = position cs index :=
  UTF8.insertIndex_eq h

theorem position_le {cs : List Char} {index k : Nat}
    (h : position cs index = some k) : k ≤ cs.length := by
  rw [position] at h
  split at h
  · split at h
    · cases h
    · cases h
      omega
  · cases h
    exact Nat.le_refl _

/-- What a C string made of a text holds. -/
theorem exists_terminator : ∀ {text : List Char}, ∃ rest,
    utf8 text ++ [0] = utf8 (text.takeWhile (· ≠ '\x00')) ++ 0 :: rest := by
  intro text
  induction text with
  | nil => exact ⟨[], rfl⟩
  | cons c text ih =>
      by_cases hc : c = '\x00'
      · rw [List.takeWhile_cons_of_neg (by simpa using hc), hc]
        exact ⟨utf8 text ++ [0], rfl⟩
      · obtain ⟨rest, hrest⟩ := ih
        refine ⟨rest, ?_⟩
        rw [List.takeWhile_cons_of_pos (by simpa using hc), utf8_cons, utf8_cons,
          List.append_assoc, hrest, List.append_assoc]

theorem good_ofCString {addr : Nat} {text : List Char} :
    Sound (UTF8.ofCString addr (utf8 text ++ [0]))
      (text.takeWhile (· ≠ '\x00')) := by
  obtain ⟨rest, hrest⟩ := @exists_terminator text
  rw [hrest]
  refine UTF8.ofCString_sound fun hnul => ?_
  have hall := List.all_eq_true.1 List.all_takeWhile _ hnul
  simp at hall

theorem good_insertString {addr index : Nat} {u str : UTF8} {cs ds : List Char}
    (h : Sound u cs) (hstr : Text str ds)
    (hrule : position cs index = none ∨ ds = []) :
    Sound (UTF8.insertString addr u str index).2 (insertText cs index ds) := by
  have hindex := @insertIndex_position u cs h.text index
  rcases hrule with hpos | rfl
  · rw [hpos] at hindex
    rw [insertText, hpos, UTF8.insertString, hindex]
    exact h
  · have htext : insertText cs index [] = cs := by
      rw [insertText]
      split
      · rw [List.append_nil, List.take_append_drop]
      · rfl
    rw [htext]
    exact UTF8.insertString_sound h hstr

theorem good_removeChar {addr pos count : Nat} {u : UTF8} {cs : List Char}
    (h : Sound u cs) (hrule : count = 0 ∨ cs.length < pos + count) :
    Sound (UTF8.removeChar addr u pos count).2 (removeText cs pos count) := by
  have hlen := h.text.strLength
  by_cases hcount : count = 0
  · have htext : removeText cs pos count = cs := by
      rw [removeText, hcount, Nat.add_zero, List.take_append_drop, ite_self]
    rw [UTF8.removeChar, if_pos hcount, htext]
    exact h
  · have hout := hrule.resolve_left hcount
    rw [UTF8.removeChar, if_neg hcount, if_pos (by omega), removeText,
      if_neg (by omega)]
    exact h

theorem good_substr {addr begin length : Nat} {u : UTF8} {cs : List Char}
    (h : Sound u cs) (hnul : '\x00' ∉ substrText cs begin length) :
    Sound (UTF8.substr addr u begin length) (substrText cs begin length) := by
  rw [substrText] at hnul ⊢
  split
  · next hin =>
      rw [if_pos hin] at hnul
      exact UTF8.substr_sound h.text hin hnul
  · next hout =>
      rw [UTF8.substr, if_pos (.inl (by rw [h.text.strLength]; omega))]
      exact UTF8.empty_sound

theorem good_split {addr addrLeft idx : Nat} {u : UTF8} {cs : List Char}
    (h : Sound u cs) (hnul : '\x00' ∉ cs.drop idx) :
    Sound (UTF8.split addr addrLeft u idx).1 (cs.drop idx) ∧
      Sound (UTF8.split addr addrLeft u idx).2
        (if idx < cs.length then cs.take idx else cs) := by
  split
  · next hidx => exact UTF8.split_sound h.text hidx hnul
  · next hout =>
      rw [UTF8.split, if_pos (by rw [h.text.strLength]; omega),
        List.drop_of_length_le (by omega)]
      exact ⟨UTF8.empty_sound, h⟩

theorem good_insert {addr index : Nat} {tail : List UInt8} {u : UTF8}
    {cs : List Char} {c : Char} (h : Sound u cs)
    (hkeep : ∀ k, position cs index = some k → UTF8.KeepsCached u cs c k) :
    Sound (UTF8.insert addr u (String.utf8EncodeChar c ++ tail) index).2
      (insertText cs index [c]) := by
  have hindex := @insertIndex_position u cs h.text index
  cases hpos : position cs index with
  | none =>
      rw [hpos] at hindex
      rw [insertText, hpos, UTF8.insert, hindex]
      exact h
  | some k =>
      rw [hpos] at hindex
      rw [insertText, hpos]
      simp only [List.append_assoc, List.singleton_append]
      exact UTF8.insert_sound h hindex (position_le hpos) (hkeep k hpos)

theorem good_insertCode {addr index : Nat} {u : UTF8} {cs ds : List Char}
    {code : UInt32} (h : Sound u cs) (hds : insertCodeText cs index code = some ds)
    (hrule : ∀ c : Char, c.val = code →
      (code.toNat < 0x800 ∨ 0x10000 ≤ code.toNat) ∧
      ∀ k, position cs index = some k → UTF8.KeepsCached u cs c k) :
    Sound (UTF8.insertCode addr u code index).2 ds := by
  rw [insertCodeText] at hds
  rw [UTF8.insertCode]
  split at hds
  · next hsurrogate =>
      rw [u8char_surrogate hsurrogate]
      exact Option.some.inj hds ▸ h
  · split at hds
    · next hvalid =>
        obtain ⟨hcode, hkeep⟩ := hrule ⟨code, hvalid⟩ rfl
        have hbytes : u8char code = String.utf8EncodeChar ⟨code, hvalid⟩ ++ [] := by
          rw [List.append_nil]
          exact @u8char_char ⟨code, hvalid⟩ hcode
        have hpos := length_char_pos ⟨code, hvalid⟩
        simp only [hbytes]
        rw [if_neg (by rw [List.append_nil]; omega)]
        exact Option.some.inj hds ▸ good_insert h hkeep
    · cases hds

theorem bind_both {f : List Char → List Char → List Char}
    {a b : Option (List Char)} {cs : List Char}
    (h : (do let ds ← a; let es ← b; some (f ds es)) = some cs) :
    ∃ ds es, a = some ds ∧ b = some es ∧ f ds es = cs := by
  obtain ⟨ds, hds, h⟩ := Option.bind_eq_some_iff.1 h
  obtain ⟨es, hes, h⟩ := Option.bind_eq_some_iff.1 h
  exact ⟨ds, es, hds, hes, Option.some.inj h⟩

/-- A step within the rule keeps every string good. -/
theorem step_good {objs : List Obj} {op : Op} (h : ∀ o ∈ objs, Good o)
    (hrule : Rule objs op) : ∀ o ∈ step objs op, Good o := by
  have hget : ∀ i o, objs[i]? = some o → Good o :=
    fun i o ho => h o (List.mem_of_getElem? ho)
  cases op with
  | default addr =>
      exact forall_append_one h fun cs hcs =>
        Option.some.inj hcs ▸ UTF8.empty_sound
  | ofCString addr text =>
      exact forall_append_one h fun cs hcs =>
        Option.some.inj hcs ▸ good_ofCString
  | ofString addr text =>
      exact forall_append_one h fun cs hcs =>
        Option.some.inj hcs ▸ UTF8.ofBytes_sound hrule
  | copy addr i =>
      exact forall_append_map h fun o ho cs hcs =>
        UTF8.copy_sound (hget i o ho cs hcs).text
  | move i =>
      exact forall_append_map (forall_modify h fun o _ => good_movedFrom)
        fun o ho cs hcs => UTF8.move_sound (hget i o ho cs hcs).text
  | copyAssign addr i j =>
      rw [step]
      split
      · exact h
      · split
        · next o' ho' =>
            exact forall_modify h fun o _ cs hcs =>
              UTF8.copyAssign_sound (hget j o' ho' cs hcs).text
        · exact h
  | moveAssign i j =>
      rw [step]
      split
      · exact h
      · next hij =>
          split
          · next o' ho' =>
              refine forall_modify (forall_modify h fun o ho cs hcs => ?_)
                fun o _ => good_movedFrom
              obtain ⟨hinside, hpointer⟩ :=
                hrule.resolve_left hij o o' ho ho' cs hcs
              exact UTF8.moveAssign_sound (hget j o' ho' cs hcs).text hinside
                hpointer
          · exact h
  | append addr i j =>
      rw [step]
      split
      · next o' ho' =>
          refine forall_modify h fun o ho cs hcs => ?_
          obtain ⟨ds, es, hds, hes, rfl⟩ := bind_both hcs
          exact UTF8.append_sound (hget i o ho ds hds) (hget j o' ho' es hes).text
      · exact h
  | insert addr i c tail index =>
      refine forall_modify h fun o ho cs hcs => ?_
      obtain ⟨ds, hds, rfl⟩ := Option.map_eq_some_iff.1 hcs
      exact good_insert (hget i o ho ds hds) (hrule o ho ds hds)
  | insertCode addr i code index =>
      refine forall_modify h fun o ho cs hcs => ?_
      obtain ⟨ds, hds, hcode⟩ := Option.bind_eq_some_iff.1 hcs
      exact good_insertCode (hget i o ho ds hds) hcode (hrule o ho ds hds)
  | insertString addr i j index =>
      rw [step]
      split
      · next o' ho' =>
          refine forall_modify h fun o ho cs hcs => ?_
          obtain ⟨ds, es, hds, hes, rfl⟩ := bind_both hcs
          exact good_insertString (hget i o ho ds hds) (hget j o' ho' es hes).text
            (hrule o o' ho ho' ds es hds hes)
      · exact h
  | removeChar addr i pos count =>
      refine forall_modify h fun o ho cs hcs => ?_
      obtain ⟨ds, hds, rfl⟩ := Option.map_eq_some_iff.1 hcs
      exact good_removeChar (hget i o ho ds hds) (hrule o ho ds hds)
  | split addr addrLeft i idx =>
      refine forall_append_map (forall_modify h fun o ho cs hcs => ?_)
        fun o ho cs hcs => ?_
      · obtain ⟨ds, hds, rfl⟩ := Option.map_eq_some_iff.1 hcs
        exact (good_split (hget i o ho ds hds) (hrule o ho ds hds)).2
      · obtain ⟨ds, hds, rfl⟩ := Option.map_eq_some_iff.1 hcs
        exact (good_split (hget i o ho ds hds) (hrule o ho ds hds)).1
  | substr addr i begin length =>
      refine forall_append_map h fun o ho cs hcs => ?_
      obtain ⟨ds, hds, rfl⟩ := Option.map_eq_some_iff.1 hcs
      exact good_substr (hget i o ho ds hds) (hrule o ho ds hds)
  | clear addr i =>
      exact forall_modify h fun o _ cs hcs =>
        Option.some.inj hcs ▸ UTF8.clear_sound
  | index i idx =>
      exact forall_modify h fun o ho cs hcs =>
        UTF8.index_sound (hget i o ho cs hcs) idx

/-! ## The run -/

/-- The string is a faithful representation of the code points: the buffer holds
their standard UTF-8 and a zero behind it, the count and the cached pair are
right, and every read returns its code point. -/
structure Represents (u : UTF8) (cs : List Char) : Prop where
  allocated : u.bytes.length = u.sizeAllocated
  room : u.sizeUsed - 1 < u.sizeAllocated
  text : u.bytes.take (u.sizeUsed - 1) = utf8 cs
  terminator : u.bytes[u.sizeUsed - 1]? = some 0
  strLength : u.strLength = cs.length
  cached : u.lastIndex ≤ cs.length ∧
    u.lastIndexData = ⟨u.addr, offset cs u.lastIndex⟩
  reads : ∀ i (h : i < cs.length), (u.index i).1 = cs[i].val

theorem Sound.represents {u : UTF8} {cs : List Char} (h : Sound u cs) :
    Represents u cs := by
  have hroom := h.text.room
  have hused : u.sizeUsed - 1 = (utf8 cs).length := by
    rw [h.text.sizeUsed, Nat.add_sub_cancel]
  refine ⟨?_, by rw [hused]; exact hroom, ?_, ?_, h.text.strLength,
    ⟨h.cached.inside, h.cached.pointer⟩, fun i hi => ?_⟩
  · rw [h.text.bytes, List.length_append, length_zeroed]
    omega
  · rw [hused, h.text.bytes, List.take_left]
  · obtain ⟨k, hk⟩ : ∃ k, u.sizeAllocated - (utf8 cs).length = k + 1 :=
      ⟨u.sizeAllocated - (utf8 cs).length - 1, by omega⟩
    rw [hused, h.text.bytes, List.getElem?_append_right (Nat.le_refl _),
      Nat.sub_self, hk, zeroed_succ]
    rfl
  · rw [UTF8.index_eq h hi]

/-- Every run within the rule, from no strings at all: in every state it goes
through every string represents the code points expected of it. -/
theorem run_represents {ops : List Op} (hrule : EveryStep Rule step [] ops) :
    ∀ k, ∀ o ∈ (ops.take k).foldl step [], ∀ cs, o.text = some cs →
      Represents o.str cs := by
  intro k o ho cs hcs
  have hprefix : EveryStep Rule step [] (ops.take k) := by
    rw [← List.take_append_drop k ops, everyStep_append] at hrule
    exact hrule.1
  have hgood := (@everyStep_of_rule _ _ (fun objs => ∀ o ∈ objs, Good o)
    (fun _ _ => True) Rule step (fun _ _ _ _ => trivial)
    (fun _ _ h hr => step_good h hr) _ _ (by simp) hprefix).2
  exact (hgood o ho cs hcs).represents

/-- Two strings, a read in the middle, an insertion in front of the pair by a
code point as long as the one it displaces, and a concatenation. -/
def exampleOps : List Op :=
  [.ofString 1 ['ą', 'ę', '!'], .index 0 1, .insert 2 0 'ł' [] 0,
    .ofCString 3 ['😁'], .append 4 0 1, .index 0 4]

theorem run_represents_example :
    EveryStep Rule step [] exampleOps ∧
      ∀ o ∈ (exampleOps.take 6).foldl step [], ∀ cs, o.text = some cs →
        Represents o.str cs := by
  have hrule : EveryStep Rule step [] exampleOps := by
    rw [exampleOps]
    refine ⟨by unfold Rule; decide, trivial, fun o ho cs hcs k hk => ?_, trivial,
      trivial, trivial, trivial⟩
    cases ho
    cases hcs
    cases hk
    decide
  exact ⟨hrule, run_represents hrule 6⟩

/-- `UTF8 s("ąb"); s[1]; s.insert("a", 0);` and then `s[2]` is zero: the pair
points into the middle of the first character. -/
theorem insert_breaks_cache :
    ¬ ∀ (ops : List Op) (k : Nat), ∀ o ∈ (ops.take k).foldl step [],
      ∀ cs, o.text = some cs → Represents o.str cs := by
  intro h
  have hrep := h [.ofString 1 ['ą', 'b'], .index 0 1, .insert 2 0 'a' [] 0] 3 _
    List.mem_cons_self ['a', 'ą', 'b'] rfl
  exact absurd (hrep.reads 2 (by decide)) (by decide)

end MuditaOS.Unicode
