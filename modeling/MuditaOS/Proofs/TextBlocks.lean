import MuditaOS.Proofs.TextMoves
import Mathlib.Data.List.InsertIdx
import Mathlib.Data.List.Nodup
import Mathlib.Data.List.TakeWhile

/-!
# The blocks of a document that is edited

A block is a line: a body without a newline, and its end. Every edit of a
session works on one line and its neighbour, so that a document stays a list of
lines, the last of them open, each under a number of its own. A split is the
exception: it copies both halves through a C string, and a line that holds a
zero comes out shorter.
-/

namespace MuditaOS.Gui

open BlockCursor

/-! ## Lists -/

section Lists

variable {α : Type*} {xs ys : List α} {x : α} {i : Nat}

theorem insertIdx_append_left (h : i ≤ xs.length) :
    (xs ++ ys).insertIdx i x = xs.insertIdx i x ++ ys := by
  induction xs generalizing i with
  | nil =>
      obtain rfl : i = 0 := Nat.le_zero.1 h
      rfl
  | cons a xs ih =>
      cases i with
      | zero => rfl
      | succ i =>
          rw [List.cons_append, List.insertIdx_succ_cons, List.insertIdx_succ_cons,
            ih (Nat.le_of_succ_le_succ h), List.cons_append]

theorem insertIdx_append_right :
    (xs ++ ys).insertIdx (xs.length + i) x = xs ++ ys.insertIdx i x :=
  List.modifyTailIdx_add _ i xs ys

theorem modify_append_cons {f : α → α} :
    (xs ++ x :: ys).modify xs.length f = xs ++ f x :: ys :=
  List.modifyTailIdx_add _ 0 xs (x :: ys)

theorem insertIdx_eq_take_drop (h : i ≤ xs.length) :
    xs.insertIdx i x = xs.take i ++ x :: xs.drop i := by
  have hlen : (xs.take i).length = i := List.length_take_of_le h
  have hins : (xs.take i ++ xs.drop i).insertIdx ((xs.take i).length + 0) x =
      xs.take i ++ (xs.drop i).insertIdx 0 x := insertIdx_append_right
  rw [hlen, List.take_append_drop, Nat.add_zero, List.insertIdx_zero] at hins
  exact hins

end Lists

/-! ## Lines -/

def End.text : End → Codes
  | .newline => [Gui.newline]
  | .none => []

/-- The block is this body and this end. -/
structure Line (b : TextBlock) (body : Codes) (eol : End) : Prop where
  text : b.text = body ++ eol.text
  clean : newline ∉ body

namespace Line

variable {b : TextBlock} {body : Codes} {eol : End} {p : Nat} {code : UInt32}

theorem getEnd (h : Line b body eol) : b.getEnd = eol := by
  cases eol with
  | newline =>
      rw [TextBlock.getEnd_eq_newline, h.text]
      simp [End.text]
  | none =>
      have hnot : ¬ b.getEnd = .newline := by
        rw [TextBlock.getEnd_eq_newline, h.text, End.text, List.append_nil]
        intro hlast
        exact h.clean (List.mem_of_getLast? hlast)
      rcases b.end_cases with ⟨hend, _⟩ | ⟨hend, _⟩
      · exact absurd hend hnot
      · exact hend

theorem lastPos (h : Line b body eol) : lastPos b = body.length := by
  rw [BlockCursor.lastPos, h.getEnd, TextBlock.length, h.text, List.length_append]
  cases eol with
  | newline => rfl
  | none => rfl

theorem length (h : Line b body eol) : b.text.length = body.length + eol.text.length := by
  rw [h.text, List.length_append]

theorem addChar (h : Line b body eol) (hp : p ≤ body.length) (hcode : code ≠ newline)
    (henc : Unicode.encode code ≠ none) :
    Line (b.addChar code (some p)) (body.insertIdx p code) eol := by
  obtain ⟨enc, henc⟩ := Option.ne_none_iff_exists'.1 henc
  constructor
  · rw [TextBlock.addChar, Codes.insertCode, henc, h.text]
    dsimp only [Option.getD_some]
    rw [if_neg (by rw [List.length_append]; omega), insertIdx_append_left hp]
  · intro hmem
    rcases List.eq_or_mem_of_mem_insertIdx hmem with heq | hmem
    · exact hcode heq.symm
    · exact h.clean hmem

theorem addChar_refused (henc : Unicode.encode code = none) :
    b.addChar code (some p) = b := by
  rw [TextBlock.addChar, Codes.insertCode, henc]

/-- Within the body. -/
theorem removeChar_body (h : Line b body eol) (hp : p < body.length) :
    Line (b.removeChar p) (body.eraseIdx p) eol := by
  constructor
  · rw [TextBlock.removeChar, Codes.removeChar, h.text,
      if_neg (by rw [List.length_append]; omega), List.eraseIdx_append_of_lt_length hp]
  · intro hmem
    exact h.clean (List.mem_of_mem_eraseIdx hmem)

/-- The newline. -/
theorem removeChar_newline (h : Line b body .newline) :
    Line (b.removeChar body.length) body .none := by
  refine ⟨?_, h.clean⟩
  rw [TextBlock.removeChar, Codes.removeChar, h.text,
    if_neg (by rw [List.length_append]; simp [End.text]),
    List.eraseIdx_append_of_length_le (Nat.le_refl _), Nat.sub_self]
  rfl

/-- A character of the line goes, and an open line stays open. -/
theorem removeChar (h : Line b body eol) (hp : p ≤ body.length) (hlt : p < b.text.length) :
    ∃ body' eol', Line (b.removeChar p) body' eol' ∧ p ≤ body'.length ∧
      (eol = .none → eol' = .none) := by
  rcases Nat.lt_or_eq_of_le hp with hlt' | rfl
  · refine ⟨_, _, h.removeChar_body hlt', ?_, id⟩
    rw [List.length_eraseIdx_of_lt hlt']
    omega
  · cases eol with
    | newline => exact ⟨_, _, h.removeChar_newline, Nat.le_refl _, fun _ => rfl⟩
    | none =>
        rw [h.length, End.text, List.length_nil] at hlt
        exact absurd hlt (Nat.lt_irrefl _)

end Line

theorem TextBlock.removeChar_text {b : TextBlock} {p : Nat} (h : p < b.text.length) :
    (b.removeChar p).text = b.text.eraseIdx p := by
  rw [TextBlock.removeChar, Codes.removeChar, if_neg (by omega)]

/-! ## One node among others -/

section Nodes

variable {doc : TextDocument} {before after : List Node} {node : Node}
  {f : TextBlock → TextBlock}

theorem id_ne_of_nodup (h : ((before ++ node :: after).map (·.id)).Nodup) :
    (∀ other ∈ before, other.id ≠ node.id) ∧ ∀ other ∈ after, other.id ≠ node.id := by
  rw [List.map_append, List.map_cons, List.nodup_middle, List.nodup_cons] at h
  constructor
  · intro other hother heq
    exact h.1 (List.mem_append_left _ (heq ▸ List.mem_map_of_mem hother))
  · intro other hother heq
    exact h.1 (List.mem_append_right _ (heq ▸ List.mem_map_of_mem hother))

theorem deref_eq (hblocks : doc.blocks = before ++ node :: after)
    (hids : (doc.blocks.map (·.id)).Nodup) : doc.deref node.id = some node := by
  rw [hblocks] at hids
  have hne := (id_ne_of_nodup hids).1
  rw [TextDocument.deref, hblocks, List.find?_append, List.find?_cons_of_pos (by simp),
    List.find?_eq_none.2 (by simpa using hne), Option.none_or]

theorem deref_eq_none {id : Nat} (h : ∀ node ∈ doc.blocks, node.id ≠ id) :
    doc.deref id = none :=
  List.find?_eq_none.2 (by simpa using h)

theorem update_eq (hblocks : doc.blocks = before ++ node :: after)
    (hids : (doc.blocks.map (·.id)).Nodup) :
    doc.update node.id f =
      { doc with blocks := before ++ { node with block := f node.block } :: after } := by
  rw [hblocks] at hids
  obtain ⟨hbefore, hafter⟩ := id_ne_of_nodup hids
  have hkeep : ∀ nodes : List Node, (∀ other ∈ nodes, other.id ≠ node.id) →
      nodes.map (fun other => if other.id = node.id then
        { other with block := f other.block } else other) = nodes := by
    intro nodes hne
    conv => rhs; rw [← List.map_id nodes]
    exact List.map_congr_left fun other hother => if_neg (hne other hother)
  rw [TextDocument.update, hblocks, List.map_append, List.map_cons, if_pos rfl, hkeep before hbefore, hkeep after hafter]

theorem removeBlock_eq (hblocks : doc.blocks = before ++ node :: after)
    (hids : (doc.blocks.map (·.id)).Nodup) :
    doc.removeBlock node.id = { doc with blocks := before ++ after } := by
  rw [hblocks] at hids
  obtain ⟨hbefore, hafter⟩ := id_ne_of_nodup hids
  rw [TextDocument.removeBlock, hblocks, List.filter_append, List.filter_cons_of_neg (by simp),
    List.filter_eq_self.2 (by simpa using hbefore), List.filter_eq_self.2 (by simpa using hafter)]

end Nodes

/-! ## Lines under numbers of their own -/

structure Shaped (nodes : List Node) (nextId : Nat) : Prop where
  ids : (nodes.map (·.id)).Nodup
  lt : ∀ node ∈ nodes, node.id < nextId
  lines : ∀ node ∈ nodes, ∃ body eol, Line node.block body eol
  openEnd : OpenEnd nodes

theorem openEnd_cons {node : Node} {nodes : List Node} :
    OpenEnd (node :: nodes) ↔ (nodes = [] → node.block.getEnd = .none) ∧ OpenEnd nodes := by
  cases nodes with
  | nil => simp [OpenEnd]
  | cons next nodes => simp [OpenEnd]

theorem openEnd_append_cons {node : Node} {xs ys : List Node} :
    OpenEnd (xs ++ node :: ys) ↔ OpenEnd (node :: ys) := by
  rw [OpenEnd, OpenEnd, List.getLast?_append_of_ne_nil _ (List.cons_ne_nil _ _)]

theorem OpenEnd.suffix {xs ys : List Node} (h : OpenEnd ys) (hsuffix : xs <:+ ys) :
    OpenEnd xs := by
  obtain ⟨pre, rfl⟩ := hsuffix
  cases xs with
  | nil => simp [OpenEnd]
  | cons node xs => exact openEnd_append_cons.1 h

namespace Shaped

variable {before after after' : List Node} {node : Node} {nextId : Nat} {b : TextBlock}

theorem line (h : Shaped (before ++ node :: after) nextId) :
    ∃ body eol, Line node.block body eol :=
  h.lines node (by simp)

theorem last (h : Shaped (before ++ node :: after) nextId) (hafter : after = []) :
    node.block.getEnd = .none :=
  (openEnd_cons.1 (openEnd_append_cons.1 h.openEnd)).1 hafter

theorem suffix {nodes nodes' : List Node} (h : Shaped nodes nextId) (hsuffix : nodes' <:+ nodes) :
    Shaped nodes' nextId where
  ids := h.ids.sublist (hsuffix.sublist.map _)
  lt node hnode := h.lt node (hsuffix.subset hnode)
  lines node hnode := h.lines node (hsuffix.subset hnode)
  openEnd := h.openEnd.suffix hsuffix

/-- One line becomes another, and lines next to it go. -/
theorem replace (h : Shaped (before ++ node :: after) nextId)
    (hline : ∃ body eol, Line b body eol) (hsuffix : after' <:+ after)
    (hlast : after' = [] → b.getEnd = .none) :
    Shaped (before ++ { node with block := b } :: after') nextId where
  ids := by
    refine h.ids.sublist ?_
    rw [List.map_append, List.map_append, List.map_cons, List.map_cons]
    exact (List.Sublist.refl _).append ((hsuffix.sublist.map _).cons_cons _)
  lt other hother := by
    rcases List.mem_append.1 hother with hmem | hmem
    · exact h.lt other (List.mem_append_left _ hmem)
    · rcases List.mem_cons.1 hmem with rfl | hmem
      · exact h.lt node (by simp)
      · exact h.lt other (List.mem_append_right _ (List.mem_cons_of_mem _ (hsuffix.subset hmem)))
  lines other hother := by
    rcases List.mem_append.1 hother with hmem | hmem
    · exact h.lines other (List.mem_append_left _ hmem)
    · rcases List.mem_cons.1 hmem with rfl | hmem
      · exact hline
      · exact h.lines other
          (List.mem_append_right _ (List.mem_cons_of_mem _ (hsuffix.subset hmem)))
  openEnd := by
    have hopen := (openEnd_cons.1 (openEnd_append_cons.1 h.openEnd)).2
    exact openEnd_append_cons.2 (openEnd_cons.2 ⟨hlast, hopen.suffix hsuffix⟩)

theorem mem_inserted {other new : Node} :
    other ∈ before ++ node :: new :: after ↔ other = new ∨ other ∈ before ++ node :: after := by
  simp only [List.mem_append, List.mem_cons]
  tauto

/-- A line with a new number comes next. -/
theorem insert (h : Shaped (before ++ node :: after) nextId)
    (hline : ∃ body eol, Line b body eol) (hlast : after = [] → b.getEnd = .none) :
    Shaped (before ++ node :: ⟨nextId, b⟩ :: after) (nextId + 1) where
  ids := by
    have hfresh : nextId ∉ (before ++ node :: after).map (·.id) := by
      intro hmem
      obtain ⟨other, hother, heq⟩ := List.mem_map.1 hmem
      exact absurd (h.lt other hother) (by omega)
    have hsplit : before ++ node :: ⟨nextId, b⟩ :: after =
        (before ++ [node]) ++ ⟨nextId, b⟩ :: after := by simp
    rw [hsplit, List.map_append, List.map_cons, List.nodup_middle, ← List.map_append,
      List.append_assoc]
    exact List.nodup_cons.2 ⟨hfresh, h.ids⟩
  lt other hother := by
    rcases mem_inserted.1 hother with rfl | hmem
    · exact Nat.lt_succ_self _
    · exact Nat.lt_succ_of_lt (h.lt other hmem)
  lines other hother := by
    rcases mem_inserted.1 hother with rfl | hmem
    · exact hline
    · exact h.lines other hmem
  openEnd := by
    have hopen := (openEnd_cons.1 (openEnd_append_cons.1 h.openEnd)).2
    refine openEnd_append_cons.2 (openEnd_cons.2 ⟨?_, openEnd_cons.2 ⟨hlast, hopen⟩⟩)
    exact fun hnil => absurd hnil (List.cons_ne_nil _ _)

end Shaped

/-! ## A newline splits a line -/

section Split

variable {text t body : Codes} {eol : End} {b : TextBlock} {start length p : Nat}

/-- What a C string keeps of a text. -/
def untilZero (text : Codes) : Codes := text.takeWhile (· ≠ 0)

theorem untilZero_eq (h : 0 ∉ text) : untilZero text = text := by
  rw [untilZero, List.takeWhile_eq_self_iff]
  intro code hcode
  exact decide_eq_true (fun heq => h (heq ▸ hcode))

theorem length_untilZero_lt (h : 0 ∈ text) : (untilZero text).length < text.length := by
  refine Nat.lt_of_le_of_ne (List.takeWhile_prefix _).length_le fun hlen => ?_
  have heq : untilZero text = text := (List.takeWhile_prefix _).eq_of_length hlen
  rw [untilZero, List.takeWhile_eq_self_iff] at heq
  exact of_decide_eq_true (heq 0 h) rfl

theorem length_untilZero_le : (untilZero text).length ≤ text.length :=
  (List.takeWhile_prefix _).length_le

theorem not_mem_untilZero {code : UInt32} (h : code ∉ text) : code ∉ untilZero text :=
  fun hmem => h ((List.takeWhile_prefix _).subset hmem)

theorem substr_eq (h : start + length ≤ text.length) :
    Codes.substr text start length = untilZero ((text.drop start).take length) := by
  rw [Codes.substr]
  split
  · rename_i hor
    obtain rfl : length = 0 := by omega
    rw [List.take_zero]
    rfl
  · rfl

theorem insertCode_newline : Codes.insertCode t newline t.length = t ++ [newline] := by
  have henc : Unicode.encode newline = some (0x0A, 1) := by decide
  rw [Codes.insertCode, henc]
  dsimp only
  rw [if_neg (Nat.lt_irrefl _), List.insertIdx_length_self]

theorem Line.setEnd_newline (h : Line b body .none) : Line (b.setEnd .newline) body .newline := by
  refine ⟨?_, h.clean⟩
  rw [TextBlock.setEnd, if_pos ⟨rfl, by rw [h.getEnd]; decide⟩, insertCode_newline, h.text]
  simp [End.text]

theorem Line.setEnd_none (h : Line b body .none) : b.setEnd .none = b := by
  rw [TextBlock.setEnd, if_neg (by simp), h.getEnd, if_neg (by simp)]

theorem ofText_line (h : Line ⟨t⟩ body eol) : TextBlock.ofText t eol = ⟨t⟩ := by
  rw [TextBlock.ofText, h.getEnd, if_neg fun hne => hne.1 hne.2]

theorem ofText_open (h : newline ∉ t) : Line (TextBlock.ofText t eol) t eol := by
  have hline : Line ⟨t⟩ t .none := ⟨(List.append_nil t).symm, h⟩
  cases eol with
  | none => rw [ofText_line hline]; exact hline
  | newline =>
      refine ⟨?_, h⟩
      rw [TextBlock.ofText, hline.getEnd, if_pos ⟨by decide, rfl⟩, insertCode_newline]
      rfl

/-- What is left of a split line. -/
theorem Line.left (h : Line b body eol) (hp : p ≤ body.length) :
    Line (TextBlock.setEnd ⟨Codes.substr b.text 0 p⟩ .newline) (untilZero (body.take p))
      .newline := by
  have hclean : newline ∉ untilZero (body.take p) :=
    not_mem_untilZero fun hmem => h.clean (List.mem_of_mem_take hmem)
  refine Line.setEnd_newline ⟨?_, hclean⟩
  rw [substr_eq (by rw [h.length]; omega), List.drop_zero, h.text,
    List.take_append_of_le_length hp, End.text, List.append_nil]

/-- And the line that comes next. -/
theorem Line.right (h : Line b body eol) (hp : p ≤ body.length) :
    Line (TextBlock.ofText (b.getTextFrom p) b.getEnd) (untilZero (body.drop p)) eol := by
  have hclean : newline ∉ body.drop p := fun hmem => h.clean (List.mem_of_mem_drop hmem)
  have htext : b.getTextFrom p = untilZero (body.drop p ++ eol.text) := by
    rw [TextBlock.getTextFrom, substr_eq (by rw [h.length]; omega),
      List.take_of_length_le (Nat.le_of_eq List.length_drop), h.text,
      List.drop_append_of_le_length hp]
  rw [h.getEnd, htext]
  by_cases hzero : 0 ∈ body.drop p
  · have hcut : untilZero (body.drop p ++ eol.text) = untilZero (body.drop p) := by
      rw [untilZero, List.takeWhile_append]
      exact if_neg (Nat.ne_of_lt (length_untilZero_lt hzero))
    rw [hcut]
    exact ofText_open (not_mem_untilZero hclean)
  · have hall : 0 ∉ body.drop p ++ eol.text := by
      rw [List.mem_append, not_or]
      refine ⟨hzero, ?_⟩
      cases eol with
      | newline => decide
      | none => decide
    rw [untilZero_eq hall, untilZero_eq hzero]
    have hline : Line ⟨body.drop p ++ eol.text⟩ (body.drop p) eol := ⟨rfl, hclean⟩
    rw [ofText_line hline]
    exact hline

variable {doc : TextDocument} {before after : List Node} {node : Node} {nextId : Nat}

theorem split_eq (h : doc.blocks = before ++ node :: after) :
    doc.split before.length p =
      { blocks := before ++ { node with block := ⟨Codes.substr node.block.text 0 p⟩ } ::
          ⟨doc.nextId, .ofText (node.block.getTextFrom p) node.block.getEnd⟩ :: after
        nextId := doc.nextId + 1 } := by
  have hget : doc.blocks[before.length]? = some node := by
    rw [h]
    simp
  have hdrop : doc.blocks.drop (before.length + 1) = after := by
    rw [h]
    simp
  rw [TextDocument.split, hget]
  dsimp only
  rw [hdrop, h, List.take_left]

theorem setEndAt_eq : TextDocument.setEndAt ⟨before ++ node :: after, nextId⟩ before.length eol =
    ⟨before ++ { node with block := node.block.setEnd eol } :: after, nextId⟩ := by
  rw [TextDocument.setEndAt]
  dsimp only
  rw [modify_append_cons]

theorem addNewline_eq (h : doc.blocks = before ++ node :: after)
    (hline : Line node.block body eol) (hp : p ≤ body.length)
    (hlast : after = [] → eol = .none) :
    ∃ left right, Line left (untilZero (body.take p)) .newline ∧
      Line right (untilZero (body.drop p)) eol ∧
      doc.addNewline before.length p .newline =
        { blocks := before ++ { node with block := left } :: ⟨doc.nextId, right⟩ :: after
          nextId := doc.nextId + 1 } := by
  have hright := hline.right hp
  refine ⟨_, _, hline.left hp, hright, ?_⟩
  rw [TextDocument.addNewline, split_eq h, setEndAt_eq]
  dsimp only
  cases after with
  | nil =>
      -- The new line is the last, and it is open already.
      obtain rfl := hlast rfl
      have hopen := @setEndAt_eq .none (before ++ [{ node with
        block := TextBlock.setEnd ⟨Codes.substr node.block.text 0 p⟩ .newline }]) []
        ⟨doc.nextId, .ofText (node.block.getTextFrom p) node.block.getEnd⟩ (doc.nextId + 1)
      rw [hright.setEnd_none, List.length_append, List.append_assoc] at hopen
      rw [if_pos (by simp)]
      exact hopen
  | cons next after =>
      rw [if_neg (by simp only [List.length_append, List.length_cons]; omega)]

end Split

end MuditaOS.Gui
