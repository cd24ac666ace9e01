import MuditaOS.Gui.TextEditor
import Mathlib.Data.List.Basic

/-!
# Moving the cursor

A cursor in a document is `Here` when the blocks are those before it, its own
and those after it. From there each of the two steps goes one position on, to
the neighbour block or nowhere, and a move is one step, or two where the block
that was left ends without a newline. So it passes one character, unless an
empty block is in the way.
-/

namespace MuditaOS.Gui

open BlockCursor

/-! ## Blocks -/

theorem TextBlock.getEnd_eq_newline {b : TextBlock} :
    b.getEnd = .newline ↔ b.text.getLast? = some newline := by
  rw [TextBlock.getEnd]
  constructor
  · intro h
    split at h
    · rename_i hlast; exact hlast.2
    · cases h
  · intro h
    have hne : b.text ≠ [] := by
      intro hnil
      rw [hnil] at h
      cases h
    rw [if_pos ⟨List.length_pos_iff.2 hne, h⟩]

theorem TextBlock.isEmpty_iff {b : TextBlock} : b.isEmpty ↔ b.text = [] := by
  rw [TextBlock.isEmpty, Bool.and_eq_true, beq_iff_eq, List.length_eq_zero_iff]
  constructor
  · exact And.left
  · intro h
    exact ⟨h, by simp [TextBlock.getEnd, h]⟩

/-- A block ends with a newline, before which its last position is, or without. -/
theorem TextBlock.end_cases (b : TextBlock) :
    (b.getEnd = .newline ∧ ∃ front, b.text = front ++ [newline] ∧ lastPos b = front.length) ∨
      (b.getEnd = .none ∧ lastPos b = b.text.length) := by
  by_cases h : b.getEnd = .newline
  · left
    obtain ⟨front, hfront⟩ := List.getLast?_eq_some_iff.1 (TextBlock.getEnd_eq_newline.1 h)
    refine ⟨h, front, hfront, ?_⟩
    rw [lastPos, if_neg (not_not_intro h), TextBlock.length, hfront]
    simp
  · right
    rw [lastPos, if_pos h, TextBlock.length]
    refine ⟨?_, rfl⟩
    cases hend : b.getEnd with
    | newline => exact absurd hend h
    | none => rfl

theorem lastPos_le (b : TextBlock) : lastPos b ≤ b.text.length := by
  rcases b.end_cases with ⟨_, front, htext, hlast⟩ | ⟨_, hlast⟩
  · rw [hlast, htext, List.length_append]
    omega
  · exact Nat.le_of_eq hlast

theorem TextBlock.getEnd_of_nil {b : TextBlock} (h : b.text = []) : b.getEnd = .none := by
  simp [TextBlock.getEnd, h]

theorem lastPos_of_none {b : TextBlock} (h : b.getEnd = .none) : lastPos b = b.text.length := by
  rw [lastPos, if_pos (by rw [h]; decide), TextBlock.length]

/-! ## The place of a cursor -/

def textOf (nodes : List Node) : Codes := nodes.flatMap (·.block.text)

@[simp] theorem textOf_nil : textOf [] = [] := rfl

@[simp] theorem textOf_cons {node : Node} {nodes : List Node} :
    textOf (node :: nodes) = node.block.text ++ textOf nodes := rfl

@[simp] theorem textOf_append {as bs : List Node} : textOf (as ++ bs) = textOf as ++ textOf bs :=
  List.flatMap_append

/-- The cursor is at position `p` of `node`. -/
structure Here (c : BlockCursor) (before : List Node) (node : Node) (after : List Node)
    (p : Nat) : Prop where
  blocks : c.document.blocks = before ++ node :: after
  number : c.currentBlockNumber = some before.length
  pos : c.pos = some p

namespace Here

variable {c : BlockCursor} {before after : List Node} {node : Node} {p : Nat}

theorem currentBlock (h : Here c before node after p) : c.currentBlock = some node := by
  rw [BlockCursor.currentBlock, h.number, h.blocks]
  simp

theorem checkDocument (h : Here c before node after p) : c.checkDocument = true := by
  rw [BlockCursor.checkDocument, h.blocks, List.length_append, List.length_cons]
  exact decide_eq_true (by omega)

theorem checkNpos (h : Here c before node after p) : c.checkNpos = false := by
  simp [BlockCursor.checkNpos, h.number, h.pos]

theorem resetNpos (h : Here c before node after p) : c.resetNpos = c := by
  obtain ⟨document, pos, number⟩ := c
  obtain ⟨_, hnumber, hpos⟩ := h
  dsimp only at hnumber hpos
  rw [hnumber, hpos]
  rfl

theorem getAbsolutePosition (h : Here c before node after p) :
    c.getAbsolutePosition = some ((textOf before).length + p) := by
  rw [BlockCursor.getAbsolutePosition, h.pos, h.number, h.blocks]
  simp [textOf, List.length_flatMap, TextBlock.length]

theorem getText (h : Here c before node after p) :
    c.document.getText = textOf before ++ (node.block.text ++ textOf after) := by
  rw [TextDocument.getText, h.blocks]
  exact textOf_append

theorem checkCurrentBlockNoNewLine (h : Here c before node after p) :
    c.checkCurrentBlockNoNewLine = (node.block.getEnd == .none) := by
  rw [BlockCursor.checkCurrentBlockNoNewLine, h.currentBlock]

theorem checkPreviousBlockNoNewLine {last : Node} (h : Here c (before ++ [last]) node after p) :
    c.checkPreviousBlockNoNewLine = (last.block.getEnd == .none) := by
  rw [BlockCursor.checkPreviousBlockNoNewLine, h.number, h.blocks, List.length_append]
  simp

end Here

/-! ## One step -/

section Step

variable {c : BlockCursor} {before after : List Node} {node next : Node} {p : Nat}

theorem reached_iff {b : TextBlock} (hp : p ≤ lastPos b) :
    (b.getEnd = .newline ∧ p + 1 = b.length ∨ p ≥ b.length) ↔ p = lastPos b := by
  rcases b.end_cases with ⟨hend, front, htext, hlast⟩ | ⟨hend, hlast⟩
  · rw [hlast] at hp
    rw [TextBlock.length, htext, hlast, hend, List.length_append]
    simp only [List.length_singleton, true_and]
    omega
  · rw [hlast] at hp
    rw [TextBlock.length, hlast, hend]
    simp only [reduceCtorEq, false_and, false_or]
    omega

theorem increment_eq (h : Here c before node after p) (hp : p ≤ lastPos node.block) :
    c.increment =
      if p = lastPos node.block ∧ before.length + 1 = c.document.blocks.length then c
      else if p = lastPos node.block then c.goToNextBlock
      else { c with pos := some (p + 1) } := by
  rw [increment, h.checkDocument, h.resetNpos]
  simp only [Bool.not_true, Bool.false_eq_true, if_false, h.pos, h.number, h.currentBlock,
    reached_iff hp]

/-- Within the block. -/
theorem increment_inside (h : Here c before node after p) (hp : p < lastPos node.block) :
    Here c.increment before node after (p + 1) := by
  rw [increment_eq h (Nat.le_of_lt hp), if_neg fun h => absurd h.1 (Nat.ne_of_lt hp),
    if_neg (Nat.ne_of_lt hp)]
  exact ⟨h.blocks, h.number, rfl⟩

/-- To the next block. -/
theorem increment_next (h : Here c before node (next :: after) p)
    (hp : p = lastPos node.block) : Here c.increment (before ++ [node]) next after 0 := by
  have hlast : ¬ before.length + 1 = c.document.blocks.length := by
    rw [h.blocks]
    simp
  rw [increment_eq h (Nat.le_of_eq hp), if_neg fun h => hlast h.2, if_pos hp, goToNextBlock,
    h.number]
  dsimp only
  rw [if_pos (by rw [h.blocks]; simp)]
  exact ⟨by simpa using h.blocks, by simp, rfl⟩

/-- At the end of the last block it stays. -/
theorem increment_last (h : Here c before node [] p) (hp : p = lastPos node.block) :
    c.increment = c := by
  have hlast : before.length + 1 = c.document.blocks.length := by
    rw [h.blocks]
    simp
  rw [increment_eq h (Nat.le_of_eq hp), if_pos ⟨hp, hlast⟩]

theorem decrement_eq (h : Here c before node after p) :
    c.decrement =
      match p, before.length with
      | 0, 0 => c
      | 0, _ => c.goToPreviousBlock
      | p + 1, _ => { c with pos := some p } := by
  rw [decrement, h.checkDocument, h.resetNpos]
  simp only [Bool.not_true, Bool.false_eq_true, if_false, h.pos, h.number]
  cases p with
  | zero => cases before.length <;> rfl
  | succ p => rfl

theorem decrement_inside (h : Here c before node after (p + 1)) :
    Here c.decrement before node after p := by
  rw [decrement_eq h]
  exact ⟨h.blocks, h.number, rfl⟩

theorem decrement_previous (h : Here c (before ++ [next]) node after 0) :
    Here c.decrement before next (node :: after) (lastPos next.block) := by
  have hnumber : c.currentBlockNumber = some (before.length + 1) := by
    rw [h.number, List.length_append]
    rfl
  have hget : c.document.blocks[before.length]? = some next := by
    rw [h.blocks]
    simp
  rw [decrement_eq h, List.length_append]
  dsimp only [List.length_singleton]
  rw [goToPreviousBlock, hnumber]
  dsimp only
  rw [hget]
  exact ⟨by simpa using h.blocks, rfl, rfl⟩

/-- At the beginning of the first block it stays. -/
theorem decrement_first (h : Here c [] node after 0) : c.decrement = c := by
  rw [decrement_eq h]
  rfl

end Step

/-! ## Steps leave the document alone -/

@[simp] theorem goToNextBlock_document {c : BlockCursor} :
    c.goToNextBlock.document = c.document := by
  rw [goToNextBlock]
  split
  · split <;> rfl
  · rfl

@[simp] theorem goToPreviousBlock_document {c : BlockCursor} :
    c.goToPreviousBlock.document = c.document := by
  rw [goToPreviousBlock]
  split
  · split <;> rfl
  · rfl

@[simp] theorem increment_document {c : BlockCursor} : c.increment.document = c.document := by
  rw [increment]
  split
  · rfl
  · dsimp only
    split
    · split
      · rfl
      · split <;> simp [resetNpos]
    · rfl

@[simp] theorem decrement_document {c : BlockCursor} : c.decrement.document = c.document := by
  rw [decrement]
  split
  · rfl
  · dsimp only
    split <;> simp [resetNpos]

theorem moveCursor_document {t : TextCursor} {direction : Direction} :
    (t.moveCursor direction).2.document = t.document := by
  cases direction with
  | left =>
      rw [TextCursor.moveCursor]
      split
      · rfl
      · split
        · rfl
        · rw [TextCursor.moveLeft]
          dsimp only
          split <;> simp
  | right =>
      rw [TextCursor.moveCursor]
      split
      · rfl
      · split
        · rfl
        · rw [TextCursor.moveRight]
          dsimp only
          split <;> simp

theorem moveCursor_startPosition {t : TextCursor} {direction : Direction} :
    (t.moveCursor direction).2.cursorStartPosition = t.cursorStartPosition := by
  cases direction with
  | left =>
      rw [TextCursor.moveCursor]
      split
      · rfl
      · split <;> rfl
  | right =>
      rw [TextCursor.moveCursor]
      split
      · rfl
      · split <;> rfl

/-! ## A move to the left -/

section Move

variable {t : TextCursor} {before after : List Node} {node prev next : Node} {p : Nat}

/-- The cursor is `i` characters behind the beginning. -/
def Placed (c : BlockCursor) (i : Nat) : Prop :=
  ∃ before node after p, Here c before node after p ∧ p ≤ lastPos node.block ∧
    i = (textOf before).length + p

/-- Also there is a character there. -/
def OnChar (c : BlockCursor) (i : Nat) : Prop :=
  ∃ before node after p, Here c before node after p ∧ p < node.block.text.length ∧
    p ≤ lastPos node.block ∧ i = (textOf before).length + p

theorem OnChar.placed {c : BlockCursor} {i : Nat} (h : OnChar c i) : Placed c i := by
  obtain ⟨before, node, after, p, hhere, _, hp, hi⟩ := h
  exact ⟨before, node, after, p, hhere, hp, hi⟩

theorem moveCursor_left_eq (h : Here t.toBlockCursor before node after p) :
    (t.moveCursor .left).2.toBlockCursor =
      if p = 0 ∧ before.length = 0 then t.toBlockCursor
      else if t.currentBlockNumber ≠ t.decrement.currentBlockNumber ∧
          t.decrement.checkCurrentBlockNoNewLine then t.decrement.decrement
      else t.decrement := by
  have hbegin : t.atBegin = (p == 0 && before.length == 0) := by
    rw [atBegin, h.checkNpos, h.pos, h.number]
    rfl
  rw [TextCursor.moveCursor, h.checkDocument]
  simp only [Bool.not_true, Bool.false_eq_true, if_false, h.checkNpos, Bool.false_or, hbegin,
    Bool.and_eq_true, beq_iff_eq]
  split
  · rfl
  · rfl

theorem moveLeft_inside (h : Here t.toBlockCursor before node after (p + 1)) :
    Here (t.moveCursor .left).2.toBlockCursor before node after p := by
  have hstep := decrement_inside h
  rw [moveCursor_left_eq h, if_neg fun h => absurd h.1 (Nat.succ_ne_zero p),
    if_neg fun hne => hne.1 (h.number.trans hstep.number.symm)]
  exact hstep

theorem moveLeft_previous (h : Here t.toBlockCursor (before ++ [prev]) node after 0) :
    (t.moveCursor .left).2.toBlockCursor =
      if prev.block.getEnd = .none then t.decrement.decrement else t.decrement := by
  have hstep := decrement_previous h
  have hne : t.currentBlockNumber ≠ t.decrement.currentBlockNumber := by
    rw [h.number, hstep.number, List.length_append]
    simp
  rw [moveCursor_left_eq h, if_neg (by simp), hstep.checkCurrentBlockNoNewLine]
  simp only [beq_iff_eq, ne_eq, hne, not_false_eq_true, true_and]

/-- A cursor that is not at the beginning goes back to the character before it,
unless an empty block is in the way. -/
theorem moveLeft_onChar {i : Nat} (h : Placed t.toBlockCursor (i + 1))
    (hstuck : ¬ StuckLeft t.toBlockCursor) :
    OnChar (t.moveCursor .left).2.toBlockCursor i := by
  obtain ⟨before, node, after, p, hhere, hp, hi⟩ := h
  cases p with
  | succ p =>
      have hlen := lastPos_le node.block
      exact ⟨before, node, after, p, moveLeft_inside hhere, by omega, by omega, by omega⟩
  | zero =>
      rcases List.eq_nil_or_concat' before with rfl | ⟨before, prev, rfl⟩
      · exact absurd hi (by simp)
      have habs : t.getAbsolutePosition = some (i + 1) := by
        rw [hhere.getAbsolutePosition, hi]
      rw [moveLeft_previous hhere]
      have hstep := decrement_previous hhere
      rcases prev.block.end_cases with ⟨hend, front, htext, hlast⟩ | ⟨hend, hlast⟩
      · -- Past the newline of the block before.
        rw [if_neg (by rw [hend]; decide)]
        refine ⟨before, prev, node :: after, _, hstep, ?_, Nat.le_refl _, ?_⟩
        · rw [hlast, htext]
          simp
        · rw [hlast]
          simp only [textOf_append, textOf_cons, textOf_nil, List.length_append, htext,
            List.length_singleton, List.length_nil] at hi
          omega
      · rw [if_pos hend]
        rw [hlast] at hstep
        simp only [textOf_append, textOf_cons, textOf_nil, List.append_nil, List.length_append]
          at hi
        cases hprev : prev.block.text.length with
        | succ l =>
            rw [hprev] at hstep
            exact ⟨before, prev, node :: after, l, decrement_inside hstep, by omega, by omega,
              by omega⟩
        | zero =>
            -- The block before is empty; one more back.
            rw [hprev] at hstep
            rcases List.eq_nil_or_concat' before with rfl | ⟨before, pprev, rfl⟩
            · exact absurd hi (by simp [hprev])
            have hstep2 := decrement_previous hstep
            rcases pprev.block.end_cases with ⟨hend2, front, htext, hlast2⟩ | ⟨hend2, _⟩
            · refine ⟨before, pprev, prev :: node :: after, _, hstep2, ?_, Nat.le_refl _, ?_⟩
              · rw [hlast2, htext]
                simp
              · rw [hlast2]
                simp only [textOf_append, textOf_cons, textOf_nil, List.length_append, htext,
                  List.length_singleton, List.length_nil] at hi
                omega
            · refine absurd ⟨before.length, pprev, prev, hhere.pos, ?_, ?_, ?_, hend2, ?_, ?_⟩
                hstuck
              · rw [hhere.number]
                simp
              · rw [hhere.blocks]
                simp
              · rw [hhere.blocks]
                simp
              · exact TextBlock.isEmpty_iff.2 (List.length_eq_zero_iff.1 hprev)
              · rw [habs]
                simp

/-- At the beginning of the text the cursor stays at the beginning. -/
theorem moveLeft_zero (h : Placed t.toBlockCursor 0) :
    Placed (t.moveCursor .left).2.toBlockCursor 0 := by
  obtain ⟨before, node, after, p, hhere, hp, hi⟩ := h
  obtain ⟨hbefore, rfl⟩ := Nat.add_eq_zero_iff.1 hi.symm
  rcases List.eq_nil_or_concat' before with rfl | ⟨before, prev, rfl⟩
  · rw [moveCursor_left_eq hhere, if_pos ⟨rfl, rfl⟩]
    exact ⟨[], node, after, 0, hhere, hp, hi⟩
  rw [moveLeft_previous hhere]
  have hstep := decrement_previous hhere
  simp only [textOf_append, textOf_cons, textOf_nil, List.append_nil, List.length_append,
    Nat.add_eq_zero_iff] at hbefore
  obtain ⟨hbefore, hprev⟩ := hbefore
  have hnil := List.length_eq_zero_iff.1 hprev
  have hlast : lastPos prev.block = 0 := Nat.le_zero.1 (hprev ▸ lastPos_le prev.block)
  rw [if_pos (TextBlock.getEnd_of_nil hnil)]
  rw [hlast] at hstep
  rcases List.eq_nil_or_concat' before with rfl | ⟨before, pprev, rfl⟩
  · rw [decrement_first hstep]
    exact ⟨[], prev, node :: after, 0, hstep, Nat.zero_le _, rfl⟩
  · have hstep2 := decrement_previous hstep
    simp only [textOf_append, textOf_cons, textOf_nil, List.append_nil, List.length_append,
      Nat.add_eq_zero_iff] at hbefore
    have hlast2 : lastPos pprev.block = 0 := Nat.le_zero.1 (hbefore.2 ▸ lastPos_le pprev.block)
    exact ⟨before, pprev, prev :: node :: after, _, hstep2, Nat.le_refl _, by omega⟩

/-- Where an empty block is in the way the cursor goes behind the last character of
an open block, and stays where it was. -/
theorem moveLeft_stuck {i : Nat} (h : Placed t.toBlockCursor i)
    (hstuck : StuckLeft t.toBlockCursor) :
    i ≠ 0 ∧ ∃ before node after,
      Here (t.moveCursor .left).2.toBlockCursor before node after node.block.text.length ∧
        node.block.getEnd = .none ∧ i = (textOf before).length + node.block.text.length := by
  obtain ⟨before, node, after, p, hhere, hp, hi⟩ := h
  obtain ⟨k, a, b, hpos, hnumber, ha, hb, hend, hempty, habs⟩ := hstuck
  obtain rfl : p = 0 := Option.some.inj (hhere.pos.symm.trans hpos)
  have hlen : before.length = k + 2 := Option.some.inj (hhere.number.symm.trans hnumber)
  rcases List.eq_nil_or_concat' before with rfl | ⟨before, prev, rfl⟩
  · exact absurd hlen (by simp)
  rcases List.eq_nil_or_concat' before with rfl | ⟨before, pprev, rfl⟩
  · exact absurd hlen (by simp)
  obtain rfl : before.length = k := by simpa using hlen
  rw [hhere.blocks] at ha hb
  obtain rfl : pprev = a := by simpa using ha
  obtain rfl : prev = b := by simpa using hb
  have hnil := TextBlock.isEmpty_iff.1 hempty
  have hlast : lastPos prev.block = 0 := by
    rw [lastPos_of_none (TextBlock.getEnd_of_nil hnil), hnil]
    rfl
  have hstep := decrement_previous hhere
  rw [hlast] at hstep
  have hstep2 := decrement_previous hstep
  rw [lastPos_of_none hend] at hstep2
  rw [moveLeft_previous hhere, if_pos (TextBlock.getEnd_of_nil hnil)]
  refine ⟨fun hzero => habs ?_, before, pprev, _, hstep2, hend, ?_⟩
  · rw [hhere.getAbsolutePosition, ← hi, hzero]
  · rw [hi]
    simp [hnil]

/-! ## A move to the right -/

theorem atEnd_eq (h : Here t.toBlockCursor before node after p) :
    t.atEnd = (after.isEmpty && decide (lastPos node.block ≤ p)) := by
  rw [atEnd, h.pos, h.number, h.blocks]
  cases after with
  | nil => simp
  | cons next after =>
      rw [List.getLast?_append, List.getLast?_cons_cons, List.getLast?_cons]
      simp

theorem moveCursor_right_eq (h : Here t.toBlockCursor before node after p) :
    (t.moveCursor .right).2.toBlockCursor =
      if after = [] ∧ lastPos node.block ≤ p then t.toBlockCursor
      else if t.currentBlockNumber ≠ t.increment.currentBlockNumber ∧
          t.increment.checkPreviousBlockNoNewLine then t.increment.increment
      else t.increment := by
  rw [TextCursor.moveCursor, h.checkDocument]
  simp only [Bool.not_true, Bool.false_eq_true, if_false, h.checkNpos, Bool.false_or, atEnd_eq h,
    Bool.and_eq_true, List.isEmpty_iff, decide_eq_true_eq]
  split
  · rfl
  · rfl

theorem moveRight_inside (h : Here t.toBlockCursor before node after p)
    (hp : p < lastPos node.block) :
    Here (t.moveCursor .right).2.toBlockCursor before node after (p + 1) := by
  have hstep := increment_inside h hp
  rw [moveCursor_right_eq h, if_neg fun hend => absurd hend.2 (Nat.not_le.2 hp),
    if_neg fun hne => hne.1 (h.number.trans hstep.number.symm)]
  exact hstep

theorem moveRight_last (h : Here t.toBlockCursor before node [] p)
    (hp : p = lastPos node.block) :
    (t.moveCursor .right).2.toBlockCursor = t.toBlockCursor := by
  rw [moveCursor_right_eq h, if_pos ⟨rfl, Nat.le_of_eq hp.symm⟩]

theorem moveRight_next (h : Here t.toBlockCursor before node (next :: after) p)
    (hp : p = lastPos node.block) :
    (t.moveCursor .right).2.toBlockCursor =
      if node.block.getEnd = .none then t.increment.increment else t.increment := by
  have hstep := increment_next h hp
  have hne : t.currentBlockNumber ≠ t.increment.currentBlockNumber := by
    rw [h.number, hstep.number, List.length_append]
    simp
  rw [moveCursor_right_eq h, if_neg fun hend => List.cons_ne_nil _ _ hend.1,
    hstep.checkPreviousBlockNoNewLine]
  simp only [beq_iff_eq, ne_eq, hne, not_false_eq_true, true_and]

/-- The last block ends without a newline. -/
def OpenEnd (nodes : List Node) : Prop := ∀ node ∈ nodes.getLast?, node.block.getEnd = .none

theorem OpenEnd.last (h : OpenEnd (before ++ [node])) : node.block.getEnd = .none :=
  h node (by simp)

theorem StuckRight.next_ne_nil {c : BlockCursor} (h : Here c before node (next :: after) p)
    (hstuck : c.StuckRight) : after ≠ [] := by
  rintro rfl
  obtain ⟨k, a, b, hnumber, ha, hb, _, hpos, hempty, habs⟩ := hstuck
  obtain rfl : before.length = k := Option.some.inj (h.number.symm.trans hnumber)
  rw [h.blocks] at ha hb
  obtain rfl : node = a := by simpa using ha
  obtain rfl : next = b := by simpa using hb
  obtain rfl : p = node.block.text.length := Option.some.inj (h.pos.symm.trans hpos)
  refine habs ?_
  rw [h.getAbsolutePosition, h.getText]
  simp [TextBlock.isEmpty_iff.1 hempty]

/-- A cursor goes past the next character, if there is one and no empty block is
in the way. -/
theorem moveRight_placed {i : Nat} (h : Placed t.toBlockCursor i)
    (hopen : OpenEnd t.document.blocks) (hstuck : ¬ StuckRight t.toBlockCursor) :
    Placed (t.moveCursor .right).2.toBlockCursor (min (i + 1) t.document.getText.length) := by
  obtain ⟨before, node, after, p, hhere, hp, hi⟩ := h
  have hlen := congrArg List.length hhere.getText
  simp only [List.length_append] at hlen
  have hle := lastPos_le node.block
  rcases Nat.lt_or_ge p (lastPos node.block) with hlt | hge
  · exact ⟨before, node, after, p + 1, moveRight_inside hhere hlt, hlt, by omega⟩
  have hpeq : p = lastPos node.block := Nat.le_antisymm hp hge
  cases after with
  | nil =>
      rw [moveRight_last hhere hpeq]
      refine ⟨before, node, [], p, hhere, hp, ?_⟩
      rcases node.block.end_cases with ⟨hend, _⟩ | ⟨_, hlast⟩
      · rw [hhere.blocks] at hopen
        exact absurd hopen.last (by rw [hend]; decide)
      · simp only [textOf_nil, List.length_nil] at hlen
        omega
  | cons next after =>
      rw [moveRight_next hhere hpeq]
      have hstep := increment_next hhere hpeq
      have hstep_i : (textOf (before ++ [node])).length =
          (textOf before).length + node.block.text.length := by
        simp
      rw [textOf_cons, List.length_append] at hlen
      rcases node.block.end_cases with ⟨hend, front, htext, hlast⟩ | ⟨hend, hlast⟩
      · -- Past the newline of the block that is left.
        rw [if_neg (by rw [hend]; decide)]
        have hfront : node.block.text.length = front.length + 1 := by
          rw [htext, List.length_append, List.length_singleton]
        exact ⟨before ++ [node], next, after, 0, hstep, Nat.zero_le _, by omega⟩
      · rw [if_pos hend]
        rcases Nat.eq_zero_or_pos (lastPos next.block) with hzero | hpos
        · cases after with
          | nil =>
              -- The last block is empty, and this is the end.
              rw [increment_last hstep hzero.symm]
              have hopen' : OpenEnd (before ++ [node] ++ [next]) := by
                simpa [hhere.blocks] using hopen
              have hnext := hopen'.last
              rw [lastPos_of_none hnext] at hzero
              exact ⟨before ++ [node], next, [], 0, hstep, Nat.zero_le _, by
                simp only [textOf_nil, List.length_nil] at hlen; omega⟩
          | cons nnext after =>
              have hstep2 := increment_next hstep hzero.symm
              refine ⟨before ++ [node] ++ [next], nnext, after, 0, hstep2, Nat.zero_le _, ?_⟩
              rw [textOf_append, List.length_append, hstep_i]
              simp only [textOf_cons, textOf_nil, List.append_nil]
              rcases next.block.end_cases with ⟨_, front, htext, hlast2⟩ | ⟨hnext, hlast2⟩
              · have hfront : next.block.text.length = front.length + 1 := by
                  rw [htext, List.length_append, List.length_singleton]
                omega
              · -- An empty block is passed only where no text follows.
                by_cases hend_i : i = t.document.getText.length
                · omega
                refine absurd ⟨before.length, node, next, hhere.number, ?_, ?_, hend, ?_, ?_, ?_⟩
                  hstuck
                · rw [hhere.blocks]
                  simp
                · rw [hhere.blocks]
                  simp
                · rw [hhere.pos, hpeq, hlast, TextBlock.length]
                · exact TextBlock.isEmpty_iff.2 (List.length_eq_zero_iff.1 (hlast2 ▸ hzero))
                · rw [hhere.getAbsolutePosition, ← hi]
                  exact fun habs => hend_i (Option.some.inj habs)
        · exact ⟨before ++ [node], next, after, 1, increment_inside hstep hpos, hpos, by
            have := lastPos_le next.block
            omega⟩

/-- Where an empty block is in the way the cursor moves and stays where it was. -/
theorem moveRight_stuck {i : Nat} (h : Placed t.toBlockCursor i)
    (hstuck : StuckRight t.toBlockCursor) :
    i ≠ t.document.getText.length ∧ Placed (t.moveCursor .right).2.toBlockCursor i := by
  obtain ⟨before, node, after, p, hhere, _, hi⟩ := h
  obtain ⟨k, a, b, hnumber, ha, hb, hend, hpos, hempty, habs⟩ := id hstuck
  obtain rfl : before.length = k := Option.some.inj (hhere.number.symm.trans hnumber)
  rw [hhere.blocks] at ha hb
  obtain rfl : node = a := by simpa using ha
  refine ⟨fun hlen => habs ?_, ?_⟩
  · rw [hhere.getAbsolutePosition, ← hi, hlen]
  cases after with
  | nil => simp at hb
  | cons next after =>
      obtain rfl : next = b := by simpa using hb
      have hnil := TextBlock.isEmpty_iff.1 hempty
      have hpeq : p = lastPos node.block := by
        rw [lastPos_of_none hend]
        exact Option.some.inj (hhere.pos.symm.trans hpos)
      have hzero : lastPos next.block = 0 :=
        Nat.le_zero.1 (by simpa [hnil] using lastPos_le next.block)
      rw [moveRight_next hhere hpeq, if_pos hend]
      obtain ⟨nnext, after, rfl⟩ := List.exists_cons_of_ne_nil (StuckRight.next_ne_nil hhere hstuck)
      refine ⟨_, nnext, after, 0, increment_next (increment_next hhere hpeq) hzero.symm,
        Nat.zero_le _, ?_⟩
      rw [hi, hpeq, lastPos_of_none hend]
      simp [hnil]

end Move

end MuditaOS.Gui
