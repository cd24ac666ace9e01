import MuditaOS.Gui.TextCursor
import MuditaOS.Lib.Run

/-!
# The text editor beside a plain one

The plain editor is one string and one index. A session types into both, and
its step stops the editor where it would use the iterator of a block that was
removed. A cursor that is nowhere yet is read where `resetNpos` puts it, at the
beginning.
-/

namespace MuditaOS.Gui

structure CodePoint where
  val : UInt32
  le : val ≤ 0x10FFFF
  deriving DecidableEq, Repr

inductive Edit where
  | addChar (code : CodePoint)
  | removeChar
  | move (direction : Direction)
  deriving DecidableEq, Repr

/-! ## The plain editor -/

structure Plain where
  text : Codes := []
  index : Nat := 0
  deriving DecidableEq, Repr

namespace Plain

def edit (s : Plain) : Edit → Plain
  | .addChar code => ⟨s.text.insertIdx s.index code.val, s.index + 1⟩
  | .removeChar => ⟨s.text.eraseIdx (s.index - 1), s.index - 1⟩
  | .move .left => { s with index := s.index - 1 }
  | .move .right => { s with index := min (s.index + 1) s.text.length }

end Plain

/-! ## Both -/

structure Typing where
  editor : TextCursor := { cursorStartPosition := .offset }
  plain : Plain := {}
  /-- An iterator was used after its block was removed. -/
  dangling : Bool := false
  deriving DecidableEq, Repr

/-- `none` is undefined. -/
def TextCursor.edit (t : TextCursor) : Edit → Option TextCursor
  | .addChar code => some (t.addChar code.val)
  | .removeChar => t.removeChar.map (·.2)
  | .move direction => some (t.moveCursor direction).2

namespace Typing

def step (s : Typing) (op : Edit) : Typing :=
  match s.editor.edit op with
  | some editor => { s with editor := editor, plain := s.plain.edit op }
  | none => { s with plain := s.plain.edit op, dangling := true }

/-- The same text, and the cursor where the index is. -/
def Agrees (s : Typing) : Prop :=
  s.editor.document.getText = s.plain.text ∧
    s.editor.resetNpos.getAbsolutePosition = some s.plain.index

instance (s : Typing) : Decidable s.Agrees := inferInstanceAs (Decidable (_ ∧ _))

/-- After the step the two agree, and no removed block was used. -/
def Good (s : Typing) (op : Edit) : Prop := (s.step op).dangling = false ∧ (s.step op).Agrees

instance (s : Typing) (op : Edit) : Decidable (s.Good op) := inferInstanceAs (Decidable (_ ∧ _))

/-- Nothing is removed at the beginning of the text. -/
def Allowed (s : Typing) (op : Edit) : Prop := op = .removeChar → s.plain.index ≠ 0

instance (s : Typing) (op : Edit) : Decidable (s.Allowed op) :=
  inferInstanceAs (Decidable (_ → _))

end Typing

/-! ## Where an empty block is in the way

A deletion leaves blocks as they are split, so that an empty block may stand
between others. -/

namespace BlockCursor

/-- At the beginning of a block; before it an empty block, and before that one
without a newline. -/
def StuckLeft (c : BlockCursor) : Prop :=
  ∃ k a b, c.pos = some 0 ∧ c.currentBlockNumber = some (k + 2) ∧
    c.document.blocks[k]? = some a ∧ c.document.blocks[k + 1]? = some b ∧
    a.block.getEnd = .none ∧ b.block.isEmpty ∧ c.getAbsolutePosition ≠ some 0

/-- At the end of a block without a newline, before an empty one, and not at the
end of the text. -/
def StuckRight (c : BlockCursor) : Prop :=
  ∃ k a b, c.currentBlockNumber = some k ∧ c.document.blocks[k]? = some a ∧
    c.document.blocks[k + 1]? = some b ∧ a.block.getEnd = .none ∧
    c.pos = some a.block.length ∧ b.block.isEmpty ∧
    c.getAbsolutePosition ≠ some c.document.getText.length

/-- Behind the only character of the first block, which is no newline, with an
empty block next. -/
def EmptiesFirst (c : BlockCursor) : Prop :=
  ∃ a b rest, c.document.blocks = a :: b :: rest ∧ a.block.length = 1 ∧
    a.block.getEnd = .none ∧ b.block.isEmpty ∧ c.getAbsolutePosition = some 1

/-- The block of the cursor holds a zero. -/
def InZero (c : BlockCursor) : Prop := ∃ node, c.currentBlock = some node ∧ 0 ∈ node.block.text

end BlockCursor

/-- What an edit may not meet. -/
def Typing.Fits (s : Typing) : Edit → Prop
  | .addChar code =>
      Unicode.encode code.val ≠ none ∧ (code.val = newline → ¬ s.editor.InZero)
  | .removeChar => ¬ s.editor.StuckLeft ∧ ¬ s.editor.EmptiesFirst
  | .move .left => ¬ s.editor.StuckLeft
  | .move .right => ¬ s.editor.StuckRight

end MuditaOS.Gui
