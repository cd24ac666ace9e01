import Mathlib.Algebra.GroupWithZero.Nat
import MuditaOS.Gui.TextDocument

/-!
# The cursors of the text editor

A transcription of `TextBlockCursor.cpp` and `TextCursor.cpp`. `npos` is `none`.
The flags a cursor keeps for those who draw it are left out. A computation that
uses an iterator whose block was removed is undefined and has no result; what
`operator++` and `operator--` would do behind the last block is left as it is,
since no cursor comes there in a document that has blocks.
-/

namespace MuditaOS.Gui

/-- `BlockCursor`, with its document. -/
structure BlockCursor where
  document : TextDocument := {}
  pos : Option Nat := none
  currentBlockNumber : Option Nat := none
  deriving DecidableEq, Repr

namespace BlockCursor

/-- `currentBlock()`, read; `none` is the end. -/
def currentBlock (c : BlockCursor) : Option Node :=
  c.currentBlockNumber.bind fun number => c.document.blocks[number]?

def checkNpos (c : BlockCursor) : Bool := c.pos.isNone || c.currentBlockNumber.isNone

def resetNpos (c : BlockCursor) : BlockCursor :=
  { c with
    pos := some (c.pos.getD 0)
    currentBlockNumber := some (c.currentBlockNumber.getD 0) }

def checkDocument (c : BlockCursor) : Bool := c.document.blocks.length > 0

def atBegin (c : BlockCursor) : Bool :=
  !c.checkNpos && c.pos == some 0 && c.currentBlockNumber == some 0

/-- The last position of a block: before the newline, or behind all. -/
def lastPos (b : TextBlock) : Nat := if b.getEnd ≠ .newline then b.length else b.length - 1

def atEnd (c : BlockCursor) : Bool :=
  match c.pos, c.currentBlockNumber, c.document.blocks.getLast? with
  | some pos, some number, some last =>
      number == c.document.blocks.length - 1 && pos ≥ lastPos last.block
  | _, _, _ => false

def checkPreviousBlockNoNewLine (c : BlockCursor) : Bool :=
  match c.currentBlockNumber with
  | some (number + 1) =>
      match c.document.blocks[number]? with
      | some node => node.block.getEnd == .none
      | none => false
  | _ => false

def checkCurrentBlockNoNewLine (c : BlockCursor) : Bool :=
  match c.currentBlock with
  | some node => node.block.getEnd == .none
  | none => false

def goToNextBlock (c : BlockCursor) : BlockCursor :=
  match c.currentBlockNumber with
  | some number =>
      if number < c.document.blocks.length then
        { c with currentBlockNumber := some (number + 1), pos := some 0 }
      else c
  | none => c

def goToPreviousBlock (c : BlockCursor) : BlockCursor :=
  match c.currentBlockNumber with
  | some (number + 1) =>
      match c.document.blocks[number]? with
      | some node => { c with currentBlockNumber := some number, pos := some (lastPos node.block) }
      | none => c
  | _ => c

/-- `operator++`. -/
def increment (c : BlockCursor) : BlockCursor :=
  if !c.checkDocument then c
  else
    let c := c.resetNpos
    match c.pos, c.currentBlockNumber, c.currentBlock with
    | some pos, some number, some node =>
        let blockSize := node.block.length
        let endOfCurrentBlockReached :=
          node.block.getEnd = .newline ∧ pos + 1 = blockSize ∨ pos ≥ blockSize
        let lastBlockReached := number + 1 = c.document.blocks.length
        if endOfCurrentBlockReached ∧ lastBlockReached then c
        else if endOfCurrentBlockReached then c.goToNextBlock
        else { c with pos := some (pos + 1) }
    | _, _, _ => c

/-- `operator--`. -/
def decrement (c : BlockCursor) : BlockCursor :=
  if !c.checkDocument then c
  else
    let c := c.resetNpos
    match c.pos, c.currentBlockNumber with
    | some 0, some 0 => c
    | some 0, _ => c.goToPreviousBlock
    | some (pos + 1), _ => { c with pos := some pos }
    | none, _ => c

def addNewline (c : BlockCursor) : BlockCursor :=
  match c.pos, c.currentBlockNumber with
  | some pos, some number => { c with document := c.document.addNewline number pos .newline }
  | _, _ => c

def addChar (c : BlockCursor) (utfVal : UInt32) : BlockCursor :=
  if c.document.blocks.length = 0 ∧ utfVal = newline then
    let c := { c with document := c.document.append (.ofText [] .none) }
    c.increment.addNewline
  else
    let c :=
      if c.document.blocks.length = 0 then
        { c with document := c.document.append (.ofText [] .none) }.resetNpos
      else c
    match c.currentBlock with
    | none => c
    | some block =>
        if utfVal = newline then c.addNewline
        else { c with document := c.document.update block.id (·.addChar utfVal c.pos) }

/-- `none` where the block is gone. -/
def checkIfNextBlockEmpty (c : BlockCursor) (nextBlock : Option Nat) : Option Bool :=
  match nextBlock with
  | none => some false
  | some it => (c.document.deref it).map fun node =>
      node.block.isEmpty && c.checkCurrentBlockNoNewLine

/-- `if (checkIfNextBlockEmpty(nextBlock)) removeBlock(nextBlock)`. -/
def removeNextIfEmpty (c : BlockCursor) (nextBlock : Option Nat) : Option BlockCursor :=
  match c.checkIfNextBlockEmpty nextBlock, nextBlock with
  | none, _ => none
  | some true, some it => some { c with document := c.document.removeBlock it }
  | some _, _ => some c

def checkIfBlockFirstAndEmpty (c : BlockCursor) (block : Nat) : Bool :=
  match c.document.blocks.head? with
  | some first => first.id == block && first.block.isEmpty
  | none => false

/-- The iterator to the previous block is not used and is left out. -/
def removeChar (c : BlockCursor) : Option (Bool × BlockCursor) :=
  match c.pos, c.currentBlockNumber, c.currentBlock with
  | some pos, some number, some block => do
      let nextBlock := c.document.blocks[number + 1]?.map (·.id)
      let c ← c.removeNextIfEmpty nextBlock
      let c := { c with document := c.document.update block.id (·.removeChar pos) }
      if c.checkIfBlockFirstAndEmpty block.id then
        let c := { c with document := c.document.removeBlock block.id }
        let c ← c.removeNextIfEmpty nextBlock
        pure (true, c)
      else pure (true, c)
  | _, _, _ => some (false, c)

/-- `blockNo` counts up to the number of the cursor's block. -/
def getAbsolutePosition (c : BlockCursor) : Option Nat :=
  match c.pos, c.currentBlockNumber with
  | some pos, some number =>
      some (((c.document.blocks.take number).map (·.block.length)).sum + pos)
  | _, _ => none

end BlockCursor

/-! ## The cursor on the screen -/

inductive CursorStartPosition where
  | documentBegin
  | offset
  | documentEnd
  deriving DecidableEq, Repr

/-- `NavigationDirection`, those that stay in the line. -/
inductive Direction where
  | left
  | right
  deriving DecidableEq, Repr

inductive Move where
  | start | «end» | left | right | error
  deriving DecidableEq, Repr

structure TextCursor extends BlockCursor where
  cursorStartPosition : CursorStartPosition := .documentEnd
  onScreenPosition : Nat := 0
  deriving DecidableEq, Repr

namespace TextCursor

def moveLeft (t : TextCursor) : TextCursor :=
  let c := t.toBlockCursor.decrement
  let onScreenPosition :=
    if t.onScreenPosition > 0 then t.onScreenPosition - 1 else t.onScreenPosition
  let c :=
    if t.currentBlockNumber ≠ c.currentBlockNumber ∧ c.checkCurrentBlockNoNewLine then
      c.decrement
    else c
  { t with toBlockCursor := c, onScreenPosition }

def moveRight (t : TextCursor) : TextCursor :=
  let c := t.toBlockCursor.increment
  let onScreenPosition :=
    if t.onScreenPosition < t.document.getText.length then t.onScreenPosition + 1
    else t.onScreenPosition
  let c :=
    if t.currentBlockNumber ≠ c.currentBlockNumber ∧ c.checkPreviousBlockNoNewLine then
      c.increment
    else c
  { t with toBlockCursor := c, onScreenPosition }

def moveCursor (t : TextCursor) (direction : Direction) : Move × TextCursor :=
  if !t.checkDocument then (.error, t)
  else
    match direction with
    | .left => if t.checkNpos || t.atBegin then (.start, t) else (.left, t.moveLeft)
    | .right => if t.checkNpos || t.atEnd then (.end, t) else (.right, t.moveRight)

/-- Drawing the lines leaves the document alone. -/
def addChar (t : TextCursor) (utfVal : UInt32) : TextCursor :=
  let t := { t with toBlockCursor := t.toBlockCursor.addChar utfVal }
  if t.cursorStartPosition ≠ .documentBegin then (t.moveCursor .right).2 else t

def removeChar (t : TextCursor) : Option (Bool × TextCursor) :=
  let t := (t.moveCursor .left).2
  t.toBlockCursor.removeChar.map fun (removed, c) => (removed, { t with toBlockCursor := c })

end TextCursor

end MuditaOS.Gui
