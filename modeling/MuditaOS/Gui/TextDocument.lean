import MuditaOS.Unicode.Utf8Char

/-!
# The text document of the gui

A transcription of `TextBlock.cpp` and `TextDocument.cpp`. A text is the list of
its code points: what the class `UTF8` does to the bytes is the subject of
`Unicode.UTF8`, and here are the operations the editor uses, with their two
failures. A code that `encode` refuses is not inserted, and `substr` goes
through a C string, so that it ends at the first zero.

The blocks of a `std::list` stay where they are while others come and go, and an
iterator is one of them, or the end. So every block has the number of its node,
and an iterator is such a number; a number that is no longer in the document is
an iterator whose block was removed. Format and font are left out, and so is the
member `end` of a block, which is written and never read.
-/

namespace MuditaOS.Gui

/-! ## Texts -/

abbrev Codes := List UInt32

/-- `text::newline`. -/
def newline : UInt32 := 0x0A

namespace Codes

def insertCode (text : Codes) (code : UInt32) (index : Nat) : Codes :=
  match Unicode.encode code with
  | none => text
  | some _ => if index > text.length then text else text.insertIdx index code

def removeChar (text : Codes) (pos : Nat) : Codes :=
  if pos + 1 > text.length then text else text.eraseIdx pos

def substr (text : Codes) (start length : Nat) : Codes :=
  if start + length > text.length ∨ length = 0 then []
  else ((text.drop start).take length).takeWhile (· ≠ 0)

end Codes

/-! ## Blocks -/

/-- `TextBlock::End`. -/
inductive End where
  | newline
  | none
  deriving DecidableEq, Repr

structure TextBlock where
  text : Codes := []
  deriving DecidableEq, Repr

namespace TextBlock

def length (b : TextBlock) : Nat := b.text.length

def getEnd (b : TextBlock) : End :=
  if b.text.length > 0 ∧ b.text.getLast? = some newline then .newline else .none

/-- The constructor. -/
def ofText (text : Codes) (eol : End) : TextBlock :=
  if (TextBlock.mk text).getEnd ≠ .newline ∧ eol = .newline then
    ⟨Codes.insertCode text newline text.length⟩
  else ⟨text⟩

def getTextFrom (b : TextBlock) (startPosition : Nat) : Codes :=
  Codes.substr b.text startPosition (b.text.length - startPosition)

def setEnd (b : TextBlock) (eol : End) : TextBlock :=
  if eol = .newline ∧ b.getEnd ≠ .newline then
    ⟨Codes.insertCode b.text newline b.text.length⟩
  else if eol = .none ∧ b.getEnd = .newline then
    ⟨Codes.removeChar b.text (b.text.length - 1)⟩
  else b

/-- A position that is `npos` is the first. -/
def addChar (b : TextBlock) (utfVal : UInt32) (pos : Option Nat) : TextBlock :=
  ⟨Codes.insertCode b.text utfVal (pos.getD 0)⟩

def removeChar (b : TextBlock) (pos : Nat) : TextBlock := ⟨Codes.removeChar b.text pos⟩

def isEmpty (b : TextBlock) : Bool := b.text.length == 0 && b.getEnd == .none

end TextBlock

/-! ## Documents -/

/-- A block and the number of its node. -/
structure Node where
  id : Nat
  block : TextBlock
  deriving DecidableEq, Repr

structure TextDocument where
  blocks : List Node := []
  nextId : Nat := 0
  deriving DecidableEq, Repr

namespace TextDocument

def append (doc : TextDocument) (text : TextBlock) : TextDocument where
  blocks := doc.blocks ++ [⟨doc.nextId, text⟩]
  nextId := doc.nextId + 1

def getText (doc : TextDocument) : Codes := doc.blocks.flatMap (·.block.text)

/-- What the iterator points to, if its block is still there. -/
def deref (doc : TextDocument) (it : Nat) : Option Node := doc.blocks.find? (·.id == it)

/-- `blocks.erase(it)`. -/
def removeBlock (doc : TextDocument) (it : Nat) : TextDocument :=
  { doc with blocks := doc.blocks.filter (·.id != it) }

/-- Changes the block an iterator points to. -/
def update (doc : TextDocument) (it : Nat) (f : TextBlock → TextBlock) : TextDocument :=
  { doc with blocks := doc.blocks.map fun node =>
      if node.id = it then { node with block := f node.block } else node }

/-- The two blocks stand at `blockNumber` and behind it. -/
def split (doc : TextDocument) (blockNumber pos : Nat) : TextDocument :=
  match doc.blocks[blockNumber]? with
  | none => doc
  | some toSplit =>
      let text := toSplit.block.getTextFrom pos
      let newBlock := TextBlock.ofText text toSplit.block.getEnd
      let left := { toSplit with block := ⟨Codes.substr toSplit.block.text 0 pos⟩ }
      { blocks := doc.blocks.take blockNumber ++
          left :: ⟨doc.nextId, newBlock⟩ :: doc.blocks.drop (blockNumber + 1)
        nextId := doc.nextId + 1 }

/-- Sets the end of the block with this number. -/
def setEndAt (doc : TextDocument) (blockNumber : Nat) (eol : End) : TextDocument :=
  { doc with blocks := doc.blocks.modify blockNumber fun node =>
      { node with block := node.block.setEnd eol } }

def addNewline (doc : TextDocument) (blockNumber pos : Nat) (eol : End) : TextDocument :=
  let doc := (doc.split blockNumber pos).setEndAt blockNumber eol
  if blockNumber = doc.blocks.length - 2 then doc.setEndAt (blockNumber + 1) .none else doc

end TextDocument

end MuditaOS.Gui
