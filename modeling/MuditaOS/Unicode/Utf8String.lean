import Mathlib
import MuditaOS.Unicode.Utf8Char

/-!
# The string class `UTF8`

A transcription of `UTF8.cpp`. A buffer is its bytes and the address it was
allocated at; a pointer is an address and an offset, so a pointer into a buffer
that was replaced is not a pointer into the new one. The address an allocation
returns is an argument of the function that allocates. Sizes and counts are
natural numbers: a buffer of `2 ^ 32` bytes cannot be allocated.
-/

namespace MuditaOS.Unicode

structure Buffer where
  addr : Nat
  bytes : List UInt8
  deriving DecidableEq, Repr

structure Pointer where
  addr : Nat
  off : Nat
  deriving DecidableEq, Repr

/-- `UTF8::npos`. -/
def npos : Nat := 2 ^ 32 - 1

def stringExpansion : Nat := 32

def getDataBufferSize (dataBytes : Nat) : Nat :=
  (dataBytes / stringExpansion + 1) * stringExpansion

/-- `make_unique<char[]>(size)`. -/
def zeroed (size : Nat) : List UInt8 := List.replicate size 0

/-- `memcpy(dst + off, src, src.length)`. -/
def memcpy (dst : List UInt8) (off : Nat) (src : List UInt8) : List UInt8 :=
  dst.take off ++ src ++ dst.drop (off + src.length)

/-- `memmove(mem + dst, mem + src, size)`. -/
def memmove (mem : List UInt8) (dst src size : Nat) : List UInt8 :=
  memcpy mem dst ((mem.drop src).take size)

/-- A moved-from string has no `data`. -/
structure UTF8 where
  data : Option Buffer
  sizeAllocated : Nat
  sizeUsed : Nat
  strLength : Nat
  lastIndex : Nat
  lastIndexData : Pointer
  deriving DecidableEq, Repr

namespace UTF8

def bytes (u : UTF8) : List UInt8 :=
  match u.data with
  | some buffer => buffer.bytes
  | none => []

def addr (u : UTF8) : Nat :=
  match u.data with
  | some buffer => buffer.addr
  | none => 0

/-- `data = move(newData); lastIndex = 0; lastIndexData = data.get()`. -/
def setData (u : UTF8) (addr : Nat) (bytes : List UInt8) : UTF8 :=
  { u with
    data := some ⟨addr, bytes⟩
    lastIndex := 0
    lastIndexData := ⟨addr, 0⟩ }

/-- `for (i = 0; i < count; i++) ptr += charLength(ptr)`, as offsets. -/
def walk (mem : List UInt8) : Nat → Nat → Nat
  | ptr, 0 => ptr
  | ptr, count + 1 => walk mem (ptr + charLength (mem.drop ptr)) count

/-! ## Constructors -/

def empty (addr : Nat) : UTF8 where
  data := some ⟨addr, zeroed stringExpansion⟩
  sizeAllocated := stringExpansion
  sizeUsed := 1
  strLength := 0
  lastIndex := 0
  lastIndexData := ⟨addr, 0⟩

/-- The common part of the two constructors: `str` without its terminator. -/
def ofBytes (addr : Nat) (str : List UInt8) : UTF8 :=
  let sizeUsed := str.length + 1
  let sizeAllocated := getDataBufferSize sizeUsed
  let bytes := memcpy (zeroed sizeAllocated) 0 (str ++ [0])
  { data := some ⟨addr, bytes⟩
    sizeAllocated := sizeAllocated
    sizeUsed := sizeUsed
    strLength := getCharactersCount bytes
    lastIndex := 0
    lastIndexData := ⟨addr, 0⟩ }

/-- `UTF8(const char *)`; the string ends at the first zero. -/
def ofCString (addr : Nat) (str : List UInt8) : UTF8 :=
  ofBytes addr (str.takeWhile (· ≠ 0))

/-- `UTF8(const std::string &)`. -/
def ofString (addr : Nat) (str : List UInt8) : UTF8 := ofBytes addr str

/-- `UTF8(const UTF8 &)`. -/
def copy (addr : Nat) (utf : UTF8) : UTF8 :=
  if utf.strLength ≠ 0 then
    { utf with
      data := some ⟨addr, memcpy (zeroed utf.sizeAllocated) 0
        (utf.bytes.take utf.sizeAllocated)⟩
      lastIndex := 0
      lastIndexData := ⟨addr, 0⟩ }
  else
    { utf with
      data := some ⟨addr, zeroed stringExpansion⟩
      sizeAllocated := stringExpansion
      sizeUsed := 1
      lastIndex := 0
      lastIndexData := ⟨addr, 0⟩ }

/-- `UTF8(UTF8 &&)`. -/
def move (utf : UTF8) : UTF8 :=
  { utf with lastIndex := 0, lastIndexData := ⟨utf.addr, 0⟩ }

/-- What a move leaves behind. -/
def movedFrom (utf : UTF8) : UTF8 := { utf with data := none }

/-! ## Assignments -/

/-- `operator=(const UTF8 &)` of another string. -/
def copyAssign (addr : Nat) (u utf : UTF8) : UTF8 :=
  let u := { u with
    sizeAllocated := utf.sizeAllocated
    sizeUsed := utf.sizeUsed
    strLength := utf.strLength }
  u.setData addr (memcpy (zeroed u.sizeAllocated) 0
    (utf.bytes.take u.sizeAllocated))

/-- `operator=(UTF8 &&)` of another string; the cached pair is not touched. -/
def moveAssign (u utf : UTF8) : UTF8 :=
  { u with
    data := utf.data
    sizeAllocated := utf.sizeAllocated
    sizeUsed := utf.sizeUsed
    strLength := utf.strLength }

/-- `operator+=`. -/
def append (addr : Nat) (u utf : UTF8) : UTF8 :=
  if utf.strLength = 0 then u
  else
    let newSizeAllocated := getDataBufferSize (u.sizeUsed + utf.sizeUsed)
    let newData := memcpy (zeroed newSizeAllocated) 0 (u.bytes.take u.sizeUsed)
    let newData := memcpy newData (u.sizeUsed - 1) (utf.bytes.take utf.sizeUsed)
    { u with
      sizeAllocated := newSizeAllocated
      strLength := u.strLength + utf.strLength
      sizeUsed := u.sizeUsed + (utf.sizeUsed - 1) }.setData addr newData

/-! ## Reading -/

/-- `operator[]`, with the string it leaves: the cached pair is mutable. -/
def index (u : UTF8) (idx : Nat) : UInt32 × UTF8 :=
  if idx ≥ u.strLength then (0, u)
  else
    -- through a cached pointer that is not into `data` nothing is known
    let mem := if u.lastIndex < idx ∧ u.lastIndexData.addr ≠ u.addr then []
      else u.bytes
    let (dataPtr, charCnt) :=
      if u.lastIndex < idx then (u.lastIndexData.off, u.lastIndex) else (0, 0)
    let addr := if u.lastIndex < idx then u.lastIndexData.addr else u.addr
    let dataPtr := walk mem dataPtr (idx - charCnt)
    ((decode (mem.drop dataPtr)).1,
      { u with lastIndex := idx, lastIndexData := ⟨addr, dataPtr⟩ })

/-- `operator==`; the unsigned differences are zero when the sizes agree. -/
def equal (u utf : UTF8) : Bool :=
  u.strLength == utf.strLength && u.sizeUsed == utf.sizeUsed &&
    u.bytes.take u.sizeUsed == utf.bytes.take u.sizeUsed

/-! ## Changing -/

def clear (addr : Nat) (u : UTF8) : UTF8 :=
  { u with
    sizeAllocated := stringExpansion
    sizeUsed := 1
    strLength := 0 }.setData addr (zeroed stringExpansion)

def expand (addr : Nat) (u : UTF8) (size : Nat) : UTF8 :=
  let newSizeAllocated := getDataBufferSize (u.sizeAllocated + size)
  { u with sizeAllocated := newSizeAllocated }.setData addr
    (memcpy (zeroed newSizeAllocated) 0 (u.bytes.take u.sizeUsed))

def substr (addr : Nat) (u : UTF8) (begin length : Nat) : UTF8 :=
  if begin + length > u.strLength ∨ length = 0 then empty addr
  else
    let beginPtr := walk u.bytes 0 begin
    let endPtr := walk u.bytes beginPtr length
    let bufferSize := endPtr - beginPtr
    let buffer := memcpy (zeroed (bufferSize + 1)) 0
      ((u.bytes.drop beginPtr).take bufferSize)
    ofCString addr buffer

/-- The returned string, at `addr`, and the one left, at `addrLeft`. -/
def split (addr addrLeft : Nat) (u : UTF8) (idx : Nat) : UTF8 × UTF8 :=
  if idx ≥ u.strLength then (empty addr, u)
  else
    let dataPtr := walk u.bytes 0 idx
    let retString := ofCString addr (u.bytes.drop dataPtr)
    let tempStringBufferSize := getDataBufferSize dataPtr
    let tempString := memcpy (zeroed tempStringBufferSize) 0
      (u.bytes.take dataPtr)
    (retString,
      { u with
        sizeUsed := dataPtr + 1
        sizeAllocated := tempStringBufferSize
        strLength := idx }.setData addrLeft tempString)

/-- The new buffer is assigned without the cached pair. -/
def removeChar (addr : Nat) (u : UTF8) (pos count : Nat) : Bool × UTF8 :=
  if count = 0 then (false, u)
  else if pos + count > u.strLength then (false, u)
  else
    let beginPtr := walk u.bytes 0 pos
    let endPtr := walk u.bytes beginPtr count
    let bytesToRemove := endPtr - beginPtr
    let tempStringBufferSize := getDataBufferSize (u.sizeUsed - bytesToRemove)
    let tempString := memcpy (zeroed tempStringBufferSize) 0
      (u.bytes.take beginPtr)
    let tempString := memcpy tempString beginPtr
      ((u.bytes.drop endPtr).take (u.sizeUsed - bytesToRemove - beginPtr))
    (true,
      { u with
        sizeAllocated := tempStringBufferSize
        strLength := u.strLength - count
        sizeUsed := u.sizeUsed - bytesToRemove
        data := some ⟨addr, tempString⟩ })

/-- The index an insertion is made at, if there is one. -/
def insertIndex (u : UTF8) (index : Nat) : Option Nat :=
  if index ≠ npos then
    if index > u.strLength then none else some index
  else some u.strLength

/-- `addr` is the address of the expanded buffer, if there is one. -/
def insert (addr : Nat) (u : UTF8) (ch : List UInt8) (index : Nat) : Bool × UTF8 :=
  match u.insertIndex index with
  | none => (false, u)
  | some insertIndex =>
      let chLen := charLength ch
      if chLen = 0 then (false, u)
      else
        let u := if chLen + u.sizeUsed ≥ u.sizeAllocated then
          u.expand addr stringExpansion else u
        let pos := walk u.bytes 0 insertIndex
        if pos ≥ u.sizeUsed then (false, u)
        else
          let bytes := if insertIndex ≠ u.strLength then
            memmove u.bytes (pos + chLen) pos (u.sizeUsed - pos) else u.bytes
          let bytes := memcpy bytes pos (ch.take chLen)
          (true,
            { u with
              data := some ⟨u.addr, bytes⟩
              sizeUsed := u.sizeUsed + chLen
              strLength := u.strLength + 1 })

def insertCode (addr : Nat) (u : UTF8) (charCode : UInt32) (index : Nat) :
    Bool × UTF8 :=
  let ch := u8char charCode
  if ch.length = 0 then (false, u) else u.insert addr ch index

/-- `sizeUsed` and `strLength` stay, and the return value is always `false`. -/
def insertString (addr : Nat) (u str : UTF8) (index : Nat) : Bool × UTF8 :=
  match u.insertIndex index with
  | none => (false, u)
  | some insertIndex =>
      let totalSize := u.sizeUsed + str.sizeUsed - 1
      let u := u.expand addr (getDataBufferSize totalSize)
      let beginPtr := walk u.bytes 0 insertIndex
      let bytes := memmove u.bytes (beginPtr + str.sizeUsed - 1) beginPtr
        (u.sizeUsed - beginPtr)
      let bytes := memcpy bytes beginPtr (str.bytes.take (str.sizeUsed - 1))
      (false, { u with data := some ⟨u.addr, bytes⟩ })

end UTF8

end MuditaOS.Unicode

/-! ## Searching a `UTF8`

A transcription of `find` and `findLast` in `UTF8.cpp`. A pattern is the memory from its pointer
on. Beside its result a search has the places where `memcmp` was told to read.
-/

namespace MuditaOS.Unicode

/-- The first two arguments of a comparison, the pattern aside: an offset in the buffer, and how
many bytes are compared from there. -/
structure Compared where
  off : Nat
  size : Nat
  deriving DecidableEq, Repr

namespace UTF8

/-- `memcmp(data + off, s, s.length) == 0`. -/
def memcmpEq (mem : List UInt8) (off : Nat) (s : List UInt8) : Bool :=
  (mem.drop off).take s.length == s

/-- `getStreamLength` as the searches use it, whose return value they do not look at. -/
def patternLength (s : List UInt8) : Nat × Nat := (getStreamLength s.length s).getD (0, 0)

/-- The loop over so many positions that are left. -/
def findLoop (mem s : List UInt8) : Nat → Nat → Nat → Nat × List Compared
  | 0, _, _ => (npos, [])
  | left + 1, position, dataPtr =>
      if memcmpEq mem dataPtr s then (position, [⟨dataPtr, s.length⟩])
      else
        let (result, compared) :=
          findLoop mem s left (position + 1) (dataPtr + charLength (mem.drop dataPtr))
        (result, ⟨dataPtr, s.length⟩ :: compared)

def find (u : UTF8) (s : List UInt8) (pos : Nat) : Nat × List Compared :=
  let (stringSize, stringCount) := patternLength s
  if stringCount = 0 ∧ byteAt s 0 ≠ 0 then (npos, [])
  else if pos + stringCount ≥ u.strLength then (npos, [])
  else
    let dataPtr := walk u.bytes 0 pos
    findLoop u.bytes (s.take stringSize) (u.strLength - pos) pos dataPtr

def findLastLoop (mem s : List UInt8) : Nat → Nat → Nat → Nat → Nat × List Compared
  | 0, _, _, lastFoundPosition => (lastFoundPosition, [])
  | left + 1, position, dataPtr, lastFoundPosition =>
      let lastFoundPosition := if memcmpEq mem dataPtr s then position else lastFoundPosition
      let (result, compared) := findLastLoop mem s left (position + 1)
        (dataPtr + charLength (mem.drop dataPtr)) lastFoundPosition
      (result, ⟨dataPtr, s.length⟩ :: compared)

def findLast (u : UTF8) (s : List UInt8) (pos : Nat) : Nat × List Compared :=
  let (stringSize, stringCount) := patternLength s
  if stringCount = 0 ∧ byteAt s 0 ≠ 0 then (npos, [])
  else if pos > u.strLength then (npos, [])
  -- `stringCount - 1` of an empty pattern is the largest number there is
  else if stringCount = 0 ∨ pos < stringCount - 1 then (npos, [])
  else
    let positionEnd := pos + 1 - stringCount
    findLastLoop u.bytes (s.take stringSize) (positionEnd + 1) 0 0 npos

end UTF8

end MuditaOS.Unicode
