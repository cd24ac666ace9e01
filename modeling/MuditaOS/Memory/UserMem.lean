import MuditaOS.Lib.Coalesce

/-!
# The user heap

The allocator over one array in the external memory, on the 32-bit target and
with the integrity stamps its configuration switches on. Memory is a word at
each address; a block begins with a header, whose fields are words of it. A
`none` is a failed assertion or a list walked for too long, neither of which
the program returns from.

The statistics, the allocating task and the allocation time, which nothing here
reads, are left out, and so is the hook called when an allocation fails.
-/

namespace MuditaOS.Memory

open Lib (Block)

/-! ## Words and headers -/

structure Words where
  word : Nat → Nat

namespace Words

def store (address value : Nat) (mem : Words) : Words :=
  ⟨fun w => if w = address then value else mem.word w⟩

/-- `memcpy`, which reads before it writes where the two do not overlap. -/
def memcpy (dst src count : Nat) (mem : Words) : Words :=
  ⟨fun w => if dst ≤ w ∧ w < dst + count then mem.word (src + (w - dst))
    else mem.word w⟩

def ulStamp (mem : Words) (px : Nat) : Nat := mem.word px
def pxNextFreeBlock (mem : Words) (px : Nat) : Nat := mem.word (px + 4)
def xBlockSize (mem : Words) (px : Nat) : Nat := mem.word (px + 8)

def setStamp (px value : Nat) (mem : Words) : Words := mem.store px value
def setNext (px value : Nat) (mem : Words) : Words := mem.store (px + 4) value
def setSize (px value : Nat) (mem : Words) : Words := mem.store (px + 8) value

end Words

def INTEGRITY_STAMP_TAKEN : Nat := 33333
def INTEGRITY_STAMP_FREE : Nat := 11111

def usermemBYTE_ALIGNMENT : Nat := 32
def usermemBYTE_ALIGNMENT_MASK : Nat := 0x1f

/-- `x & ~mask`. -/
def maskOff (x : Nat) : Nat := x - (x &&& usermemBYTE_ALIGNMENT_MASK)

/-- Five words: the stamp, the next block, the size, the task and the time. -/
def sizeofBlockLink : Nat := 20
def xHeapStructSize : Nat := maskOff (sizeofBlockLink + (usermemBYTE_ALIGNMENT - 1))
def heapMINIMUM_BLOCK_SIZE : Nat := xHeapStructSize <<< 1

/-! ## Where the heap is -/

/-- The array the linker places, aligned as it is declared, and the list head
beside it. The heap leaves the top bit of a size free and does not reach the end
of the address space. -/
structure HeapArea where
  userUcHeap : Nat
  USERMEM_TOTAL_HEAP_SIZE : Nat
  xUserStart : Nat
  placed : 0 < userUcHeap
  aligned : usermemBYTE_ALIGNMENT ∣ userUcHeap
  whole : usermemBYTE_ALIGNMENT ∣ USERMEM_TOTAL_HEAP_SIZE
  nonempty : 0 < USERMEM_TOTAL_HEAP_SIZE
  topBitFree : USERMEM_TOTAL_HEAP_SIZE < 2 ^ 31
  addressable : userUcHeap + USERMEM_TOTAL_HEAP_SIZE < 2 ^ 32
  startOutside : xUserStart + sizeofBlockLink ≤ userUcHeap ∨
    userUcHeap + USERMEM_TOTAL_HEAP_SIZE ≤ xUserStart

structure UserMem where
  mem : Words
  pxUserEnd : Nat
  xUserFreeBytesRemaining : Nat
  xUserMinimumEverFreeBytesRemaining : Nat
  xBlockAllocatedBit : Nat

namespace HeapArea

variable (area : HeapArea)

/-- More nodes than the list can have: a block takes a header at least. -/
def fuel : Nat := area.USERMEM_TOTAL_HEAP_SIZE

def prvHeapInit (mem : Words) : UserMem :=
  let pucAlignedHeap :=
    if area.userUcHeap &&& usermemBYTE_ALIGNMENT_MASK ≠ 0 then
      maskOff (area.userUcHeap + (usermemBYTE_ALIGNMENT - 1))
    else area.userUcHeap
  let xTotalHeapSize :=
    area.USERMEM_TOTAL_HEAP_SIZE - (pucAlignedHeap - area.userUcHeap)
  let pxUserEnd := maskOff (pucAlignedHeap + xTotalHeapSize - xHeapStructSize)
  let mem := (mem.setNext area.xUserStart pucAlignedHeap).setSize area.xUserStart 0
  let mem := (mem.setSize pxUserEnd 0).setNext pxUserEnd 0
  let xBlockSize := pxUserEnd - pucAlignedHeap
  { mem := ((mem.setSize pucAlignedHeap xBlockSize).setNext pucAlignedHeap
      pxUserEnd).setStamp pucAlignedHeap INTEGRITY_STAMP_FREE
    pxUserEnd := pxUserEnd
    xUserFreeBytesRemaining := xBlockSize
    xUserMinimumEverFreeBytesRemaining := xBlockSize
    xBlockAllocatedBit := 1 <<< 31 }

end HeapArea

/-! ## The free list -/

/-- The loop of `prvInsertBlockIntoFreeList`. -/
def seek (mem : Words) (pxBlockToInsert : Nat) : Nat → Nat → Option Nat
  | 0, _ => none
  | fuel + 1, pxIterator =>
      if mem.pxNextFreeBlock pxIterator < pxBlockToInsert then
        seek mem pxBlockToInsert fuel (mem.pxNextFreeBlock pxIterator)
      else some pxIterator

/-- The block being inserted and the one it is inserted before. -/
def joinWithNext (pxUserEnd pxIterator pxBlockToInsert : Nat) (mem : Words) : Words :=
  let pxNext := mem.pxNextFreeBlock pxIterator
  if pxBlockToInsert + mem.xBlockSize pxBlockToInsert = pxNext then
    if pxNext ≠ pxUserEnd then
      (mem.setSize pxBlockToInsert
          (mem.xBlockSize pxBlockToInsert + mem.xBlockSize pxNext)).setNext
        pxBlockToInsert (mem.pxNextFreeBlock pxNext)
    else mem.setNext pxBlockToInsert pxUserEnd
  else mem.setNext pxBlockToInsert pxNext

/-- What `prvInsertBlockIntoFreeList` does where the loop stopped. -/
def insertBehind (pxUserEnd pxIterator pxBlock : Nat) (mem : Words) : Words :=
  let contiguous := pxIterator + mem.xBlockSize pxIterator = pxBlock
  let mem :=
    if contiguous then
      mem.setSize pxIterator (mem.xBlockSize pxIterator + mem.xBlockSize pxBlock)
    else mem
  let pxBlockToInsert := if contiguous then pxIterator else pxBlock
  let mem := joinWithNext pxUserEnd pxIterator pxBlockToInsert mem
  if pxIterator ≠ pxBlockToInsert then mem.setNext pxIterator pxBlockToInsert
  else mem

def prvInsertBlockIntoFreeList (fuel xUserStart pxUserEnd pxBlockToInsert : Nat)
    (mem : Words) : Option Words := do
  let pxIterator ← seek mem pxBlockToInsert fuel xUserStart
  some (insertBehind pxUserEnd pxIterator pxBlockToInsert mem)

/-! ## Allocation -/

/-- The loop of `usermalloc`: the previous block and the block it stops at. -/
def findBlock (mem : Words) (xWantedSize : Nat) :
    Nat → Nat → Nat → Option (Nat × Nat)
  | 0, _, _ => none
  | fuel + 1, pxPreviousBlock, pxBlock =>
      if mem.xBlockSize pxBlock < xWantedSize ∧ mem.pxNextFreeBlock pxBlock ≠ 0 then
        findBlock mem xWantedSize fuel pxBlock (mem.pxNextFreeBlock pxBlock)
      else some (pxPreviousBlock, pxBlock)

/-- The size of a block that has room for the request and its header. -/
def wantedSize (xWantedSize : Nat) : Nat :=
  if 0 < xWantedSize then
    let withHeader := xWantedSize + xHeapStructSize
    if withHeader &&& usermemBYTE_ALIGNMENT_MASK ≠ 0 then
      withHeader +
        (usermemBYTE_ALIGNMENT - (withHeader &&& usermemBYTE_ALIGNMENT_MASK))
    else withHeader
  else xWantedSize

namespace UserMem

variable (area : HeapArea)

/-- The part of a block behind the wanted size becomes a free block of its own,
if it is large enough to be one. -/
def splitBlock (xWantedSize pxUserEnd pxBlock : Nat) (mem : Words) : Option Words :=
  let remainder := mem.xBlockSize pxBlock - xWantedSize
  if heapMINIMUM_BLOCK_SIZE < remainder then do
    let pxNewBlockLink := pxBlock + xWantedSize
    guard (pxNewBlockLink &&& usermemBYTE_ALIGNMENT_MASK = 0)
    prvInsertBlockIntoFreeList area.fuel area.xUserStart pxUserEnd pxNewBlockLink
      (((mem.setSize pxNewBlockLink remainder).setStamp pxNewBlockLink
        INTEGRITY_STAMP_FREE).setSize pxBlock xWantedSize)
  else some mem

/-- A block found: what `usermalloc` does with it. -/
def takeBlock (xWantedSize pxPreviousBlock pxBlock : Nat) (heap : UserMem) :
    Option (Nat × UserMem) := do
  let pvReturn := heap.mem.pxNextFreeBlock pxPreviousBlock + xHeapStructSize
  let mem ← splitBlock area xWantedSize heap.pxUserEnd pxBlock
    (heap.mem.setNext pxPreviousBlock (heap.mem.pxNextFreeBlock pxBlock))
  let xUserFreeBytesRemaining := heap.xUserFreeBytesRemaining - mem.xBlockSize pxBlock
  let taken := mem.setSize pxBlock (mem.xBlockSize pxBlock ||| heap.xBlockAllocatedBit)
  guard (taken.ulStamp pxBlock = INTEGRITY_STAMP_FREE)
  guard (pvReturn &&& usermemBYTE_ALIGNMENT_MASK = 0)
  some (pvReturn,
    { heap with
      mem := (taken.setStamp pxBlock INTEGRITY_STAMP_TAKEN).setNext pxBlock 0
      xUserFreeBytesRemaining := xUserFreeBytesRemaining
      xUserMinimumEverFreeBytesRemaining :=
        min heap.xUserMinimumEverFreeBytesRemaining xUserFreeBytesRemaining })

def usermalloc (xWantedSize : Nat) (heap : UserMem) : Option (Nat × UserMem) := do
  let heap := if heap.pxUserEnd = 0 then area.prvHeapInit heap.mem else heap
  if xWantedSize &&& heap.xBlockAllocatedBit = 0 then
    let xWantedSize := wantedSize xWantedSize
    guard (xWantedSize &&& usermemBYTE_ALIGNMENT_MASK = 0)
    if 0 < xWantedSize ∧ xWantedSize ≤ heap.xUserFreeBytesRemaining then
      let (pxPreviousBlock, pxBlock) ← findBlock heap.mem xWantedSize area.fuel
        area.xUserStart (heap.mem.pxNextFreeBlock area.xUserStart)
      if pxBlock ≠ heap.pxUserEnd then
        heap.takeBlock area xWantedSize pxPreviousBlock pxBlock
      else some (0, heap)
    else some (0, heap)
  else some (0, heap)

def userfree (pv : Nat) (heap : UserMem) : Option UserMem := do
  if pv ≠ 0 then
    let pxLink := pv - xHeapStructSize
    guard (heap.mem.xBlockSize pxLink &&& heap.xBlockAllocatedBit ≠ 0)
    guard (heap.mem.pxNextFreeBlock pxLink = 0)
    guard (heap.mem.ulStamp pxLink = INTEGRITY_STAMP_TAKEN)
    -- The top bit is set, so clearing it is a subtraction.
    let xBlockSize := heap.mem.xBlockSize pxLink - heap.xBlockAllocatedBit
    let mem ← prvInsertBlockIntoFreeList area.fuel area.xUserStart heap.pxUserEnd
      pxLink ((heap.mem.setStamp pxLink INTEGRITY_STAMP_FREE).setSize pxLink
        xBlockSize)
    some
      { heap with
        mem := mem
        xUserFreeBytesRemaining := heap.xUserFreeBytesRemaining + xBlockSize }
  else some heap

/-- `userrealloc`, with what its `memcpy` read: from where and how many bytes. -/
def userrealloc (pv xWantedSize : Nat) (heap : UserMem) :
    Option (Nat × Option (Nat × Nat) × UserMem) := do
  if pv ≠ 0 then
    let pxLink := pv - xHeapStructSize
    guard (heap.mem.xBlockSize pxLink &&& heap.xBlockAllocatedBit ≠ 0)
    guard (heap.mem.pxNextFreeBlock pxLink = 0)
    let curSize := heap.mem.xBlockSize pxLink - heap.xBlockAllocatedBit
    if xWantedSize ≤ curSize then some (pv, none, heap)
    else
      let (new, heap) ← heap.usermalloc area xWantedSize
      if new = 0 then some (0, none, heap)
      else
        let heap ← { heap with mem := heap.mem.memcpy new pv curSize }.userfree area pv
        some (new, some (pv, curSize), heap)
  else
    let (new, heap) ← heap.usermalloc area xWantedSize
    some (new, none, heap)

end UserMem

/-! ## What memory says of the blocks -/

namespace UserMem

/-- The blocks behind a node of the free list, up to the end marker. -/
def blocksBehind (heap : UserMem) : Nat → Nat → List Block
  | 0, _ => []
  | fuel + 1, px =>
      let next := heap.mem.pxNextFreeBlock px
      if next = heap.pxUserEnd then []
      else ⟨next, heap.mem.xBlockSize next⟩ :: blocksBehind heap fuel next

def freeBlocks (area : HeapArea) (heap : UserMem) : List Block :=
  heap.blocksBehind area.fuel area.xUserStart

/-- The block a pointer was handed out for. -/
def blockOf (heap : UserMem) (pv : Nat) : Block :=
  let pxLink := pv - xHeapStructSize
  ⟨pxLink, heap.mem.xBlockSize pxLink - heap.xBlockAllocatedBit⟩

/-- The bytes from a pointer to the end of its block. -/
def usable (heap : UserMem) (pv : Nat) : Nat := (heap.blockOf pv).stop - pv

end UserMem

/-! ## Runs -/

inductive HeapCall
  | usermalloc (xWantedSize : Nat)
  | userfree (pv : Nat)
  | userrealloc (pv xWantedSize : Nat)
  deriving DecidableEq, Repr

/-- The heap and the pointers its users hold. -/
structure HeapSession where
  heap : UserMem
  live : List Nat

namespace HeapSession

variable (area : HeapArea)

def start (mem : Words) : HeapSession := ⟨area.prvHeapInit mem, []⟩

/-- The pointer a user gets, if it is one. -/
def hold (pv : Nat) (live : List Nat) : List Nat := if pv = 0 then live else live ++ [pv]

def step (s : HeapSession) : HeapCall → Option HeapSession
  | .usermalloc xWantedSize => do
      let (pv, heap) ← s.heap.usermalloc area xWantedSize
      some ⟨heap, hold pv s.live⟩
  | .userfree pv => do
      let heap ← s.heap.userfree area pv
      some ⟨heap, s.live.erase pv⟩
  | .userrealloc pv xWantedSize => do
      let (new, _, heap) ← s.heap.userrealloc area pv xWantedSize
      some ⟨heap,
        if new = 0 ∨ new = pv then s.live else hold new (s.live.erase pv)⟩

/-- The rule of the callers: sizes are of 32 bits, and only live pointers are
freed or resized. -/
def Permitted (s : HeapSession) : HeapCall → Prop
  | .usermalloc xWantedSize => xWantedSize < 2 ^ 32
  | .userfree pv => pv ∈ s.live
  | .userrealloc pv xWantedSize => (pv = 0 ∨ pv ∈ s.live) ∧ xWantedSize < 2 ^ 32

instance (s : HeapSession) (call : HeapCall) : Decidable (s.Permitted call) :=
  match call with
  | .usermalloc _ => inferInstanceAs (Decidable (_ < _))
  | .userfree _ => inferInstanceAs (Decidable (_ ∈ _))
  | .userrealloc _ _ => inferInstanceAs (Decidable ((_ ∨ _) ∧ _))

/-- The session after the calls, each of them permitted. -/
inductive Reaches (mem : Words) : List HeapCall → HeapSession → Prop
  | start : Reaches mem [] (start area mem)
  | call {calls : List HeapCall} {s s' : HeapSession} {c : HeapCall}
      (before : Reaches mem calls s) (permitted : s.Permitted c)
      (result : s.step area c = some s') : Reaches mem (calls ++ [c]) s'

/-- The same, as a computation. -/
def run (s : HeapSession) : List HeapCall → Option HeapSession
  | [] => some s
  | c :: calls =>
      if s.Permitted c then (s.step area c).bind fun s' => run s' calls else none

end HeapSession

end MuditaOS.Memory
