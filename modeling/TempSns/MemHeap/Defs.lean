import TempSns.Lib.ByteMem
import TempSns.Lib.Exec
import TempSns.Lib.IntrusiveList
import TempSns.Lib.Word32

/-!
# The memory heap objects

Embedding of `rt_memheap_init`, `rt_memheap_alloc`, `rt_memheap_realloc` and `rt_memheap_free` of
`memheap.c` on a 32-bit target. Addresses and sizes are natural numbers below `2 ^ 32`, with the
wrapping operations of `Word32` where the source computes.

The header of a block is a record at its address: `magic`, `pool_ptr`, and the pointers of two
doubly linked lists, the ring of all blocks (`block`) and the list of the free ones (`free`). The
contents of the blocks are the bytes `mem`.

The functions are executed one after another, so the semaphore of the heap is left out; at each
release of it `peak` takes the use of the pool into account.
-/

namespace MemHeap

open Word32

def rtAlignSize : ℕ := 4

def rtMemheapMagic : UInt32 := 0x1ea01ea0

def rtMemheapMask : UInt32 := 0xfffffffe

def rtMemheapUsed : UInt32 := 0x01

def rtMemheapMinialloc : ℕ := 12

/-- The header has six words. -/
def rtMemheapSize : ℕ := alignUp 24 rtAlignSize

def rtNull : ℕ := 0

/-- `struct rt_memheap`, with the headers of its blocks. -/
structure Heap where
  self : ℕ
  /-- The address of `free_header`, which is the value of `free_list`. -/
  freeList : ℕ
  startAddr : ℕ
  poolSize : ℕ
  /-- The count of free bytes. -/
  availableSize : ℕ
  maxUsedSize : ℕ
  magic : ℕ → UInt32
  poolPtr : ℕ → ℕ
  /-- `next` and `prev` of the headers. -/
  block : Links ℕ
  /-- `next_free` and `prev_free` of the headers. -/
  free : Links ℕ
  /-- The bytes behind the headers. -/
  mem : ByteMem.Mem
  /-- Not in the source: the largest use of the pool so far. -/
  peak : ℕ

namespace Heap

def memitemSize (h : Heap) (item : ℕ) : ℕ :=
  sub (sub (h.block.next item) item) rtMemheapSize

/-- `RT_MEMHEAP_IS_USED(item)`. -/
def isUsed (h : Heap) (item : ℕ) : Bool := h.magic item &&& rtMemheapUsed ≠ 0

def setMagic (h : Heap) (item : ℕ) (v : UInt32) : Heap :=
  { h with magic := Function.update h.magic item v }

/-- Set `pool_ptr` to the heap. -/
def setPool (h : Heap) (item : ℕ) : Heap :=
  { h with poolPtr := Function.update h.poolPtr item h.self }

def use (h : Heap) : ℕ := sub h.poolSize h.availableSize

/-- The test and the assignment of `max_used_size` after an allocation. -/
def noteUse (h : Heap) : Heap :=
  if h.use > h.maxUsedSize then { h with maxUsedSize := h.use } else h

/-- `rt_sem_release` of the lock. -/
def release (h : Heap) : Heap := { h with peak := max h.peak h.use }

/-- Put an item at the front of the free list. -/
def insertFree (h : Heap) (item : ℕ) : Heap :=
  { h with free := h.free.linkAfter h.freeList item }

/-- Take an item out of the free list. -/
def removeFree (h : Heap) (item : ℕ) : Heap := { h with free := h.free.unlink item }

/-- Take an item out of the free list and clear its pointers. -/
def takeFree (h : Heap) (item : ℕ) : Heap :=
  { h with free := ((h.free.unlink item).setNext item rtNull).setPrev item rtNull }

/-- Cut the block `item` at `new`, which becomes a block that is not used. -/
def cut (h : Heap) (item new : ℕ) : Heap :=
  let h := (h.setMagic new rtMemheapMagic).setPool new
  { h with block := h.block.linkAfter item new }

end Heap

def rtMemheapInit (h : Heap) (startAddr size : ℕ) : Heap :=
  let poolSize := alignDown size rtAlignSize
  let availableSize := sub poolSize (2 * rtMemheapSize)
  let h := { h with
    startAddr := startAddr
    poolSize := poolSize
    availableSize := availableSize
    maxUsedSize := sub poolSize availableSize
    peak := sub poolSize availableSize }
  -- the header of the free list
  let h := (h.setMagic h.freeList rtMemheapMagic).setPool h.freeList
  let h := { h with
    block := (h.block.setNext h.freeList rtNull).setPrev h.freeList rtNull
    free := (h.free.setNext h.freeList h.freeList).setPrev h.freeList h.freeList }
  -- the first block
  let item := startAddr
  let h := (h.setMagic item rtMemheapMagic).setPool item
  let tail := add (add item availableSize) rtMemheapSize
  let h := { h with
    block := (h.block.setNext item tail).setPrev item tail
    free := (h.free.setNext item item).setPrev item item }
  let h := h.insertFree item
  -- the block at the end, which is used
  let h := (h.setMagic tail (rtMemheapMagic ||| rtMemheapUsed)).setPool tail
  { h with
    block := (h.block.setNext tail startAddr).setPrev tail startAddr
    free := (h.free.setNext tail rtNull).setPrev tail rtNull }

/-- The size after rounding up and the test against `RT_MEMHEAP_MINIALLOC`. -/
def alignedSize (size : ℕ) : ℕ :=
  let size := alignUp size rtAlignSize
  if size < rtMemheapMinialloc then rtMemheapMinialloc else size

/-- The `while` loop of `rt_memheap_alloc`: `free_size` and `header_ptr` at its end. -/
def searchFree (h : Heap) (size : ℕ) : (fuel freeSize headerPtr : ℕ) → Except Fault (ℕ × ℕ)
  | 0, _, _ => .error .diverges
  | fuel + 1, freeSize, headerPtr =>
    if headerPtr ≠ h.freeList ∧ freeSize < size then
      let freeSize := h.memitemSize headerPtr
      if freeSize < size then searchFree h size fuel freeSize (h.free.next headerPtr)
      else searchFree h size fuel freeSize headerPtr
    else .ok (freeSize, headerPtr)

/-- The part of `rt_memheap_alloc` that uses the block it has found. -/
def allocFound (h : Heap) (size freeSize headerPtr : ℕ) : ℕ × Heap :=
  let h :=
    if freeSize ≥ add (add size rtMemheapSize) rtMemheapMinialloc then
      let newPtr := add (add headerPtr size) rtMemheapSize
      let h := h.cut headerPtr newPtr
      let h := (h.takeFree headerPtr).insertFree newPtr
      { h with
        availableSize := sub (sub h.availableSize size) rtMemheapSize }.noteUse
    else
      { h with availableSize := sub h.availableSize freeSize }.noteUse.takeFree headerPtr
  let h := h.setMagic headerPtr (h.magic headerPtr ||| rtMemheapUsed)
  (add headerPtr rtMemheapSize, h.release)

def rtMemheapAlloc (h : Heap) (size : ℕ) : Except Fault (ℕ × Heap) :=
  let size := alignedSize size
  if size < h.availableSize then do
    let (freeSize, headerPtr) ← searchFree h size loopFuel 0 (h.free.next h.freeList)
    if freeSize ≥ size then .ok (allocFound h size freeSize headerPtr)
    else .ok (rtNull, h.release)
  else .ok (rtNull, h)

/-- `rt_memheap_free` merges a block with the one before: `insert_header`, `header_ptr` and the
heap. -/
def mergePrev (h : Heap) (headerPtr : ℕ) : Bool × ℕ × Heap :=
  if h.isUsed (h.block.prev headerPtr) then (true, headerPtr, h)
  else
    (false, h.block.prev headerPtr,
      { h with
        availableSize := add h.availableSize rtMemheapSize
        block := h.block.unlink headerPtr })

/-- Merge a block with the free block behind it. -/
def Heap.absorbNext (h : Heap) (headerPtr : ℕ) : Heap :=
  let freePtr := h.block.next headerPtr
  { h with
    block := (h.block.setPrev (h.block.next freePtr) headerPtr).setNext headerPtr
      (h.block.next freePtr) }.removeFree freePtr

/-- `rt_memheap_free` merges a block with the one behind. -/
def mergeNext (h : Heap) (headerPtr : ℕ) : Heap :=
  if h.isUsed (h.block.next headerPtr) then h
  else
    { h with availableSize := add h.availableSize rtMemheapSize }.absorbNext headerPtr

/-- The merges and the insertion at the end of `rt_memheap_free`. -/
def mergeAndInsert (h : Heap) (headerPtr : ℕ) : Heap :=
  let (insertHeader, headerPtr, h) := mergePrev h headerPtr
  let h := mergeNext h headerPtr
  let h := if insertHeader then h.insertFree headerPtr else h
  h.release

/-- The part of `rt_memheap_free` after the checks. -/
def freeBlock (h : Heap) (headerPtr : ℕ) : Heap :=
  let h := h.setMagic headerPtr (h.magic headerPtr &&& ~~~rtMemheapUsed)
  mergeAndInsert
    { h with availableSize := add h.availableSize (h.memitemSize headerPtr) } headerPtr

/-- A block of another heap is not part of the model. -/
def rtMemheapFree (h : Heap) (ptr : ℕ) : Except Fault Heap :=
  if ptr = rtNull then .ok h
  else
    let headerPtr := sub ptr rtMemheapSize
    if h.magic headerPtr &&& rtMemheapMask = rtMemheapMagic ∧
        h.magic headerPtr &&& rtMemheapUsed ≠ 0 ∧
        h.magic (h.block.next headerPtr) &&& rtMemheapMask = rtMemheapMagic then
      if h.poolPtr headerPtr = h.self then .ok (freeBlock h headerPtr) else .error .badPointer
    else .error .assertion

/-- `rt_memheap_realloc` takes the part it needs from the free block `nextPtr`. -/
def growInto (h : Heap) (headerPtr nextPtr ptr oldsize newsize : ℕ) : Heap :=
  let h := { h with
    availableSize := sub h.availableSize (sub newsize oldsize) }.noteUse
  let h := h.removeFree nextPtr
  let h := { h with block := h.block.unlink nextPtr }
  let nextPtr := add ptr newsize
  ((h.cut headerPtr nextPtr).insertFree nextPtr).release

/-- Put a block into the free list and count its bytes. -/
def insertCounted (h : Heap) (newPtr : ℕ) : Heap :=
  let h := h.insertFree newPtr
  { h with availableSize := add h.availableSize (h.memitemSize newPtr) }.release

/-- `rt_memheap_realloc` merges the block it has cut off with the one behind, and inserts it into
the free list. -/
def absorbAndInsert (h : Heap) (newPtr : ℕ) : Heap :=
  insertCounted
    (if h.isUsed (h.block.next newPtr) then h
    else
      { h with availableSize :=
          Word32.sub h.availableSize (h.memitemSize (h.block.next newPtr)) }.absorbNext newPtr)
    newPtr

/-- `rt_memheap_realloc` cuts the end of a block off. -/
def shrinkBlock (h : Heap) (headerPtr newsize : ℕ) : Heap :=
  let newPtr := add (add headerPtr newsize) rtMemheapSize
  absorbAndInsert (h.cut headerPtr newPtr) newPtr

/-- `rt_memheap_realloc` moves a block. -/
def moveBlock (h : Heap) (ptr oldsize newsize : ℕ) : Except Fault (ℕ × Heap) := do
  let (newPtr, h) ← rtMemheapAlloc h newsize
  if newPtr = rtNull then .ok (newPtr, h)
  else
    let size := if oldsize < newsize then oldsize else newsize
    let h ← rtMemheapFree { h with mem := ByteMem.copy h.mem newPtr ptr size } ptr
    .ok (newPtr, h)

def rtMemheapRealloc (h : Heap) (ptr newsize : ℕ) : Except Fault (ℕ × Heap) :=
  if newsize = 0 then do
    let h ← rtMemheapFree h ptr
    .ok (rtNull, h)
  else
    let newsize := alignedSize newsize
    if ptr = rtNull then rtMemheapAlloc h newsize
    else
      let headerPtr := sub ptr rtMemheapSize
      let oldsize := h.memitemSize headerPtr
      if newsize > oldsize then
        let nextPtr := h.block.next headerPtr
        if nextPtr > headerPtr then
          if h.isUsed nextPtr = false ∧
              add (h.memitemSize nextPtr) oldsize > add newsize rtMemheapMinialloc then
            .ok (ptr, growInto h headerPtr nextPtr ptr oldsize newsize)
          else moveBlock h.release ptr oldsize newsize
        else .error .assertion
      else if add (add newsize rtMemheapSize) rtMemheapMinialloc ≥ oldsize then
        .ok (ptr, h)
      else .ok (ptr, shrinkBlock h headerPtr newsize)

end MemHeap
