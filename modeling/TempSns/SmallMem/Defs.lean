import TempSns.Lib.ByteMem
import TempSns.Lib.Exec
import TempSns.Lib.Word32

/-!
# The small-memory heap

Embedding of `src/mem.c` for the 32-bit build of the board (`RT_ALIGN_SIZE` is 4, no memory
trace). The heap is one region whose blocks each start with a `struct heap_mem`. All block
positions are offsets from `heap_ptr`, as `next` and `prev` are in the source, and the memory is
indexed by these offsets. Pointers handed to the caller are absolute addresses; `0` is `RT_NULL`.

The heap semaphore serialises the calls, so each call is one function on the heap state. A call
returns `Except.ok`, or a `Fault` where an `RT_ASSERT` fails or a loop never ends.
-/

namespace SmallMem

open ByteMem Word32

/-- `RT_ALIGN_SIZE` of the board configuration. -/
def rtAlignSize : ℕ := 4

def rtNull : ℕ := 0

def heapMagic : ℕ := 0x1ea0

/-- `sizeof(struct heap_mem)`: two 16-bit and two 32-bit fields. -/
def sizeofHeapMem : ℕ := 12

/-- `MIN_SIZE` of a 32-bit build. -/
def minSize : ℕ := 12

def minSizeAligned : ℕ := alignUp minSize rtAlignSize

def sizeofStructMem : ℕ := alignUp sizeofHeapMem rtAlignSize

/-- `struct heap_mem`, the header of a block. -/
@[ext]
structure HeapMem where
  /-- `HEAP_MAGIC` in every block header. -/
  magic : ℕ
  /-- Nonzero while the block is allocated. -/
  used : ℕ
  /-- The offset of the next header. -/
  next : ℕ
  /-- The offset of the header before. -/
  prev : ℕ
  deriving DecidableEq, Repr

/-- The header stored at offset `p`. -/
def header (m : Mem) (p : ℕ) : HeapMem :=
  ⟨load m p 2, load m (p + 2) 2, load m (p + 4) 4, load m (p + 8) 4⟩

/-- `mem->magic = v`. -/
def setMagic (m : Mem) (p v : ℕ) : Mem := store m p 2 v

/-- `mem->used = v`. -/
def setUsed (m : Mem) (p v : ℕ) : Mem := store m (p + 2) 2 v

/-- `mem->next = v`. -/
def setNext (m : Mem) (p v : ℕ) : Mem := store m (p + 4) 4 v

/-- `mem->prev = v`. -/
def setPrev (m : Mem) (p v : ℕ) : Mem := store m (p + 8) 4 v

/-- The static variables of `mem.c` and the bytes of the heap region. `heapEnd` and `lfree` are
pointers into the region, kept as offsets from `heapPtr`. -/
structure Heap where
  /-- The bytes of the region, indexed from `heap_ptr`. -/
  mem : Mem
  /-- `heap_ptr`, the aligned start of the region. -/
  heapPtr : ℕ
  /-- `heap_end`, the last block header. -/
  heapEnd : ℕ
  /-- `lfree`, pointer to the lowest free block. -/
  lfree : ℕ
  /-- `mem_size_aligned`, the data capacity. -/
  memSizeAligned : ℕ
  /-- The count of allocated bytes. -/
  usedMem : ℕ
  /-- The maximum of `used_mem`. -/
  maxMem : ℕ

/-- `none` is the error branch, which prints a message and leaves the heap
uninitialised. -/
def rtSystemHeapInit (m : Mem) (beginAddr endAddr : ℕ) : Option Heap :=
  let beginAlign := alignUp beginAddr rtAlignSize
  let endAlign := alignDown endAddr rtAlignSize
  if 2 * sizeofStructMem < endAlign ∧ beginAlign ≤ endAlign - 2 * sizeofStructMem then
    let memSizeAligned := endAlign - beginAlign - 2 * sizeofStructMem
    -- the start of the heap
    let m := setMagic m 0 heapMagic
    let m := setNext m 0 (memSizeAligned + sizeofStructMem)
    let m := setPrev m 0 0
    let m := setUsed m 0 0
    -- the end of the heap
    let heapEnd := (header m 0).next
    let m := setMagic m heapEnd heapMagic
    let m := setUsed m heapEnd 1
    let m := setNext m heapEnd (memSizeAligned + sizeofStructMem)
    let m := setPrev m heapEnd (memSizeAligned + sizeofStructMem)
    some { mem := m, heapPtr := beginAlign, heapEnd, lfree := 0, memSizeAligned,
           usedMem := 0, maxMem := 0 }
  else none

/-- `used_mem += n`, keeping the maximum in `max_mem`. -/
def Heap.addUsed (h : Heap) (n : ℕ) : Heap :=
  let usedMem := add h.usedMem n
  { h with usedMem, maxMem := if h.maxMem < usedMem then usedMem else h.maxMem }

/-! ## Merging -/

/-- The forward half of `plug_holes`: combine `mem` and `mem->next`. -/
def plugForward (h : Heap) (mem : ℕ) : Heap :=
  let nmem := (header h.mem mem).next
  if mem ≠ nmem ∧ (header h.mem nmem).used = 0 ∧ nmem ≠ h.heapEnd then
    let m := setNext h.mem mem (header h.mem nmem).next
    { h with
      lfree := if h.lfree = nmem then mem else h.lfree
      mem := setPrev m (header m nmem).next mem }
  else h

/-- The backward half of `plug_holes`: combine `mem` and `mem->prev`. -/
def plugBackward (h : Heap) (mem : ℕ) : Heap :=
  let pmem := (header h.mem mem).prev
  if pmem ≠ mem ∧ (header h.mem pmem).used = 0 then
    let m := setNext h.mem pmem (header h.mem mem).next
    { h with
      lfree := if h.lfree = mem then pmem else h.lfree
      mem := setPrev m (header m mem).next pmem }
  else h

/-- Offsets are not below `heap_ptr`, so the first assertion of the source holds by
construction. -/
def plugHoles (h : Heap) (mem : ℕ) : Except Fault Heap :=
  if mem < h.heapEnd ∧ (header h.mem mem).used = 0 then
    .ok (plugBackward (plugForward h mem) mem)
  else .error .assertion

/-! ## Allocation -/

/-- The `for` loop of `rt_malloc`: the first block from `ptr` on that is free and has `size` bytes
of data, `some none` when the loop ends without one and `none` when the fuel is used up. -/
def mallocSearch (h : Heap) (size : ℕ) : ℕ → ℕ → Option (Option ℕ)
  | 0, _ => none
  | fuel + 1, ptr =>
    if ptr < sub h.memSizeAligned size then
      if (header h.mem ptr).used = 0 ∧
          size ≤ sub (header h.mem ptr).next (add ptr sizeofStructMem) then
        some (some ptr)
      else mallocSearch h size fuel (header h.mem ptr).next
    else some none

/-- Create a free block `mem2` at `ptr2` inside the block at `ptr` and let `mem->next` point to it.
`rt_malloc` and `rt_realloc` do this with the same stores. -/
def createMem2 (m : Mem) (ptr ptr2 : ℕ) : Mem :=
  let m := setMagic m ptr2 heapMagic
  let m := setUsed m ptr2 0
  let m := setNext m ptr2 (header m ptr).next
  let m := setPrev m ptr2 ptr
  setNext m ptr ptr2

/-- Let the block after `mem2` point back to it, unless that is the end block. -/
def linkMem2 (h : Heap) (m : Mem) (ptr2 : ℕ) : Mem :=
  if (header m ptr2).next ≠ add h.memSizeAligned sizeofStructMem then
    setPrev m (header m ptr2).next ptr2
  else m

/-- Take `size` bytes of the free block at `ptr`: split it when the remainder can hold a block of
its own, else use it whole. The second component is what is added to `used_mem`. -/
def mallocTake (h : Heap) (ptr size : ℕ) : Mem × ℕ :=
  if add (add size sizeofStructMem) minSizeAligned ≤
      sub (header h.mem ptr).next (add ptr sizeofStructMem) then
    let ptr2 := add (add ptr sizeofStructMem) size
    let m := createMem2 h.mem ptr ptr2
    let m := setUsed m ptr 1
    let m := linkMem2 h m ptr2
    (setMagic m ptr heapMagic, add size sizeofStructMem)
  else
    let m := setUsed h.mem ptr 1
    (setMagic m ptr heapMagic, sub (header m ptr).next ptr)

/-- The `while` loop that moves `lfree` to the next free block or to the end block. -/
def lfreeAdvance (h : Heap) : ℕ → ℕ → Option ℕ
  | 0, _ => none
  | fuel + 1, p =>
    if (header h.mem p).used ≠ 0 ∧ p ≠ h.heapEnd then
      lfreeAdvance h fuel (header h.mem p).next
    else some p

/-- `rt_malloc` after the block at `ptr` has been taken: move `lfree` and check the result. -/
def mallocFinish (h : Heap) (ptr size : ℕ) : Except Fault (ℕ × Heap) :=
  let mem := h.heapPtr + ptr
  match (if ptr = h.lfree then lfreeAdvance h loopFuel h.lfree else some h.lfree) with
  | none => .error .diverges
  | some lfree =>
    if (ptr = h.lfree → lfree = h.heapEnd ∨ (header h.mem lfree).used = 0) ∧
        mem + sizeofStructMem + size ≤ h.heapPtr + h.heapEnd ∧
        (mem + sizeofStructMem) % rtAlignSize = 0 ∧ mem % rtAlignSize = 0 then
      .ok (mem + sizeofStructMem, { h with lfree })
    else .error .assertion

/-- The number of data bytes `rt_malloc` looks for: the aligned size, but at least
`MIN_SIZE_ALIGNED`. -/
def request (size : ℕ) : ℕ :=
  if alignUp size rtAlignSize < minSizeAligned then minSizeAligned
  else alignUp size rtAlignSize

/-- `rt_malloc` after the search loop, with its outcome as argument. -/
def mallocFound (h : Heap) (size : ℕ) : Option (Option ℕ) → Except Fault (ℕ × Heap)
  | none => .error .diverges
  | some none => .ok (rtNull, h)
  | some (some ptr) =>
    let (m, n) := mallocTake h ptr size
    mallocFinish { h.addUsed n with mem := m } ptr size

/-- The part of `rt_malloc` inside the heap semaphore, for a size that is already aligned. -/
def mallocLocked (h : Heap) (size : ℕ) : Except Fault (ℕ × Heap) :=
  mallocFound h size (mallocSearch h size loopFuel h.lfree)

def rtMalloc (h : Heap) (size : ℕ) : Except Fault (ℕ × Heap) :=
  if size = 0 then .ok (rtNull, h)
  else if h.memSizeAligned < alignUp size rtAlignSize then .ok (rtNull, h)
  else mallocLocked h (request size)

/-- The block is cleared with `rt_memset`. -/
def rtCalloc (h : Heap) (count size : ℕ) : Except Fault (ℕ × Heap) :=
  match rtMalloc h (mul count size) with
  | .error f => .error f
  | .ok (p, h) =>
    if p ≠ rtNull then
      .ok (p, { h with mem := fill h.mem (p - h.heapPtr) (mul count size) 0 })
    else .ok (p, h)

/-! ## Release -/

/-- The stores of `rt_free` in front of the merge: the block becomes unused, and `lfree` moves down
to it. -/
def releaseBlock (h : Heap) (mem : ℕ) : Heap :=
  let m := setMagic (setUsed h.mem mem 0) mem heapMagic
  { h with
    mem := m
    lfree := if mem < h.lfree then mem else h.lfree
    usedMem := sub h.usedMem (sub (header m mem).next mem) }

/-- The header of the block whose data starts at the address `rmem`. -/
def blockOf (h : Heap) (rmem : ℕ) : ℕ := sub rmem (h.heapPtr + sizeofStructMem)

def rtFree (h : Heap) (rmem : ℕ) : Except Fault Heap :=
  if rmem = rtNull then .ok h
  else if rmem % rtAlignSize = 0 ∧ h.heapPtr ≤ rmem ∧ rmem < h.heapPtr + h.heapEnd then
    let mem := blockOf h rmem
    if (header h.mem mem).used ≠ 0 ∧ (header h.mem mem).magic = heapMagic then
      plugHoles (releaseBlock h mem) mem
    else .error .assertion
  else .error .assertion

/-! ## Resizing -/

/-- The branch of `rt_realloc` that shortens the block at `ptr` in place and frees its tail. -/
def reallocSplit (h : Heap) (ptr size newsize : ℕ) : Except Fault Heap :=
  let ptr2 := add (add ptr sizeofStructMem) newsize
  let m := createMem2 h.mem ptr ptr2
  plugHoles
    { h with
      mem := linkMem2 h m ptr2
      usedMem := sub h.usedMem (sub size newsize) }
    ptr2

/-- The branch of `rt_realloc` that moves the data to a new block. -/
def reallocMove (h : Heap) (rmem size newsize : ℕ) : Except Fault (ℕ × Heap) :=
  match rtMalloc h newsize with
  | .error f => .error f
  | .ok (nmem, h) =>
    if nmem ≠ rtNull then
      let m := copy h.mem (nmem - h.heapPtr) (rmem - h.heapPtr)
        (if size < newsize then size else newsize)
      match rtFree { h with mem := m } rmem with
      | .error f => .error f
      | .ok h => .ok (nmem, h)
    else .ok (nmem, h)

def rtRealloc (h : Heap) (rmem newsize : ℕ) : Except Fault (ℕ × Heap) :=
  let newsize := alignUp newsize rtAlignSize
  if h.memSizeAligned < newsize then .ok (rtNull, h)
  else if newsize = 0 then
    match rtFree h rmem with
    | .error f => .error f
    | .ok h => .ok (rtNull, h)
  else if rmem = rtNull then rtMalloc h newsize
  else if rmem < h.heapPtr ∨ h.heapPtr + h.heapEnd ≤ rmem then .ok (rmem, h)
  else
    let ptr := blockOf h rmem
    let size := sub (sub (header h.mem ptr).next ptr) sizeofStructMem
    if size = newsize then .ok (rmem, h)
    else if add (add newsize sizeofStructMem) minSize < size then
      match reallocSplit h ptr size newsize with
      | .error f => .error f
      | .ok h => .ok (rmem, h)
    else reallocMove h rmem size newsize

end SmallMem
