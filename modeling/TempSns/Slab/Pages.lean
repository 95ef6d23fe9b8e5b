import TempSns.Lib.Chain
import TempSns.Lib.Exec
import TempSns.Lib.Tiling
import TempSns.Lib.Word32

/-!
# The page allocator of the slab allocator

Embedding of `rt_page_alloc`, `rt_page_free` and `rt_page_init` of `slab.c`. A `struct rt_page_head`
has the size of a page and lies at the start of a page, so that a pointer to one is modelled by the
number of its page: the address divided by `RT_MM_PAGE_SIZE`, below `2 ^ 20`. `RT_NULL` is `none`.

Both functions walk along the list with a pointer `prev` to the slot they came from, which is
`rt_page_list` or the field `next` of a page.
-/

namespace Slab

open SinglyLinked

def rtMmPageSize : ℕ := 4096

/-- `rt_page_list` and the fields of the page heads. -/
structure PageHeap where
  list : Option ℕ
  next : ℕ → Option ℕ
  /-- `page` of a page head: the number of pages. -/
  page : ℕ → ℕ

/-- The pointer `b + n` for a page head `b`. -/
def pageAdd (b n : ℕ) : ℕ := (b + n) % 2 ^ 20

/-- The value of a pointer. -/
def ptrVal (p : Option ℕ) : ℕ := p.getD 0

namespace PageHeap

def get (h : PageHeap) (prev : Option ℕ) : Option ℕ := slot h.next h.list prev

def set (h : PageHeap) (prev p : Option ℕ) : PageHeap :=
  { h with list := setHead h.list p prev, next := setLink h.next p prev }

/-- Write both fields of a page head. -/
def setPage (h : PageHeap) (n : ℕ) (next : Option ℕ) (page : ℕ) : PageHeap :=
  { h with next := Function.update h.next n next, page := Function.update h.page n page }

end PageHeap

/-- The loop of `rt_page_alloc`. -/
def pageAllocLoop (h : PageHeap) (npages : ℕ) :
    (fuel : ℕ) → (prev : Option ℕ) → Except Fault (Option ℕ × PageHeap)
  | 0, _ => .error .diverges
  | fuel + 1, prev =>
    match h.get prev with
    | none => .ok (none, h)
    | some b =>
      if h.page b > npages then
        let n := pageAdd b npages
        .ok (some b, (h.setPage n (h.next b) (Word32.sub (h.page b) npages)).set prev (some n))
      else if h.page b = npages then .ok (some b, h.set prev (h.next b))
      else pageAllocLoop h npages fuel (some b)

def rtPageAlloc (h : PageHeap) (npages : ℕ) : Except Fault (Option ℕ × PageHeap) :=
  if npages = 0 then .ok (none, h) else pageAllocLoop h npages loopFuel none

/-- The pages `n` are put behind the page head `b`. The free pages behind `b` are merged if they follow
without a gap. -/
def mergeBehind (h : PageHeap) (b npages : ℕ) : Except Fault PageHeap :=
  let page := Word32.add (h.page b) npages
  let h := { h with page := Function.update h.page b page }
  if pageAdd b page = ptrVal (h.next b) then
    match h.next b with
    | none => .error .badPointer
    | some next => .ok (h.setPage b (h.next next) (Word32.add page (h.page next)))
  else .ok h

/-- The loop of `rt_page_free` and the insertion behind it. -/
def pageFreeLoop (h : PageHeap) (n npages : ℕ) :
    (fuel : ℕ) → (prev : Option ℕ) → Except Fault PageHeap
  | 0, _ => .error .diverges
  | fuel + 1, prev =>
    match h.get prev with
    | none => .ok ((h.setPage n none npages).set prev (some n))
    | some b =>
      if h.page b > 0 ∧ (b > n ∨ pageAdd b (h.page b) ≤ n) then
        if pageAdd b (h.page b) = n then mergeBehind h b npages
        else if b = pageAdd n npages then
          .ok ((h.setPage n (h.next b) (Word32.add (h.page b) npages)).set prev (some n))
        else if b > pageAdd n npages then .ok ((h.setPage n (some b) npages).set prev (some n))
        else pageFreeLoop h n npages fuel (some b)
      else .error .assertion

def rtPageFree (h : PageHeap) (addr npages : ℕ) : Except Fault PageHeap :=
  if addr ≠ 0 ∧ addr % rtMmPageSize = 0 ∧ npages ≠ 0 then
    pageFreeLoop h (addr / rtMmPageSize) npages loopFuel none
  else .error .assertion

def rtPageInit (h : PageHeap) (addr npages : ℕ) : Except Fault PageHeap :=
  if addr ≠ 0 ∧ npages ≠ 0 then rtPageFree { h with list := none } addr npages else .error .assertion

end Slab
