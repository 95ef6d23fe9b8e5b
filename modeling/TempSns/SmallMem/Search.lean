import TempSns.Lib.Transition
import TempSns.SmallMem.Safety

/-!
# What the search of the allocator finds

`rt_malloc` looks for a free block from `lfree` on, and stops at the offset `mem_size_aligned - size`.
So it does not see a block below `lfree`, which `rt_realloc` may leave there, nor a last block that fits
exactly. `Visible` are the blocks it sees, and `rt_malloc` answers `RT_NULL` iff it sees no
block that fits (`rtMalloc_null_iff`).

The runs of this file start from every region that `rt_system_heap_init` accepts. A heap with less
than twelve data bytes has no block that fits any request; the search never ends there, and the heap
stays as it is (`Tiny`).
-/

namespace SmallMem

open ByteMem Tiling Word32

variable {h h' : Heap} {s s' : State} {ts : List Tile} {size n p q : ℕ} {count : ℕ} {a e : ℕ}
  {r : ℕ}

/-- The block at `p` is free and has at least `n` bytes of data. -/
def Fits (h : Heap) (n p : ℕ) : Prop :=
  ∃ bs, Blocks h bs ∧ p ∈ bs ∧ (header h.mem p).used = 0 ∧ p + 12 + n ≤ (header h.mem p).next

/-- The search for `n` bytes comes to the block at `p`. -/
def Visible (h : Heap) (n p : ℕ) : Prop := h.lfree ≤ p ∧ p + n < h.memSizeAligned

/-- The size can be rounded up to at most the capacity, and the search sees a block that fits. -/
def Available (h : Heap) (size : ℕ) : Prop :=
  alignUp size rtAlignSize ≤ h.memSizeAligned ∧
    ∃ p, Fits h (request size) p ∧ Visible h (request size) p

/-! ## Blocks of a heap -/

lemma lt_of_isChain {xs : List ℕ}
    (hchain : (a :: xs ++ [e]).IsChain fun p q => (header h.mem p).next = q ∧ p + 12 ≤ q) :
    a < e := by
  induction xs generalizing a with
  | nil =>
    have hlink := (List.isChain_cons_cons.mp hchain).1
    omega
  | cons x xs ih =>
    obtain ⟨hlink, hrest⟩ := List.isChain_cons_cons.mp hchain
    have hlt := ih hrest
    omega

lemma isChain_unique {xs ys : List ℕ}
    (hx : (a :: xs ++ [e]).IsChain fun p q => (header h.mem p).next = q ∧ p + 12 ≤ q)
    (hy : (a :: ys ++ [e]).IsChain fun p q => (header h.mem p).next = q ∧ p + 12 ≤ q) :
    xs = ys := by
  induction xs generalizing a ys with
  | nil =>
    cases ys with
    | nil => rfl
    | cons y ys =>
      -- the other chain would go on behind the end
      have hxlink := (List.isChain_cons_cons.mp hx).1.1
      obtain ⟨⟨hylink, -⟩, hrest⟩ := List.isChain_cons_cons.mp hy
      have hlt := lt_of_isChain hrest
      omega
  | cons x xs ih =>
    obtain ⟨⟨hxlink, -⟩, hxrest⟩ := List.isChain_cons_cons.mp hx
    cases ys with
    | nil =>
      have hylink := (List.isChain_cons_cons.mp hy).1.1
      have hlt := lt_of_isChain hxrest
      omega
    | cons y ys =>
      obtain ⟨⟨hylink, -⟩, hyrest⟩ := List.isChain_cons_cons.mp hy
      obtain rfl : x = y := hxlink.symm.trans hylink
      rw [ih hxrest hyrest]

lemma Blocks.unique {bs bs' : List ℕ} (hb : Blocks h bs) (hb' : Blocks h bs') : bs = bs' := by
  obtain ⟨xs, rfl⟩ := List.head?_eq_some_iff.mp hb.head
  obtain ⟨ys, rfl⟩ := List.head?_eq_some_iff.mp hb'.head
  rw [isChain_unique hb.next hb'.next]

/-- The free blocks that fit are the free tiles that fit. -/
lemma HeapInv.fits_iff (inv : HeapInv h ts) : Fits h n p ↔
    ∃ pre t post, ts = pre ++ t :: post ∧ t.used = false ∧ n + 12 ≤ t.size ∧ p = span pre := by
  constructor
  · rintro ⟨bs, hb, hp, hfree, hroom⟩
    rw [hb.unique inv.blocks] at hp
    obtain ⟨pre, t, post, rfl, rfl⟩ := mem_allStarts.mp hp
    rw [inv.walk.block.header_eq] at hroom hfree
    rw [Nat.zero_add] at hroom ⊢
    refine ⟨pre, t, post, rfl, by simpa using hfree, ?_, rfl⟩
    dsimp only at hroom
    omega
  · rintro ⟨pre, t, post, rfl, ht, hroom, rfl⟩
    have hblock := inv.walk.block.header_eq
    rw [Nat.zero_add] at hblock
    refine ⟨_, inv.blocks, mem_allStarts.mpr ⟨pre, t, post, rfl, (Nat.zero_add _).symm⟩, ?_, ?_⟩
    · rw [hblock, ht]
      rfl
    · rw [hblock]
      dsimp only
      omega

/-! ## Search -/

lemma mallocSearch_of_not_lt {off : ℕ} (hbound : ¬ off < sub h.memSizeAligned size) :
    mallocSearch h size loopFuel off = some none := by
  obtain ⟨fuel, hfuel⟩ : ∃ fuel, loopFuel = fuel + 1 := ⟨4294967295, by rw [loopFuel]; norm_num⟩
  rw [hfuel, mallocSearch, if_neg hbound]

/-- The search finds nothing iff it sees no block that fits. -/
lemma mallocSearch_lfree_none_iff (inv : HeapInv h ts) (hsize : size ≤ h.memSizeAligned) :
    mallocSearch h size loopFuel h.lfree = some none ↔ ¬ ∃ p, Fits h size p ∧ Visible h size p := by
  obtain ⟨r, hr, hfound, hnone⟩ := mallocSearch_lfree inv hsize
  rw [hr, Option.some.injEq]
  constructor
  · rintro hr' ⟨p, hfits, hle, hlt⟩
    obtain ⟨pre, t, post, hts, ht, hroom, rfl⟩ := inv.fits_iff.mp hfits
    have hbound := hnone hr' pre t post hts ht hroom hle
    omega
  · intro hnot
    by_contra hsome
    obtain ⟨p, rfl⟩ := Option.ne_none_iff_exists'.mp hsome
    obtain ⟨pre, t, post, hts, ht, hroom, hp, hvisible⟩ := hfound p rfl
    exact hnot ⟨p, inv.fits_iff.mpr ⟨pre, t, post, hts, ht, hroom, hp⟩, hvisible⟩

/-- `rt_malloc` answers `RT_NULL` iff the search sees no block that fits. -/
lemma rtMalloc_null_iff (inv : HeapInv h ts) (hpos : size ≠ 0) :
    (∃ h', rtMalloc h size = .ok (rtNull, h')) ↔ ¬ Available h size := by
  unfold rtMalloc
  rw [if_neg hpos]
  by_cases hbig : h.memSizeAligned < alignUp size rtAlignSize
  · rw [if_pos hbig]
    exact iff_of_true ⟨h, rfl⟩ fun havail => absurd havail.1 (by omega)
  · rw [if_neg hbig]
    have hreq := request_le_capacity inv (not_lt.mp hbig)
    have havail : Available h size ↔ ∃ p, Fits h (request size) p ∧ Visible h (request size) p :=
      and_iff_right (not_lt.mp hbig)
    rw [havail, ← mallocSearch_lfree_none_iff inv hreq]
    constructor
    · rintro ⟨h', hnull⟩
      obtain ⟨r, hr, hfound, -⟩ := mallocSearch_lfree inv hreq
      cases r with
      | none => exact hr
      | some p =>
        -- a block that was found is handed out
        obtain ⟨pre, t, post, rfl, ht, hfit, rfl, -⟩ := hfound p rfl
        rw [mallocLocked, hr, mallocFound_some inv ht (request_ge size) (request_aligned size)
          hfit] at hnull
        have heq := congrArg Prod.fst (Except.ok.inj hnull)
        simp [rtNull] at heq
    · intro hnone
      exact ⟨h, by rw [mallocLocked, hnone, mallocFound]⟩

/-! ## Heaps without room for a block -/

/-- A heap with less than twelve data bytes: one free block and the end block. -/
structure Tiny (h : Heap) : Prop where
  capacity : h.memSizeAligned < 12
  end_eq : h.heapEnd = h.memSizeAligned + 12
  lfree : h.lfree = 0
  start : (header h.mem 0).next = h.heapEnd
  stop : (header h.mem h.heapEnd).next = h.heapEnd ∧ (header h.mem h.heapEnd).used = 1

lemma Tiny.of_init {m : Mem} {beginAddr endAddr : ℕ} (hend : endAddr < 2 ^ 32)
    (hinit : rtSystemHeapInit m beginAddr endAddr = some h) (hcap : h.memSizeAligned < 12) :
    Tiny h := by
  have f := rtSystemHeapInit_fresh hend hinit
  exact ⟨hcap, f.end_eq, f.lfree, by rw [f.start], by rw [f.stop]; exact ⟨rfl, rfl⟩⟩

namespace Tiny

variable (h12 : Tiny h)

include h12

lemma mallocSearch_end (hn : h.memSizeAligned < n) (hbound : n ≤ 12) (fuel : ℕ) :
    mallocSearch h n fuel h.heapEnd = none := by
  have hend := h12.end_eq
  have hin : h.heapEnd < sub h.memSizeAligned n := by
    rw [sub]
    omega
  induction fuel with
  | zero => rfl
  | succ fuel ih =>
    rw [mallocSearch, if_pos hin, h12.stop.1, h12.stop.2, if_neg (by simp)]
    exact ih

/-- The search for twelve bytes does not end, however long it goes on. -/
lemma mallocSearch_diverges (fuel : ℕ) : mallocSearch h 12 fuel h.lfree = none := by
  have hcap := h12.capacity
  have hend := h12.end_eq
  have hin : 0 < sub h.memSizeAligned 12 := by
    rw [sub]
    omega
  have hsmall : ¬ ((header h.mem 0).used = 0 ∧ 12 ≤ sub h.heapEnd (add 0 sizeofStructMem)) := by
    rintro ⟨-, hroom⟩
    rw [sizeofStructMem_eq, add_of_lt (by norm_num), sub_of_le (by omega) (by omega)] at hroom
    omega
  cases fuel with
  | zero => rfl
  | succ fuel =>
    rw [h12.lfree, mallocSearch, if_pos hin, h12.start, if_neg hsmall]
    exact h12.mallocSearch_end hcap le_rfl _

lemma mallocLocked_diverges : mallocLocked h 12 = .error .diverges := by
  rw [mallocLocked, h12.mallocSearch_diverges, mallocFound]

lemma request_eq (hsize : alignUp size rtAlignSize ≤ h.memSizeAligned) : request size = 12 := by
  have hcap := h12.capacity
  rw [request, minSizeAligned_eq, if_pos (by omega)]

/-- `rt_malloc` answers `RT_NULL` and changes nothing, or does not return. -/
lemma rtMalloc_eq (size : ℕ) : rtMalloc h size =
    if size = 0 ∨ h.memSizeAligned < alignUp size rtAlignSize then .ok (rtNull, h)
    else .error .diverges := by
  unfold rtMalloc
  by_cases hzero : size = 0
  · rw [if_pos hzero, if_pos (.inl hzero)]
  · rw [if_neg hzero]
    by_cases hbig : h.memSizeAligned < alignUp size rtAlignSize
    · rw [if_pos hbig, if_pos (.inr hbig)]
    · rw [if_neg hbig, if_neg (not_or.mpr ⟨hzero, hbig⟩), h12.request_eq (not_lt.mp hbig)]
      exact h12.mallocLocked_diverges

lemma eq_of_rtMalloc (hok : rtMalloc h size = .ok (r, h')) : r = rtNull ∧ h' = h := by
  rw [h12.rtMalloc_eq] at hok
  split at hok
  · cases hok
    exact ⟨rfl, rfl⟩
  · cases hok

lemma eq_of_rtCalloc {count r : ℕ} (hok : rtCalloc h count size = .ok (r, h')) :
    r = rtNull ∧ h' = h := by
  unfold rtCalloc at hok
  split at hok
  case h_1 => cases hok
  case h_2 r₁ h₁ hmalloc =>
    obtain ⟨rfl, rfl⟩ := h12.eq_of_rtMalloc hmalloc
    rw [if_neg (not_not.mpr rfl)] at hok
    cases hok
    exact ⟨rfl, rfl⟩

/-- No block has twelve bytes of data. -/
lemma not_fits (hn : 12 ≤ n) (p : ℕ) : ¬ Fits h n p := by
  rintro ⟨bs, hb, hp, -, hroom⟩
  have hcap := h12.capacity
  have hend := h12.end_eq
  have hnext : (header h.mem p).next ≤ h.heapEnd := by
    obtain ⟨-, hmem | heq⟩ := hb.next_mem hp
    · -- a block behind another one ends in front of the end block
      obtain ⟨xs, ys, hxs⟩ := List.append_of_mem hmem
      have hchain := hb.next
      rw [hxs, List.append_assoc] at hchain
      exact (lt_of_isChain (List.isChain_append.mp hchain).2.1).le
    · exact heq.le
  omega

lemma not_available (size : ℕ) : ¬ Available h size := by
  rintro ⟨hsize, p, hfits, -⟩
  exact h12.not_fits (h12.request_eq hsize).ge p hfits

end Tiny

/-! ## Runs from every region -/

/-- A state after `rt_system_heap_init`, with no allocation. -/
def Started (s : State) : Prop :=
  ∃ (m : Mem) (beginAddr endAddr : UInt32),
    rtSystemHeapInit m beginAddr.toNat endAddr.toNat = some s.heap ∧ s.live = fun _ => none

/-- The states of runs of allowed actions in which no `rt_calloc` wraps, from every region that is
accepted. -/
def Reachable (s : State) : Prop :=
  Transition.Reach Started (fun s c => (step s c).toOption) (fun s c => Allowed s c ∧ NoWrap c) s

/-- Nothing was allocated in a heap without room for a block. -/
structure TinyState (s : State) : Prop where
  tiny : Tiny s.heap
  live : s.live = fun _ => none

/-- No action that returns changes anything. -/
lemma TinyState.eq_of_step (ht : TinyState s) {c : Call} (hallowed : Allowed s c)
    (hok : step s c = .ok s') : s' = s := by
  have hlive : ∀ a, ¬ (s.live a).isSome := by
    intro a ha
    rw [ht.live] at ha
    cases ha
  have hnone : ∀ a, Function.update s.live a none = s.live := by
    intro a
    rw [ht.live]
    exact Function.update_eq_self _ _
  cases c with
  | malloc size =>
    obtain ⟨⟨r, h₁⟩, hcall, rfl⟩ := map_eq_ok.mp hok
    obtain ⟨rfl, rfl⟩ := ht.tiny.eq_of_rtMalloc hcall
    rw [record, if_pos rfl]
  | calloc count size =>
    obtain ⟨⟨r, h₁⟩, hcall, rfl⟩ := map_eq_ok.mp hok
    obtain ⟨rfl, rfl⟩ := ht.tiny.eq_of_rtCalloc hcall
    rw [record, if_pos rfl]
  | realloc rmem newsize =>
    have hnull : rmem.toNat = rtNull := hallowed.resolve_right (hlive _)
    obtain ⟨⟨r, h₁⟩, hcall, rfl⟩ := map_eq_ok.mp hok
    have hres : r = rtNull ∧ h₁ = s.heap := by
      unfold rtRealloc at hcall
      rw [hnull] at hcall
      dsimp only at hcall
      split at hcall
      · cases hcall
        exact ⟨rfl, rfl⟩
      · split at hcall
        · rw [rtFree, if_pos rfl] at hcall
          cases hcall
          exact ⟨rfl, rfl⟩
        · rw [if_pos rfl] at hcall
          exact ht.tiny.eq_of_rtMalloc hcall
    obtain ⟨rfl, rfl⟩ := hres
    unfold reallocRecord
    dsimp only
    rw [record, if_pos rfl, hnone, ite_self]
  | free rmem =>
    have hnull : rmem.toNat = rtNull := hallowed.resolve_right (hlive _)
    obtain ⟨h₁, hcall, rfl⟩ := map_eq_ok.mp hok
    rw [hnull, rtFree, if_pos rfl] at hcall
    cases hcall
    rw [hnone]
  | write base addr v => exact absurd hallowed.1 (hlive _)

/-- Every state reached satisfies the invariant of runs, or belongs to a heap without room for a
block. -/
lemma Reachable.cases (hs : Reachable s) : (∃ ts, RunInv s ts) ∨ TinyState s := by
  refine hs.invariant (I := fun s => (∃ ts, RunInv s ts) ∨ TinyState s) (fun s hstart => ?_)
    fun s c s' hI hc hstep => ?_
  · obtain ⟨heap, live⟩ := s
    obtain ⟨m, beginAddr, endAddr, hinit, rfl⟩ := hstart
    by_cases hcap : 12 ≤ heap.memSizeAligned
    · exact .inl ⟨_, (RunInv.init hinit hcap).1⟩
    · exact .inr ⟨Tiny.of_init endAddr.toNat_lt hinit (by dsimp only; omega), rfl⟩
  · have hok := toOption_eq_some.mp hstep
    rcases hI with ⟨ts, r⟩ | ht
    · obtain ⟨s₁, ts', hok', r', -⟩ := step_inv r hc.1 hc.2
      obtain rfl : s' = s₁ := Except.ok.inj (hok.symm.trans hok')
      exact .inl ⟨ts', r'⟩
    · obtain rfl := ht.eq_of_step hc.1 hok
      exact .inr ht

lemma Reachable.of_run (beginAddr endAddr : UInt32) (cs : List Call) (P : State → Prop)
    [DecidablePred P]
    (hrun : ((rtSystemHeapInit (fun _ => 0) beginAddr.toNat endAddr.toNat).bind fun h =>
      Transition.run (fun s c => (step s c).toOption) (fun s c => decide (Allowed s c ∧ NoWrap c))
        ⟨h, fun _ => none⟩ cs).any (fun s => decide (P s)) = true) :
    ∃ s, Reachable s ∧ P s := by
  obtain ⟨s, hs, hP⟩ := (Option.any_eq_true _ _).mp hrun
  obtain ⟨h, hinit, hcalls⟩ := Option.bind_eq_some_iff.mp hs
  have hstart : Reachable ⟨h, fun _ => none⟩ := .init ⟨_, _, _, hinit, rfl⟩
  exact ⟨s, hstart.run (fun s c hc => of_decide_eq_true hc) hcalls, of_decide_eq_true hP⟩

/-! ## When `rt_malloc` returns -/

/-- `rt_malloc` returns. -/
def MallocReturns (h : Heap) (size : ℕ) : Prop := ∃ r, rtMalloc h size = .ok r

/-- In every state reached, for every size: `rt_malloc` returns iff the heap has room for a
block, or the size is zero, or it is larger than the heap. -/
theorem mallocReturns_iff (hs : Reachable s) (size : UInt32) :
    MallocReturns s.heap size.toNat ↔ 12 ≤ s.heap.memSizeAligned ∨ size.toNat = 0 ∨
      s.heap.memSizeAligned < alignUp size.toNat rtAlignSize := by
  rcases hs.cases with ⟨ts, r⟩ | ht
  · refine iff_of_true ?_ (.inl r.inv.capacity)
    rcases rtMalloc_spec r.inv size.toNat with hnull | ⟨p, k, h', ts', hok, -⟩
    · exact ⟨_, hnull⟩
    · exact ⟨_, hok⟩
  · have hcap := ht.tiny.capacity
    rw [MallocReturns, ht.tiny.rtMalloc_eq]
    constructor
    · rintro ⟨r, hok⟩
      by_contra hnot
      rw [if_neg fun hor => hnot (.inr hor)] at hok
      cases hok
    · rintro (hroom | hreturns)
      · omega
      · exact ⟨_, if_pos hreturns⟩

/-- A region of 40 bytes, with a heap of 16 data bytes. -/
theorem mallocReturns_sixteen : ∃ s, Reachable s ∧ s.heap.memSizeAligned = 16 ∧
    MallocReturns s.heap 4 := by
  obtain ⟨s, hs, hcap⟩ := Reachable.of_run 0x20000000 0x20000028 []
    (fun s => s.heap.memSizeAligned = 16) (by decide +kernel)
  exact ⟨s, hs, hcap, (mallocReturns_iff hs 4).mpr (.inl (by rw [hcap]; norm_num))⟩

/-- A region of 32 bytes is accepted, and its heap has 8 data bytes. The search for four bytes goes on
at the end block forever. -/
theorem not_mallocReturns_eight : ∃ s, Started s ∧ s.heap.memSizeAligned = 8 ∧
    (∀ fuel, mallocSearch s.heap (request 4) fuel s.heap.lfree = none) ∧
    ¬ MallocReturns s.heap 4 := by
  obtain ⟨h, hinit, hcap⟩ : ∃ h, rtSystemHeapInit (fun _ => 0) (0x20000000 : UInt32).toNat
      (0x20000020 : UInt32).toNat = some h ∧ h.memSizeAligned = 8 := by
    obtain ⟨h, hh, hP⟩ := (Option.any_eq_true _ _).mp
      (show (rtSystemHeapInit (fun _ => 0) (0x20000000 : UInt32).toNat
        (0x20000020 : UInt32).toNat).any (fun h => decide (h.memSizeAligned = 8)) = true by
          decide +kernel)
    exact ⟨h, hh, of_decide_eq_true hP⟩
  have htiny : Tiny h := Tiny.of_init (by decide) hinit (by omega)
  have hround : alignUp 4 rtAlignSize = 4 :=
    alignUp_of_aligned (by norm_num) (by norm_num)
  refine ⟨⟨h, fun _ => none⟩, ⟨_, _, _, hinit, rfl⟩, hcap, fun fuel => ?_, ?_⟩
  · rw [htiny.request_eq (by omega)]
    exact htiny.mallocSearch_diverges fuel
  · rintro ⟨r, hok⟩
    dsimp only at hok
    rw [htiny.rtMalloc_eq, if_neg (by omega)] at hok
    cases hok

/-! ## When `rt_malloc` fails -/

/-- If `rt_malloc` answers `RT_NULL`, no free block fits. -/
def NullMeansFull (h : Heap) (size : ℕ) : Prop :=
  (∃ h', rtMalloc h size = .ok (rtNull, h')) → ∀ p, ¬ Fits h (request size) p

lemma alignUp_le_capacity (inv : HeapInv h ts) (hsize : size ≤ h.memSizeAligned) :
    alignUp size rtAlignSize ≤ h.memSizeAligned := by
  have hend := inv.end_eq
  have haligned : 4 ∣ h.heapEnd := by
    have hspan := inv.walk.reaches
    rw [Nat.zero_add] at hspan
    rw [← hspan]
    exact inv.walk.seg.aligned
  rw [alignUp_four]
  omega

/-- In every state reached and for every size up to the capacity, `rt_malloc` answers `RT_NULL` only if
no free block fits, iff the search sees a block that fits whenever there is one. -/
theorem nullMeansFull_iff (hs : Reachable s) (hpos : 0 < size)
    (hsize : size ≤ s.heap.memSizeAligned) :
    NullMeansFull s.heap size ↔ ((∃ p, Fits s.heap (request size) p) →
      ∃ p, Fits s.heap (request size) p ∧ Visible s.heap (request size) p) := by
  rcases hs.cases with ⟨ts, r⟩ | ht
  · have havail : Available s.heap size ↔
        ∃ p, Fits s.heap (request size) p ∧ Visible s.heap (request size) p :=
      and_iff_right (alignUp_le_capacity r.inv hsize)
    rw [NullMeansFull, rtMalloc_null_iff r.inv hpos.ne', havail]
    constructor
    · rintro hfull ⟨p, hp⟩
      by_contra hnone
      exact hfull hnone p hp
    · intro hvisible hnone p hp
      exact hnone (hvisible ⟨p, hp⟩)
  · -- nothing fits
    have hreq : 12 ≤ request size := request_ge size
    exact iff_of_true (fun _ p => ht.tiny.not_fits hreq p)
      fun ⟨p, hp⟩ => absurd hp (ht.tiny.not_fits hreq p)

/-- A heap of 232 data bytes after `rt_system_heap_init`. -/
lemma started_232 : ∃ s, Started s ∧ s.heap.memSizeAligned = 232 ∧ s.heap.lfree = 0 ∧
    s.heap.heapEnd = 244 ∧ (header s.heap.mem 0).used = 0 ∧ (header s.heap.mem 0).next = 244 ∧
    rtMalloc s.heap 232 = .ok (rtNull, s.heap) := by
  obtain ⟨h, hinit, hcap, hlfree, hend, hused, hnext⟩ : ∃ h,
      rtSystemHeapInit (fun _ => 0) (0x20000000 : UInt32).toNat (0x20000100 : UInt32).toNat =
        some h ∧ h.memSizeAligned = 232 ∧ h.lfree = 0 ∧ h.heapEnd = 244 ∧
        (header h.mem 0).used = 0 ∧ (header h.mem 0).next = 244 := by
    obtain ⟨h, hh, hP⟩ := (Option.any_eq_true _ _).mp
      (show (rtSystemHeapInit (fun _ => 0) (0x20000000 : UInt32).toNat
          (0x20000100 : UInt32).toNat).any (fun h => decide (h.memSizeAligned = 232 ∧ h.lfree = 0 ∧
            h.heapEnd = 244 ∧ (header h.mem 0).used = 0 ∧ (header h.mem 0).next = 244)) = true by
        decide +kernel)
    exact ⟨h, hh, of_decide_eq_true hP⟩
  refine ⟨⟨h, fun _ => none⟩, ⟨_, _, _, hinit, rfl⟩, hcap, hlfree, hend, hused, hnext, ?_⟩
  have hreq : request 232 = 232 := request_of_aligned (by norm_num) (by norm_num) (by norm_num)
  have halign : alignUp 232 rtAlignSize = 232 :=
    alignUp_of_aligned (by norm_num) (by norm_num)
  have hbound : ¬ 0 < sub h.memSizeAligned 232 := by
    rw [hcap, sub_of_le le_rfl (by norm_num)]
    norm_num
  have hsearch : mallocSearch h 232 loopFuel h.lfree = some none := by
    rw [hlfree]
    exact mallocSearch_of_not_lt hbound
  dsimp only
  rw [rtMalloc, if_neg (by norm_num), halign, hcap, if_neg (by norm_num), hreq, mallocLocked, hsearch,
    mallocFound]

/-- The block at offset 0 of a heap whose only block goes up to the end block. -/
lemma fits_zero (hend : h.heapEnd = 244) (hused : (header h.mem 0).used = 0)
    (hnext : (header h.mem 0).next = 244) (hn : n ≤ 232) : Fits h n 0 := by
  refine ⟨[0], ⟨rfl, ?_⟩, by simp, hused, by omega⟩
  rw [hend]
  exact .cons_cons ⟨hnext, by norm_num⟩ (.singleton _)

/-- Two blocks are allocated and the first one is freed. It is visible for a request of 100 bytes. -/
theorem nullMeansFull_hundred : ∃ s, Reachable s ∧ s.live 0x2000007c = some 8 ∧
    NullMeansFull s.heap 100 := by
  obtain ⟨s, hs, hlive, hcap, hlfree, hend, hfree, h0, h112, h136⟩ := Reachable.of_run 0x20000000
    0x20000100 [.malloc 100, .malloc 8, .free 0x2000000c] (fun s => s.live 0x2000007c = some 8 ∧
      s.heap.memSizeAligned = 232 ∧ s.heap.lfree = 0 ∧ s.heap.heapEnd = 244 ∧
      (header s.heap.mem 0).used = 0 ∧ (header s.heap.mem 0).next = 112 ∧
      (header s.heap.mem 112).next = 136 ∧ (header s.heap.mem 136).next = 244) (by decide +kernel)
  have hreq : request 100 = 100 := request_of_aligned (by norm_num) (by norm_num) (by norm_num)
  refine ⟨s, hs, hlive, (nullMeansFull_iff hs (by norm_num)
    (by rw [hcap]; norm_num)).mpr fun _ => ⟨0, ?_, ?_⟩⟩
  · refine ⟨[0, 112, 136], ⟨rfl, ?_⟩, by simp, hfree, by omega⟩
    rw [hend]
    exact .cons_cons ⟨h0, by norm_num⟩ (.cons_cons ⟨h112, by norm_num⟩
      (.cons_cons ⟨h136, by norm_num⟩ (.singleton _)))
  · rw [hreq, Visible, hlfree, hcap]
    norm_num

/-- A fresh heap of 232 data bytes: `rt_malloc(232)` answers `RT_NULL`, although the only block is free
and has 232 bytes. -/
theorem not_nullMeansFull_exact : ∃ s, Reachable s ∧ s.heap.memSizeAligned = 232 ∧
    Fits s.heap (request 232) 0 ∧ ¬ NullMeansFull s.heap 232 := by
  obtain ⟨s, hstart, hcap, hlfree, hend, hused, hnext, hnull⟩ := started_232
  have hreq : request 232 = 232 := request_of_aligned (by norm_num) (by norm_num) (by norm_num)
  have hfits : Fits s.heap (request 232) 0 := by
    rw [hreq]
    exact fits_zero hend hused hnext le_rfl
  exact ⟨s, .init hstart, hcap, hfits, fun hfull => hfull ⟨_, hnull⟩ 0 hfits⟩

/-! ## Room of an allocation -/

def dataSize (h : Heap) (a : ℕ) : ℕ := userEnd h a - a

/-- A block that `rt_malloc` hands out has room for `size` bytes. -/
def MallocRoom (h : Heap) (size : ℕ) : Prop :=
  ∀ r h', rtMalloc h size = .ok (r, h') → r ≠ rtNull → size ≤ dataSize h' r

/-- A block that `rt_calloc` hands out has room for `count` times `size` bytes. -/
def CallocRoom (h : Heap) (count size : ℕ) : Prop :=
  ∀ r h', rtCalloc h count size = .ok (r, h') → r ≠ rtNull → count * size ≤ dataSize h' r

/-- What `rt_malloc` hands out: at least the request, and less than the address space. -/
lemma dataSize_of_rtMalloc (inv : HeapInv h ts) (hok : rtMalloc h size = .ok (r, h'))
    (hr : r ≠ rtNull) : request size ≤ dataSize h' r ∧ dataSize h' r < 0xfffffffc ∧
      blockOf h' r + 12 ≤ r - h'.heapPtr := by
  rcases rtMalloc_spec inv size with hnull | ⟨p, k, h₁, ts', hcall, hk, -, hext, hinv, hsame, -⟩
  · rw [hnull] at hok
    cases hok
    exact absurd rfl hr
  · rw [hcall] at hok
    cases hok
    have hp : (p, k) ∈ extents 0 ts' := (hext _).mpr (.inl rfl)
    obtain ⟨-, hhi⟩ := extents_bounds hp
    have hreach := hinv.walk.reaches
    have htop := hinv.top
    have huser := userEnd_eq hinv hp
    obtain ⟨pre, post, hts, hstart⟩ := mem_extents.mp hp
    subst hts
    have hblock := (data_address hinv.toShape).2.2.2
    rw [Nat.zero_add] at hstart
    rw [← hstart] at hblock
    rw [← hsame.heapPtr, dataSize, huser, hblock]
    omega

/-- A block that is handed out for the wanted bytes modulo `2 ^ 32` has room for them iff
they can be rounded up without wrapping, or no block is handed out. -/
lemma le_dataSize_iff (inv : HeapInv h ts) {want : ℕ} (hsize : size = want % 2 ^ 32) :
    (∀ r h', rtMalloc h size = .ok (r, h') → r ≠ rtNull → want ≤ dataSize h' r) ↔
      want ≤ 0xfffffffc ∨ size = 0 ∨ ¬ Available h size := by
  by_cases hzero : size = 0
  · refine iff_of_true (fun r h' hok hr => ?_) (.inr (.inl hzero))
    rw [hzero, rtMalloc, if_pos rfl] at hok
    cases hok
    exact absurd rfl hr
  constructor
  · intro hroom
    by_contra hnot
    obtain ⟨hbig, hrest⟩ := not_or.mp hnot
    have havail := not_not.mp (not_or.mp hrest).2
    -- the search finds a block, which cannot have this size
    have hnull := mt (rtMalloc_null_iff inv hzero).mp (not_not.mpr havail)
    rcases rtMalloc_spec inv size with hcall | ⟨p, k, h₁, ts', hcall, -⟩
    · exact hnull ⟨h, hcall⟩
    · have hr : h.heapPtr + p + 12 ≠ rtNull := by simp
      have hle := hroom _ _ hcall hr
      have hlt := (dataSize_of_rtMalloc inv hcall hr).2.1
      omega
  · rintro (hsmall | hz | hnone) r h' hok hr
    · have heq : size = want := by omega
      rw [← heq] at hsmall ⊢
      exact ((le_alignUp hsmall).trans (alignUp_le_request size)).trans
        (dataSize_of_rtMalloc inv hok hr).1
    · exact absurd hz hzero
    · obtain ⟨h₁, hnull⟩ := (rtMalloc_null_iff inv hzero).mpr hnone
      rw [hnull] at hok
      cases hok
      exact absurd rfl hr

lemma mallocRoom_iff (inv : HeapInv h ts) (hsize : size < 2 ^ 32) :
    MallocRoom h size ↔ size ≤ 0xfffffffc ∨ ¬ Available h size := by
  rw [MallocRoom, le_dataSize_iff inv (Nat.mod_eq_of_lt hsize).symm]
  constructor
  · rintro (hsmall | hzero | hnone)
    · exact .inl hsmall
    · exact .inl (by omega)
    · exact .inr hnone
  · exact Or.imp_right .inr

/-- Clearing the data area does not change its size. -/
lemma dataSize_fill {r k : ℕ} (hblock : blockOf h r + 12 ≤ r - h.heapPtr) :
    dataSize { h with mem := fill h.mem (r - h.heapPtr) k 0 } r = dataSize h r := by
  have hheader : header (fill h.mem (r - h.heapPtr) k 0) (blockOf h r) =
      header h.mem (blockOf h r) :=
    header_congr fun i _ hi => fill_agreeOff _ _ _ _ i (by omega)
  have hsame : blockOf { h with mem := fill h.mem (r - h.heapPtr) k 0 } r = blockOf h r := rfl
  rw [dataSize, userEnd, hsame, hheader]
  rfl

lemma callocRoom_iff_malloc (inv : HeapInv h ts) : CallocRoom h count size ↔
    ∀ r h', rtMalloc h (mul count size) = .ok (r, h') → r ≠ rtNull →
      count * size ≤ dataSize h' r := by
  constructor
  · intro hroom r h' hok hr
    have hcall : rtCalloc h count size =
        .ok (r, { h' with mem := fill h'.mem (r - h'.heapPtr) (mul count size) 0 }) := by
      simp only [rtCalloc, hok, if_pos hr]
    have hblock := (dataSize_of_rtMalloc inv hok hr).2.2
    rw [← dataSize_fill hblock]
    exact hroom r _ hcall hr
  · intro hroom r h' hcall hr
    unfold rtCalloc at hcall
    split at hcall
    case h_1 => cases hcall
    case h_2 r₁ h₁ hok =>
      split at hcall
      case isTrue =>
        cases hcall
        have hblock := (dataSize_of_rtMalloc inv hok hr).2.2
        rw [dataSize_fill hblock]
        exact hroom r h₁ hok hr
      case isFalse hnull =>
        cases hcall
        exact absurd hr hnull

lemma callocRoom_iff (inv : HeapInv h ts) : CallocRoom h count size ↔
    count * size ≤ 0xfffffffc ∨ mul count size = 0 ∨ ¬ Available h (mul count size) := by
  rw [callocRoom_iff_malloc inv, le_dataSize_iff inv (by rw [mul])]

/-- In every state reached, a block of `rt_malloc` has room for the size iff the size can be
rounded up without wrapping, or no block is handed out; and a block of `rt_calloc` has room for the
product iff the product can be rounded up without wrapping, or no block is handed out for
the product modulo `2 ^ 32`. -/
theorem room_iff (hs : Reachable s) (count n : UInt32) :
    (MallocRoom s.heap n.toNat ↔ n.toNat ≤ 0xfffffffc ∨ ¬ Available s.heap n.toNat) ∧
      (CallocRoom s.heap count.toNat n.toNat ↔ count.toNat * n.toNat ≤ 0xfffffffc ∨
        mul count.toNat n.toNat = 0 ∨
        ¬ Available s.heap (mul count.toNat n.toNat)) := by
  rcases hs.cases with ⟨ts, r⟩ | ht
  · exact ⟨mallocRoom_iff r.inv n.toNat_lt, callocRoom_iff r.inv⟩
  · -- nothing is ever handed out
    refine ⟨iff_of_true (fun r h' hok hr => ?_) (.inr (ht.tiny.not_available _)),
      iff_of_true (fun r h' hok hr => ?_) (.inr (.inr (ht.tiny.not_available _)))⟩
    · exact absurd (ht.tiny.eq_of_rtMalloc hok).1 hr
    · exact absurd (ht.tiny.eq_of_rtCalloc hok).1 hr

/-- Two blocks are allocated, the first one is freed, and 24 bytes are asked for. -/
theorem room_twentyFour : ∃ s, Reachable s ∧ s.live 0x2000007c = some 8 ∧
    MallocRoom s.heap 24 ∧ CallocRoom s.heap 3 8 := by
  obtain ⟨s, hs, hlive⟩ := Reachable.of_run 0x20000000 0x20000100
    [.malloc 100, .malloc 8, .free 0x2000000c] (fun s => s.live 0x2000007c = some 8)
    (by decide +kernel)
  exact ⟨s, hs, hlive, (room_iff hs 0 24).1.mpr (.inl (by decide)),
    (room_iff hs 3 8).2.mpr (.inl (by decide))⟩

/-- A fresh heap of 232 data bytes: the search sees the block for twelve bytes. -/
lemma available_of_small (hsmall : alignUp size rtAlignSize ≤ 12)
    (hcap : h.memSizeAligned = 232) (hlfree : h.lfree = 0) (hend : h.heapEnd = 244)
    (hused : (header h.mem 0).used = 0) (hnext : (header h.mem 0).next = 244) :
    Available h size := by
  have hreq := request_of_small hsmall
  refine ⟨by omega, 0, ?_, ?_⟩
  · rw [hreq]
    exact fits_zero hend hused hnext (by norm_num)
  · rw [hreq, Visible, hlfree, hcap]
    norm_num

/-- `rt_malloc(0xffffffff)` and `rt_calloc(0x40000001, 4)` hand out small blocks. -/
theorem not_room_wrapped : ∃ s, Reachable s ∧ ¬ MallocRoom s.heap 0xffffffff ∧
    ¬ CallocRoom s.heap 0x40000001 4 := by
  obtain ⟨s, hstart, hcap, hlfree, hend, hused, hnext, -⟩ := started_232
  obtain ⟨ts, r⟩ | ht := Reachable.cases (.init hstart)
  · have hmalloc : Available s.heap 0xffffffff :=
      available_of_small (by rw [alignUp_four]; norm_num) hcap hlfree hend hused hnext
    have hmul : mul 0x40000001 4 = 4 := by norm_num [mul]
    have hcalloc : Available s.heap (mul 0x40000001 4) := by
      rw [hmul]
      exact available_of_small (by rw [alignUp_four]; norm_num) hcap hlfree hend hused hnext
    refine ⟨s, .init hstart, fun hroom => ?_, fun hroom => ?_⟩
    · rcases (mallocRoom_iff r.inv (by norm_num)).mp hroom with hsmall | hnone
      · omega
      · exact hnone hmalloc
    · rcases (callocRoom_iff r.inv).mp hroom with hsmall | hzero | hnone
      · omega
      · rw [hmul] at hzero
        omega
      · exact hnone hcalloc
  · have := ht.tiny.capacity
    omega

end SmallMem
