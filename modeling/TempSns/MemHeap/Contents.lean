import TempSns.MemHeap.Runs

/-!
# What the calls of a memory heap guarantee

`rt_memheap_alloc` compares the size with `available_size` before it searches, and answers `RT_NULL` when
they are equal. So it misses a block that fits exactly if that is the only free one (`allocNull_iff`).

`memheapRoom_iff` says when `rt_memheap_realloc` returns what it is asked for with the old bytes, or
fails and keeps the block.
-/

namespace MemHeap

open Tiling Word32 Option Except

variable {h h' h'' : Heap} {s : State} {ts ts' pre post : List Tile} {t b : Tile} {fs : List ℕ}
  {n p q k size newsize : ℕ}

/-! ## When `rt_memheap_alloc` fails -/

/-- The block at `p` is free and has at least `n` bytes of data. -/
def FreeFits (h : Heap) (n p : ℕ) : Prop :=
  ∃ bs, Blocks h bs ∧ p ∈ bs ∧ h.isUsed p = false ∧ n ≤ h.memitemSize p

/-- If `rt_memheap_alloc` answers `RT_NULL`, no free block has the aligned size. -/
def NullMeansFull (h : Heap) (size : ℕ) : Prop :=
  (∃ h', rtMemheapAlloc h size = .ok (rtNull, h')) → ∀ p, ¬ FreeFits h (alignedSize size) p

lemma Blocks.unique {bs bs' : List ℕ} (hb : Blocks h bs) (hb' : Blocks h bs') : bs = bs' :=
  hb.ring.unique hb'.ring

lemma RunInv.freeFits_iff (r : RunInv s ts fs) : FreeFits s.heap n p ↔ ∃ pre t post,
    ts = pre ++ t :: post ∧ t.used = false ∧ n ≤ t.size - 24 ∧ p = s.heap.startAddr + span pre := by
  constructor
  · rintro ⟨bs, hb, hp, hfree, hsize⟩
    rw [hb.unique r.blocks] at hp
    obtain ⟨pre, t, post, rfl, rfl⟩ := mem_allStarts.mp hp
    rw [r.layout.isUsed_eq] at hfree
    rw [r.layout.memitemSize_eq] at hsize
    exact ⟨pre, t, post, rfl, hfree, hsize, rfl⟩
  · rintro ⟨pre, t, post, rfl, ht, hsize, rfl⟩
    refine ⟨_, r.blocks, mem_allStarts.mpr ⟨pre, t, post, rfl, rfl⟩, ?_, ?_⟩
    · rw [r.layout.isUsed_eq, ht]
    · rw [r.layout.memitemSize_eq]
      exact hsize

/-- `rt_memheap_alloc` answers `RT_NULL` iff the counter does not exceed the size or no block
fits. -/
lemma RunInv.alloc_null_iff (r : RunInv s ts fs) :
    (∃ h', rtMemheapAlloc s.heap size = .ok (rtNull, h')) ↔
      (alignedSize size < s.heap.availableSize → ∀ p, ¬ FreeFits s.heap (alignedSize size) p) := by
  have hpos := alignedSize_ge size
  rcases r.layout.rtMemheapAlloc_cases size with ⟨hnull, hnone⟩ |
    ⟨hlt, pre, t, post, rfl, ht, hsize, hok⟩
  · refine iff_of_true ⟨_, hnull⟩ fun hlt p hp => ?_
    obtain ⟨pre, t, post, hts, ht, hsize, -⟩ := r.freeFits_iff.mp hp
    have hsmall := hnone hlt pre t post hts ht
    omega
  · refine iff_of_false ?_ fun hnone => ?_
    · rintro ⟨h', hnull⟩
      obtain ⟨h'', fs', hfound, -⟩ := r.layout.allocFound ht (alignedSize size) hsize
      rw [hok, hfound] at hnull
      cases hnull
    · exact hnone hlt _ (r.freeFits_iff.mpr ⟨pre, t, post, rfl, ht, by omega, rfl⟩)

/-- In every state of a run in which the test for growing never wraps, for every size: if
`rt_memheap_alloc` answers `RT_NULL` no free block fits, iff the counter exceeds the
aligned size whenever a block fits. -/
theorem allocNull_iff (hs : Reach GrowthFits s) (size : UInt32) :
    NullMeansFull s.heap size.toNat ↔ ((∃ p, FreeFits s.heap (alignedSize size.toNat) p) →
      alignedSize size.toNat < s.heap.availableSize) := by
  obtain ⟨ts, fs, r, -⟩ := runInv_of_reach hs
  rw [NullMeansFull, r.alloc_null_iff]
  constructor
  · rintro hfull ⟨p, hp⟩
    by_contra hlt
    exact hfull (fun hlt' => absurd hlt' hlt) p hp
  · intro hexceeds hnone p hp
    exact hnone (hexceeds ⟨p, hp⟩) p hp

/-- Two blocks are allocated and the first one is freed. -/
theorem allocNull_hundred : ∃ s, Reach GrowthFits s ∧ s.heap.availableSize = 876 ∧
    NullMeansFull s.heap 100 := by
  have hsize : alignedSize (100 : UInt32).toNat = 100 := by rw [alignedSize_eq]; rfl
  obtain ⟨s, hrun, havail⟩ := (any_eq_true _ _).mp (show (run GrowthFits
    [.alloc 100, .alloc 50, .free 0x1018]).any (fun s => s.heap.availableSize == 876) = true by
      decide +kernel)
  have hs := reach_run hrun
  rw [beq_iff_eq] at havail
  refine ⟨s, hs, havail, (allocNull_iff hs 100).mpr fun _ => ?_⟩
  rw [hsize, havail]
  norm_num

/-- The only free block has 976 bytes, and a request of 976 bytes fails. -/
theorem not_nullMeansFull_exact_fit : ∃ s, Reach GrowthFits s ∧ FreeFits s.heap 976 0x1000 ∧
    alignedSize 976 = 976 ∧ ¬ NullMeansFull s.heap 976 := by
  have hsize : alignedSize 976 = 976 := by rw [alignedSize_eq]; rfl
  obtain ⟨ts, fs, r, -⟩ := runInv_of_reach (.init init_smallPool)
  have hfits : FreeFits smallPool.heap 976 0x1000 := by
    refine ⟨_, r.blocks, ?_, by decide +kernel, by decide +kernel⟩
    have hfirst := List.mem_of_head? r.blocks.first
    exact hfirst
  refine ⟨smallPool, .init init_smallPool, hfits, hsize, fun hfull => ?_⟩
  refine hfull (r.alloc_null_iff.mpr fun hlt => ?_) 0x1000 (by rw [hsize]; exact hfits)
  have havail : smallPool.heap.availableSize = 976 := by decide +kernel
  rw [hsize, havail] at hlt
  omega

/-! ## When the capacity is what was asked for -/

def InUse (h : Heap) (a : ℕ) : Prop := ∃ bs, Blocks h bs ∧ ∃ p ∈ bs, h.isUsed p = true ∧ a = p + 24

/-- The number of bytes from the address `a` to the end of its block. -/
def dataSize (h : Heap) (a : ℕ) : ℕ := userEnd h a - a

/-- `rt_memheap_realloc` returns a block that has the new size and the old bytes, or it answers `RT_NULL`
and keeps the block. -/
def ReallocKeeps (h : Heap) (ptr newsize : ℕ) : Prop :=
  ∃ r h', rtMemheapRealloc h ptr newsize = .ok (r, h') ∧
    ((r ≠ rtNull ∧ InUse h' r ∧ newsize ≤ dataSize h' r ∧
        ∀ i < min (dataSize h ptr) newsize, KeptByte h h' (ptr + i) (r + i)) ∨
      (r = rtNull ∧ InUse h' ptr ∧ dataSize h' ptr = dataSize h ptr ∧
        ∀ i < dataSize h ptr, KeptByte h h' (ptr + i) (ptr + i)))

/-- A block that `rt_memheap_alloc` returns has the size that was asked for. -/
def AllocRoom (h : Heap) (size : ℕ) : Prop :=
  ∀ r h', rtMemheapAlloc h size = .ok (r, h') → r ≠ rtNull → size ≤ dataSize h' r

lemma Layout.inUse (l : Layout h ts fs) (hroom : 48 ≤ h.poolSize)
    (hq : (q, k) ∈ extents h.startAddr ts) : InUse h (q + 24) := by
  obtain ⟨hmem, hused⟩ := (l.toShape.used_iff q).mpr ⟨k, hq⟩
  exact ⟨_, l.blocks hroom, q, hmem, hused, rfl⟩

lemma Layout.dataSize_eq (l : Layout h ts fs) (hq : (q, k) ∈ extents h.startAddr ts) :
    dataSize h (q + 24) = k - 24 := by
  rw [dataSize, userEnd_eq l hq]
  omega

/-- A block has fewer bytes than a size that wraps. -/
lemma Layout.dataSize_lt (l : Layout h ts fs) (hq : (q, k) ∈ extents h.startAddr ts) :
    dataSize h (q + 24) < 0xffffffe8 := by
  have hbounds := extents_bounds hq
  have hspan := l.span
  have htop := l.top
  rw [l.dataSize_eq hq]
  omega

/-- A request that does not wrap: the result is as asked for. -/
lemma RunInv.reallocKeeps (r : RunInv s ts fs) (hp : (p, n) ∈ extents s.heap.startAddr ts)
    (hzero : newsize ≠ 0) (hlt : newsize ≤ 0xfffffffc) (hfits : Fits s.heap (p + 24) newsize) :
    ReallocKeeps s.heap (p + 24) newsize := by
  obtain ⟨ptr, h', ts', fs', hcall, hsame, l', hres, hbytes⟩ :=
    r.layout.rtMemheapRealloc hp hzero (by omega) hfits
  have hroom : 48 ≤ h'.poolSize := hsame.poolSize ▸ r.room
  have hle := le_alignedSize hlt
  refine ⟨ptr, h', hcall, ?_⟩
  rw [r.layout.dataSize_eq hp]
  rcases hres with ⟨rfl, rfl, rfl⟩ | ⟨q, k, rfl, hk, -, hrep⟩
  · right
    exact ⟨rfl, r.layout.inUse hroom hp, r.layout.dataSize_eq hp, fun i _ =>
      ⟨rfl, fun x _ _ => .refl s.heap x⟩⟩
  · left
    have hq : (q, k) ∈ extents h'.startAddr ts' := by
      rw [hsame.startAddr, hrep]
      exact .inl rfl
    have hnull : q + 24 ≠ rtNull := by rw [rtNull]; omega
    refine ⟨hnull, l'.inUse hroom hq, ?_, fun i hi => ?_⟩
    · rw [l'.dataSize_eq hq]
      omega
    · exact hbytes hnull i (by omega) (by omega)

lemma not_reallocKeeps_of {ptr r : ℕ} (hcall : rtMemheapRealloc h ptr newsize = .ok (r, h'))
    (hr : r ≠ rtNull) (hsize : dataSize h' r < newsize) : ¬ ReallocKeeps h ptr newsize := by
  rintro ⟨r', h'', hcall', hres⟩
  obtain ⟨rfl, rfl⟩ := Prod.mk.inj (ok.inj (hcall.symm.trans hcall'))
  rcases hres with ⟨-, -, hle, -⟩ | ⟨hnull, -⟩
  · omega
  · exact hr hnull

/-- A size that wraps when it is rounded up becomes twelve. The block keeps these bytes and is
returned. -/
lemma RunInv.not_reallocKeeps_aligned (r : RunInv s ts fs)
    (hlarge : Large s.heap.startAddr ts) (hp : (p, n) ∈ extents s.heap.startAddr ts)
    (hwrap : 0xfffffffc < newsize) (hlt : newsize < 2 ^ 32) :
    ¬ ReallocKeeps s.heap (p + 24) newsize := by
  have hn : 36 ≤ n := hlarge _ hp
  have hsize : alignedSize newsize = 12 := by
    rw [alignedSize_eq]
    omega
  obtain ⟨ptr, h', ts', fs', hcall, hsame, l', hres, -⟩ :=
    r.layout.rtMemheapRealloc hp (by omega) hlt (.inr (.inr hwrap))
  have hptr : ptr ≠ rtNull := by
    obtain ⟨pre, post, rfl, rfl⟩ := mem_extents.mp hp
    have hzero : newsize ≠ 0 := by omega
    rcases r.layout.rtMemheapRealloc_cases hzero with ⟨-, -, hcall'⟩ |
      ⟨-, hcall'⟩ | ⟨hgrow, -⟩ | ⟨hgrow, -⟩
    · rw [← (Prod.mk.inj (ok.inj (hcall'.symm.trans hcall))).1, rtNull]
      omega
    · rw [← (Prod.mk.inj (ok.inj (hcall'.symm.trans hcall))).1, rtNull]
      omega
    · omega
    · omega
  refine not_reallocKeeps_of hcall hptr ?_
  rcases hres with ⟨rfl, -⟩ | ⟨q, k, rfl, -, -, hrep⟩
  · exact absurd rfl hptr
  · have hq : (q, k) ∈ extents h'.startAddr ts' := by
      rw [hsame.startAddr, hrep]
      exact .inl rfl
    have hless := l'.dataSize_lt hq
    omega

/-- The block behind the grown one is where the size says. -/
lemma growInto_next (h : Heap) (headerPtr nextPtr ptr oldsize newsize : ℕ) :
    (growInto h headerPtr nextPtr ptr oldsize newsize).block.next headerPtr = add ptr newsize := by
  unfold growInto
  rw [noteUse_eq]
  exact Function.update_self _ _ _

/-- The test for growing wraps: the next block is put before the data of the block. -/
lemma RunInv.not_reallocKeeps_grown (r : RunInv s ts fs)
    (hlarge : Large s.heap.startAddr ts) (hp : (p, n) ∈ extents s.heap.startAddr ts)
    (hlo : 0xfffffff0 < newsize) (hhi : newsize ≤ 0xfffffffc)
    (hfree : s.heap.isUsed (p + n) = false) : ¬ ReallocKeeps s.heap (p + 24) newsize := by
  have hn : 36 ≤ n := hlarge _ hp
  have hsize : 0xfffffff4 ≤ alignedSize newsize ∧ alignedSize newsize ≤ 0xfffffffc := by
    rw [alignedSize_eq]
    omega
  obtain ⟨pre, post, rfl, rfl⟩ := mem_extents.mp hp
  obtain ⟨-, hsum⟩ := r.layout.bounds
  simp only at hsum
  have htop := r.layout.top
  have hitem : add (s.heap.memitemSize (s.heap.startAddr + span pre + n)) (n - 24) >
      add (alignedSize newsize) rtMemheapMinialloc := by
    have hused := r.layout.isUsed_next
    simp only [hfree] at hused
    cases post with
    | nil => simp at hused
    | cons b post =>
      simp only [span_cons] at hsum
      have hwrap : add (alignedSize newsize) 12 < 12 := by
        unfold add
        omega
      rw [r.layout.second_memitemSize, rtMemheapMinialloc, add_of_lt (by omega)]
      omega
  have hend : add (s.heap.startAddr + span pre + 24) (alignedSize newsize) ≤
      s.heap.startAddr + span pre + 24 := by
    unfold add
    omega
  have hzero : newsize ≠ 0 := by omega
  rcases r.layout.rtMemheapRealloc_cases hzero with ⟨hle, -⟩ | ⟨hle, -⟩ | ⟨-, -, hcall⟩ |
    ⟨-, htest, -⟩
  · omega
  · omega
  · refine not_reallocKeeps_of hcall (by rw [rtNull]; omega) ?_
    rw [dataSize, userEnd, Nat.add_sub_cancel, growInto_next]
    omega
  · exact absurd ⟨hfree, hitem⟩ htest

lemma RunInv.alloc_dataSize (r : RunInv s ts fs) {ptr : ℕ}
    (halloc : rtMemheapAlloc s.heap size = .ok (ptr, h')) (hptr : ptr ≠ rtNull) :
    alignedSize size ≤ dataSize h' ptr ∧ dataSize h' ptr < 0xffffffe8 := by
  obtain ⟨ptr', h'', halloc', hsame, hres⟩ := r.layout.rtMemheapAlloc size
  obtain ⟨rfl, rfl⟩ := Prod.mk.inj (ok.inj (halloc'.symm.trans halloc))
  rcases hres with ⟨rfl, -⟩ | ⟨pre, t, post, fs', rfl, ht, hfit, rfl, l', -⟩
  · exact absurd rfl hptr
  · obtain ⟨k, hk, -, hext⟩ := mem_extents_occupy s.heap.startAddr 36 r.layout.pos hfit ht
    have hq : (s.heap.startAddr + span pre, k) ∈ extents h''.startAddr
        (pre ++ (occupy 36 (alignedSize size + 24) t ++ post)) := by
      rw [hsame.startAddr, hext]
      exact .inl rfl
    refine ⟨?_, l'.dataSize_lt hq⟩
    rw [l'.dataSize_eq hq]
    omega

/-- The aligned size is less than the one asked for if it wraps. -/
lemma RunInv.allocRoom_iff (r : RunInv s ts fs) (hlt : size < 2 ^ 32) : AllocRoom s.heap size ↔
      size ≤ 0xfffffffc ∨ s.heap.availableSize ≤ 12 ∨ ∀ p, ¬ FreeFits s.heap 12 p := by
  by_cases hwrap : size ≤ 0xfffffffc
  · refine iff_of_true (fun ptr h' halloc hptr => ?_) (.inl hwrap)
    exact (le_alignedSize hwrap).trans (r.alloc_dataSize halloc hptr).1
  · have hsize : alignedSize size = 12 := by
      rw [alignedSize_eq]
      omega
    have hnull : (∃ h', rtMemheapAlloc s.heap size = .ok (rtNull, h')) ↔
        (12 < s.heap.availableSize → ∀ p, ¬ FreeFits s.heap 12 p) := by
      rw [r.alloc_null_iff, hsize]
    constructor
    · intro hroom
      right
      by_contra hnot
      obtain ⟨ptr, h', halloc, -⟩ := r.layout.rtMemheapAlloc size
      have hptr : ptr ≠ rtNull := by
        rintro rfl
        have hnone := hnull.mp ⟨h', halloc⟩
        exact hnot (or_iff_not_imp_left.mpr fun havail => hnone (by omega))
      have hle := hroom ptr h' halloc hptr
      have hless := (r.alloc_dataSize halloc hptr).2
      omega
    · intro hcond ptr h' halloc hptr
      obtain ⟨h'', halloc'⟩ := hnull.mpr fun havail =>
        (hcond.resolve_left hwrap).resolve_left (by omega)
      exact absurd (Prod.mk.inj (ok.inj (halloc.symm.trans halloc'))).1 hptr

/-- In every state of a run in which the test for growing never wraps: for every live block and every
size greater than zero, `rt_memheap_realloc` returns what it is asked for or fails and keeps the
block, iff neither the rounding up of the size nor the test for growing wraps. A block from
`rt_memheap_alloc` has the size asked for, iff the rounding up does not wrap or the call
fails. -/
theorem memheapRoom_iff (hs : Reach GrowthFits s) :
    (∀ ptr newsize : UInt32, (s.live ptr.toNat).isSome → newsize ≠ 0 →
      (ReallocKeeps s.heap ptr.toNat newsize.toNat ↔ newsize.toNat ≤ 0xfffffffc ∧
        (newsize.toNat ≤ 0xfffffff0 ∨ s.heap.isUsed (userEnd s.heap ptr.toNat) = true))) ∧
    ∀ size : UInt32, AllocRoom s.heap size.toNat ↔
      size.toNat ≤ 0xfffffffc ∨ s.heap.availableSize ≤ 12 ∨ ∀ p, ¬ FreeFits s.heap 12 p := by
  obtain ⟨ts, fs, r, hlarge⟩ := runInv_of_reach hs
  refine ⟨fun ptr newsize hptr hne => ?_, fun size => r.allocRoom_iff size.toNat_lt⟩
  have hlt := newsize.toNat_lt
  have hzero : newsize.toNat ≠ 0 := fun heq => hne (UInt32.toNat_inj.mp heq)
  obtain ⟨p, n, hp, hdata⟩ := r.used hptr
  rw [hdata, userEnd_eq r.layout hp]
  constructor
  · intro hkeeps
    refine ⟨?_, ?_⟩
    · by_contra hwrap
      exact r.not_reallocKeeps_aligned hlarge hp (by omega) hlt hkeeps
    · by_contra hnot
      obtain ⟨hlo, hfree⟩ := not_or.mp hnot
      have hhi : newsize.toNat ≤ 0xfffffffc := by
        by_contra hwrap
        exact r.not_reallocKeeps_aligned hlarge hp (by omega) hlt hkeeps
      exact r.not_reallocKeeps_grown hlarge hp (by omega) hhi (Bool.eq_false_of_not_eq_true hfree)
        hkeeps
  · rintro ⟨hhi, hgrow⟩
    refine r.reallocKeeps hp hzero hhi ?_
    obtain ⟨pre, post, rfl, rfl⟩ := mem_extents.mp hp
    exact r.layout.fits_iff.mpr (hgrow.elim (fun hle => .inr (.inl hle)) .inl)

/-- A block of 100 bytes is moved behind another one, and one of 40 bytes is allocated. -/
theorem memheapRoom_moved : ∃ s, run GrowthFits [.alloc 100, .alloc 50] = some s ∧
    ReallocKeeps s.heap 0x1018 200 ∧ AllocRoom s.heap 40 := by
  obtain ⟨s, hrun, hlive⟩ := (any_eq_true _ _).mp (show (run GrowthFits
    [.alloc 100, .alloc 50]).any (fun s => (s.live 0x1018).isSome) = true by decide +kernel)
  obtain ⟨hrealloc, halloc⟩ := memheapRoom_iff (reach_run hrun)
  exact ⟨s, hrun, (hrealloc 0x1018 200 hlive (by decide)).mpr ⟨by decide, .inl (by decide)⟩,
    (halloc 40).mpr (.inl (by decide))⟩

/-- The call returns a block with less than `n` bytes. -/
def returnsLess (n : ℕ) (x : Except Fault (ℕ × Heap)) : Bool :=
  x.toOption.any fun y => decide (y.1 ≠ rtNull ∧ dataSize y.2 y.1 < n)

lemma exists_of_returnsLess {x : Except Fault (ℕ × Heap)} (hx : returnsLess n x = true) :
    ∃ r h', x = .ok (r, h') ∧ r ≠ rtNull ∧ dataSize h' r < n := by
  obtain ⟨⟨r, h'⟩, hok, hless⟩ := (any_eq_true _ _).mp hx
  exact ⟨r, h', toOption_eq_some.mp hok, of_decide_eq_true hless⟩

/-- A size of all but two bytes of the address space is rounded up to twelve. A block of 100 bytes that
is to grow to eight bytes less than the address space is said to be in place. -/
theorem not_memheapRoom_wrapped : ∃ s, Reach GrowthFits s ∧ (s.live 0x1018).isSome ∧
    ¬ ReallocKeeps s.heap 0x1018 0xfffffffe ∧ ¬ ReallocKeeps s.heap 0x1018 0xfffffff8 ∧
    ¬ AllocRoom s.heap 0xfffffffe := by
  obtain ⟨s, hrun, hfacts⟩ := (any_eq_true _ _).mp (show (run GrowthFits [.alloc 100]).any
    (fun s => (s.live 0x1018).isSome &&
      returnsLess 0xfffffffe (rtMemheapRealloc s.heap 0x1018 0xfffffffe) &&
      returnsLess 0xfffffff8 (rtMemheapRealloc s.heap 0x1018 0xfffffff8) &&
      returnsLess 0xfffffffe (rtMemheapAlloc s.heap 0xfffffffe)) = true by decide +kernel)
  simp only [Bool.and_eq_true] at hfacts
  obtain ⟨⟨⟨hlive, hround⟩, hgrow⟩, halloc⟩ := hfacts
  obtain ⟨r₁, h₁, hcall₁, hr₁, hless₁⟩ := exists_of_returnsLess hround
  obtain ⟨r₂, h₂, hcall₂, hr₂, hless₂⟩ := exists_of_returnsLess hgrow
  obtain ⟨r₃, h₃, hcall₃, hr₃, hless₃⟩ := exists_of_returnsLess halloc
  refine ⟨s, reach_run hrun, hlive, not_reallocKeeps_of hcall₁ hr₁ hless₁,
    not_reallocKeeps_of hcall₂ hr₂ hless₂, fun hroom => ?_⟩
  have hle := hroom r₃ h₃ hcall₃ hr₃
  omega

end MemHeap
