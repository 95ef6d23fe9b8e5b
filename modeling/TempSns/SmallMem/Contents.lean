import TempSns.SmallMem.Search

/-!
# The contents of the user areas

The allocator stores into headers only, so a call keeps the data of every block that stays used. For
`rt_realloc` of a live block this gives the contents of its result (`Replaced`), and the contents of
the old block if the call fails. The two exceptions are sizes that rounding up wraps to zero, for which
the block is released, and requests a little smaller than the block, which are moved and not cut
(`reallocKeeps_iff`).
-/

namespace SmallMem

open ByteMem Tiling Word32

variable {h h' : Heap} {s : State} {pre post ts : List Tile} {n newsize size p : ℕ}

/-- The address `a` is the data address of a used block. -/
def InUse (h : Heap) (a : ℕ) : Prop :=
  ∃ bs, Blocks h bs ∧ ∃ p ∈ bs, (header h.mem p).used ≠ 0 ∧ a = h.heapPtr + p + 12

def byteAt (h : Heap) (a : ℕ) : UInt8 := h.mem (a - h.heapPtr)

/-- What is asked of `rt_realloc`: it returns a block of at least `newsize` bytes with the first bytes of
the old one, or `RT_NULL` with the old block as it was; and it does not fail for a request that is
not larger than the data of the block. -/
def ReallocKeeps (h : Heap) (rmem newsize : ℕ) : Prop :=
  ∃ r h', rtRealloc h rmem newsize = .ok (r, h') ∧
    ((r ≠ rtNull ∧ InUse h' r ∧ newsize ≤ dataSize h' r ∧
        ∀ i < min (dataSize h rmem) newsize, byteAt h' (r + i) = byteAt h (rmem + i)) ∨
      (r = rtNull ∧ InUse h' rmem ∧ dataSize h' rmem = dataSize h rmem ∧
        ∀ i < dataSize h rmem, byteAt h' (rmem + i) = byteAt h (rmem + i))) ∧
    (newsize ≤ dataSize h rmem → r ≠ rtNull)

lemma inUse_iff (inv : HeapInv h ts) :
    InUse h (h.heapPtr + p + 12) ↔ ∃ k, (p, k) ∈ extents 0 ts := by
  rw [← seg_used inv.walk.seg]
  constructor
  · rintro ⟨bs, hb, q, hq, hused, heq⟩
    obtain rfl : p = q := by omega
    rw [hb.unique inv.blocks] at hq
    exact ⟨hq, hused⟩
  · rintro ⟨hp, hused⟩
    exact ⟨_, inv.blocks, p, hp, hused, rfl⟩

lemma dataSize_eq (inv : HeapInv h ts) (hp : (p, n) ∈ extents 0 ts) :
    dataSize h (h.heapPtr + p + 12) = n - 12 := by
  rw [dataSize, userEnd_eq inv hp]
  omega

lemma byteAt_data (h : Heap) (p i : ℕ) :
    byteAt h (h.heapPtr + p + 12 + i) = h.mem (p + 12 + i) := by
  rw [byteAt]
  congr 1
  omega

/-- `rt_realloc` does what is asked of it, unless it fails for a size that is not larger than the
data. -/
lemma reallocKeeps_iff_null (inv : HeapInv h ts) (hp : (p, n) ∈ extents 0 ts)
    (hle : newsize ≤ alignUp newsize rtAlignSize)
    (hzero : alignUp newsize rtAlignSize ≠ 0) :
    ReallocKeeps h (h.heapPtr + p + 12) newsize ↔ (newsize ≤ n - 12 →
      rtRealloc h (h.heapPtr + p + 12) newsize ≠ .ok (rtNull, h)) := by
  rcases rtRealloc_spec inv hp hzero with ⟨hnull, -⟩ |
    ⟨q, k, h', ts', hok, hk, -, hext, hinv, hsame, -, hdata, -⟩
  · constructor
    · rintro ⟨r, h', hcall, -, hnot⟩ hsmall _
      rw [hnull] at hcall
      cases hcall
      rw [dataSize_eq inv hp] at hnot
      exact hnot hsmall rfl
    · intro hbig
      refine ⟨_, _, hnull, .inr ⟨rfl, (inUse_iff inv).mpr ⟨n, hp⟩, rfl, fun _ _ => rfl⟩,
        fun hsmall => ?_⟩
      rw [dataSize_eq inv hp] at hsmall
      exact absurd hnull (hbig hsmall)
  · -- a block at `q` takes over the first bytes
    have hq : (q, k) ∈ extents 0 ts' := (hext _).mpr (.inl rfl)
    have hnull : h.heapPtr + q + 12 ≠ rtNull := by simp
    refine iff_of_true ⟨_, _, hok, .inl ⟨hnull, ?_, ?_, fun i hi => ?_⟩, fun _ => hnull⟩
      fun _ hfail => hnull (Prod.mk.inj (Except.ok.inj (hok.symm.trans hfail))).1
    · rw [← hsame.heapPtr]
      exact (inUse_iff hinv).mpr ⟨k, hq⟩
    · rw [← hsame.heapPtr, dataSize_eq hinv hq]
      omega
    · rw [dataSize_eq inv hp] at hi
      have hnew := byteAt_data h' q i
      rw [hsame.heapPtr] at hnew
      rw [hnew, byteAt_data]
      exact hdata n hp i (by omega)

/-- The move branch fails iff the search sees no block. -/
lemma reallocMove_null_iff (inv : HeapInv h ts) (hpos : newsize ≠ 0) :
    reallocMove h (h.heapPtr + p + 12) size newsize = .ok (rtNull, h) ↔ ¬ Available h newsize := by
  rw [← rtMalloc_null_iff inv hpos]
  rcases rtMalloc_spec inv newsize with hnull | ⟨q, k, h1, ts1, hok, -, -, -, -, hsame, -⟩
  · exact iff_of_true (by simp [reallocMove, hnull]) ⟨h, hnull⟩
  · refine iff_of_false (fun hfail => ?_) ?_
    · rw [reallocMove_eq hok hsame] at hfail
      obtain ⟨h3, -, heq⟩ := map_eq_ok.mp hfail
      simp [rtNull] at heq
    · rintro ⟨h2, hnull⟩
      rw [hok] at hnull
      have heq := congrArg Prod.fst (Except.ok.inj hnull)
      simp [rtNull] at heq

lemma available_alignUp {size : ℕ} :
    Available h (alignUp size rtAlignSize) ↔ Available h size := by
  have hidem : alignUp (alignUp size rtAlignSize) rtAlignSize = alignUp size rtAlignSize := by
    refine alignUp_of_aligned (alignUp_aligned size) ?_
    rw [alignUp_four]
    omega
  rw [Available, Available, request, hidem, ← request]

/-- `rt_realloc` fails if the size is larger than the heap, or if the block is to be moved and the
search sees no block. -/
lemma rtRealloc_null_iff (inv : HeapInv h (pre ++ ⟨n, true⟩ :: post))
    (hzero : alignUp newsize rtAlignSize ≠ 0) :
    rtRealloc h (h.heapPtr + span pre + 12) newsize = .ok (rtNull, h) ↔
      h.memSizeAligned < alignUp newsize rtAlignSize ∨ (n - 12 ≠ alignUp newsize rtAlignSize ∧
          n - 12 ≤ alignUp newsize rtAlignSize + 24 ∧ ¬ Available h newsize) := by
  by_cases hbig : h.memSizeAligned < alignUp newsize rtAlignSize
  · refine iff_of_true ?_ (.inl hbig)
    rw [rtRealloc]
    exact if_pos hbig
  rw [rtRealloc_eq inv hzero (not_lt.mp hbig), or_iff_right hbig]
  by_cases hkeep : n - 12 = alignUp newsize rtAlignSize
  · rw [if_pos hkeep]
    exact iff_of_false (fun hnull => by simp at hnull) fun hmoves => hmoves.1 hkeep
  rw [if_neg hkeep, and_iff_right hkeep]
  by_cases hsplit : alignUp newsize rtAlignSize + 24 < n - 12
  · rw [if_pos hsplit]
    refine iff_of_false (fun hnull => ?_) fun hmoves => by omega
    obtain ⟨h₁, -, heq⟩ := map_eq_ok.mp hnull
    simp at heq
  · rw [if_neg hsplit, and_iff_right (not_lt.mp hsplit), reallocMove_null_iff inv hzero,
      available_alignUp]

lemma not_reallocKeeps_of_wrap (inv : HeapInv h ts) (hp : (p, n) ∈ extents 0 ts)
    (hzero : alignUp newsize rtAlignSize = 0) :
    ¬ ReallocKeeps h (h.heapPtr + p + 12) newsize := by
  rintro ⟨r, h', hcall, hcase, -⟩
  obtain ⟨pre, post, rfl, hpos⟩ := mem_extents.mp hp
  rw [Nat.zero_add] at hpos
  subst hpos
  obtain ⟨h₁, ts', hfree, hinv, hext, hsame, -⟩ := rtFree_spec inv
  rw [rtRealloc_zero hzero, hfree] at hcall
  obtain ⟨rfl, rfl⟩ := Prod.mk.inj (Except.ok.inj hcall)
  rcases hcase with ⟨hr, -⟩ | ⟨-, huse, -⟩
  · exact hr rfl
  · rw [← hsame.heapPtr, inUse_iff hinv] at huse
    obtain ⟨k, hk⟩ := huse
    exact ((hext _).mp hk).2 rfl

lemma reallocKeeps_iff_of_inv (inv : HeapInv h ts) (hp : (p, n) ∈ extents 0 ts)
    (hpos : newsize ≠ 0) (hlt : newsize < 2 ^ 32) :
    ReallocKeeps h (h.heapPtr + p + 12) newsize ↔ newsize ≤ 0xfffffffc ∧
      (alignUp newsize rtAlignSize < n - 12 →
        n - 12 ≤ alignUp newsize rtAlignSize + 24 → Available h newsize) := by
  by_cases hwrap : newsize ≤ 0xfffffffc
  case neg =>
    refine iff_of_false (not_reallocKeeps_of_wrap inv hp ?_) fun hboth => hwrap hboth.1
    rw [alignUp_four]
    omega
  rw [and_iff_right hwrap]
  have hle := le_alignUp hwrap
  have hzero : alignUp newsize rtAlignSize ≠ 0 := by omega
  have hround : alignUp newsize rtAlignSize < newsize + 4 := by
    rw [alignUp_four]
    omega
  rw [reallocKeeps_iff_null inv hp hle hzero]
  obtain ⟨pre, post, rfl, hpos'⟩ := mem_extents.mp hp
  rw [Nat.zero_add] at hpos'
  subst hpos'
  have hal := inv.walk.block.aligned
  have hcut := inv.cut_le
  have hend := inv.end_eq
  have hala := alignUp_aligned newsize
  simp only [span_cons] at hal hcut
  rw [Ne, rtRealloc_null_iff inv hzero]
  constructor
  · intro hkeeps hsmall hgap
    by_contra hnone
    exact hkeeps (by omega) (.inr ⟨by omega, hgap, hnone⟩)
  · rintro havail hsmall (hbig | ⟨hne, hgap, hnone⟩)
    · omega
    · exact hnone (havail (by omega) hgap)

/-- In every state reached, for every live block and every size other than zero: `rt_realloc` does what is
asked of it iff the size can be rounded up without wrapping, and, where the block is larger
than the rounded size but not by more than twenty-four bytes, the search sees a block for the size. -/
theorem reallocKeeps_iff (hs : Reachable s) (rmem newsize : UInt32)
    (hlive : (s.live rmem.toNat).isSome) (hpos : newsize ≠ 0) :
    ReallocKeeps s.heap rmem.toNat newsize.toNat ↔ newsize.toNat ≤ 0xfffffffc ∧
      (alignUp newsize.toNat rtAlignSize < dataSize s.heap rmem.toNat →
        dataSize s.heap rmem.toNat ≤ alignUp newsize.toNat rtAlignSize + 24 →
        Available s.heap newsize.toNat) := by
  have hne : newsize.toNat ≠ 0 := fun hzero => hpos (UInt32.toNat_inj.mp hzero)
  rcases hs.cases with ⟨ts, r⟩ | ht
  · obtain ⟨p, n, hp, heq⟩ := r.live_block hlive
    rw [heq, dataSize_eq r.inv hp]
    exact reallocKeeps_iff_of_inv r.inv hp hne newsize.toNat_lt
  · rw [ht.live] at hlive
    cases hlive

/-- A block of 100 bytes that is cut to 40. -/
theorem reallocKeeps_forty : ∃ s, Reachable s ∧ s.live 0x2000000c = some 100 ∧
    ReallocKeeps s.heap 0x2000000c 40 := by
  obtain ⟨s, hs, hlive, hsize⟩ := Reachable.of_run 0x20000000 0x20000100 [.malloc 100]
    (fun s => s.live 0x2000000c = some 100 ∧ dataSize s.heap 0x2000000c = 100) (by decide +kernel)
  have hround : alignUp (40 : UInt32).toNat rtAlignSize = 40 :=
    alignUp_of_aligned (by decide) (by decide)
  have hsome : (s.live (0x2000000c : UInt32).toNat).isSome :=
    Option.isSome_iff_exists.mpr ⟨100, hlive⟩
  refine ⟨s, hs, hlive, (reallocKeeps_iff hs 0x2000000c 40 hsome (by decide)).mpr
    ⟨by decide, fun _ hgap => ?_⟩⟩
  change dataSize s.heap 0x2000000c ≤ _ at hgap
  rw [hround, hsize] at hgap
  omega

/-- In a full heap a block of 100 bytes cannot be cut to 92, and a size of `0xffffffff` releases it. -/
theorem not_reallocKeeps_full : ∃ s, Reachable s ∧ s.live 0x2000000c = some 100 ∧
    dataSize s.heap 0x2000000c = 100 ∧ ¬ ReallocKeeps s.heap 0x2000000c 92 ∧
    ¬ ReallocKeeps s.heap 0x2000000c 0xffffffff := by
  obtain ⟨s, hs, hlive, hsize, hnull⟩ := Reachable.of_run 0x20000000 0x20000100
    [.malloc 100, .malloc 108] (fun s => s.live 0x2000000c = some 100 ∧
      dataSize s.heap 0x2000000c = 100 ∧
      (rtRealloc s.heap 0x2000000c 92).toOption.all (fun x => x.1 = rtNull) = true)
    (by decide +kernel)
  refine ⟨s, hs, hlive, hsize, ?_, ?_⟩
  · rintro ⟨r, h', hcall, -, hnot⟩
    rw [hcall] at hnull
    exact hnot (by rw [hsize]; norm_num) (of_decide_eq_true hnull)
  · rcases hs.cases with ⟨ts, r⟩ | ht
    · obtain ⟨p, n, hp, heq⟩ := r.live_block (Option.isSome_iff_exists.mpr ⟨100, hlive⟩)
      rw [heq]
      exact not_reallocKeeps_of_wrap r.inv hp (by rw [alignUp_four]; norm_num)
    · rw [ht.live] at hlive
      cases hlive

end SmallMem
