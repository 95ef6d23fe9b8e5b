import TempSns.SmallMem.Malloc
import TempSns.SmallMem.Release

/-!
# Clearing and resizing

`rt_calloc` is `rt_malloc` followed by a clearing of the requested bytes. It stays inside the new
block as long as rounding the product up does not wrap (`rtCalloc_spec`).

`rt_realloc` of a used block returns `RT_NULL` with the heap unchanged, frees the block, keeps it,
cuts it in place or moves it. The three last cases replace the block at `p` by a block at `q`
(`Replaced`). Cutting in place is the only path on which `lfree` is not adjusted to the new free
block: `SplitKeepsCursor` says when it still ends up on the lowest one.
-/

namespace SmallMem

open ByteMem Tiling Word32

variable {h : Heap} {pre post ts : List Tile} {n newsize : ℕ} {size : ℕ}

/-- Rounding up does not lose bytes, unless it wraps. -/
lemma le_alignUp (hsize : size ≤ 0xfffffffc) : size ≤ alignUp size rtAlignSize := by
  rw [alignUp_four]
  omega

lemma alignUp_aligned (size : ℕ) : 4 ∣ alignUp size rtAlignSize := by
  rw [alignUp_four]
  exact ⟨_, Nat.mul_comm _ _⟩

lemma alignUp_of_aligned (hal : 4 ∣ size) (hsize : size < 2 ^ 32) :
    alignUp size rtAlignSize = size := by
  rw [alignUp_four]
  omega

lemma le_request_of_aligned (hal : 4 ∣ size) (hsize : size < 2 ^ 32) : size ≤ request size := by
  have hreq := alignUp_le_request size
  rwa [alignUp_of_aligned hal hsize] at hreq

lemma request_of_aligned (hal : 4 ∣ size) (hsize : size < 2 ^ 32)
    (hmin : 12 ≤ size) : request size = size := by
  rw [request, alignUp_of_aligned hal hsize, minSizeAligned_eq, if_neg (by omega)]

/-! ## `rt_calloc` -/

/-- Clearing the data of a block that was just allocated keeps what the allocation established. -/
lemma rtCalloc_spec (inv : HeapInv h ts) {count size : ℕ} (hwrap : mul count size ≤ 0xfffffffc) :
    rtCalloc h count size = .ok (rtNull, h) ∨
      Allocated h ts (request (mul count size) + 12) (rtCalloc h count size) := by
  unfold rtCalloc
  rcases rtMalloc_spec inv (mul count size) with hnull |
    ⟨p, k, h', ts', hok, hk, hfresh, hext, hinv, hsame, hkept⟩
  · left
    simp [hnull]
  · right
    have hlen : mul count size + 12 ≤ k :=
      (Nat.add_le_add_right ((le_alignUp hwrap).trans (alignUp_le_request _)) 12).trans hk
    have hdata : h.heapPtr + p + 12 - h'.heapPtr = p + 12 := by
      rw [hsame.heapPtr]
      omega
    have hnull : h.heapPtr + p + 12 ≠ rtNull := by simp
    simp only [hok, if_pos hnull, hdata]
    exact ⟨p, k, _, _, rfl, hk, hfresh, hext,
      hinv.write_data ((hext _).mpr (.inl rfl)) (fill_agreeOff _ _ _ _) le_rfl (by omega),
      ⟨hsame.heapPtr, hsame.heapEnd, hsame.memSizeAligned⟩, hkept⟩

/-! ## Cutting in place -/

/-- Where `lfree` stands when the block at `ptr` is cut: below the block, or on the free block
behind it, which then takes in the tail. -/
def SplitKeepsCursor (h : Heap) (ptr : ℕ) : Prop :=
  h.lfree < ptr ∨ (h.lfree = (header h.mem ptr).next ∧ (header h.mem h.lfree).used = 0)

instance (h : Heap) (ptr : ℕ) : Decidable (SplitKeepsCursor h ptr) :=
  inferInstanceAs (Decidable (_ ∨ _))

/-- The heap after the stores of the split branch, in front of the merge. -/
def splitHeap (h : Heap) (p size newsize : ℕ) : Heap :=
  { h with
    mem := linkMem2 h (createMem2 h.mem p (p + (newsize + 12))) (p + (newsize + 12))
    usedMem := sub h.usedMem (sub size newsize) }

lemma reallocSplit_eq {p size : ℕ} (hp : p + (newsize + 12) < 2 ^ 32) :
    reallocSplit h p size newsize = plugHoles (splitHeap h p size newsize) (p + (newsize + 12)) := by
  have hptr2 : add (add p sizeofStructMem) newsize = p + (newsize + 12) := by
    simp only [add, sizeofStructMem_eq]
    omega
  unfold reallocSplit
  rw [hptr2]
  rfl

lemma splitHeap_shape (s : Shape h (pre ++ ⟨n, true⟩ :: post)) (size : ℕ) (hlo : 4 ≤ newsize)
    (hal : 4 ∣ newsize) (hfit : newsize + 28 ≤ n) :
    Shape (splitHeap h (span pre) size newsize)
        ((pre ++ [⟨newsize + 12, true⟩]) ++ ⟨n - (newsize + 12), false⟩ :: post) ∧
      HeadersOnly (cuts 0 ((pre ++ [⟨newsize + 12, true⟩]) ++ ⟨n - (newsize + 12), false⟩ :: post))
        h.mem (splitHeap h (span pre) size newsize).mem := by
  rw [List.append_assoc, List.singleton_append]
  obtain ⟨-, hp, -⟩ := createMem2_spec s (s := newsize + 12) (by omega) (by simp only; omega)
  have hsame : ∀ m : Mem, AgreeOff m m (span pre) 12 := fun _ _ _ => rfl
  obtain ⟨hwalk, hheaders⟩ := linkMem2_createMem2 (s := newsize + 12) (u := true) s (by omega)
    (by simp only; omega) (by omega) (hsame _) hp
  unfold splitHeap
  dsimp only at hwalk hheaders ⊢
  refine ⟨⟨hwalk, s.end_eq, s.capacity, s.top, s.ptr_aligned, ?_⟩, hheaders⟩
  -- the cursor is not touched, and the free blocks are still there
  refine s.lfree_free.imp_left fun hmem => ?_
  have hsum : newsize + 12 + (n - (newsize + 12)) = n := by omega
  simp only [freeStarts_append, List.mem_append, mem_freeStarts_cons, Nat.add_assoc, hsum] at hmem ⊢
  tauto

/-- The bytes of the tail are subtracted. -/
lemma counted_splitHeap (s : Shape h (pre ++ ⟨n, true⟩ :: post)) (hfit : newsize + 28 ≤ n) :
    Counted h (pre ++ ⟨n, true⟩ :: post) (splitHeap h (span pre) (n - 12) newsize)
      ((pre ++ [⟨newsize + 12, true⟩]) ++ ⟨n - (newsize + 12), false⟩ :: post) := by
  intro hused
  have htop := s.top
  have hle := s.usedSpan_le
  change sub h.usedMem (sub (n - 12) newsize) = _
  simp only [usedSpan_append, usedSpan_cons, usedSpan_nil, if_true, Bool.false_eq_true,
    if_false] at hused hle ⊢
  have hsize : sub (n - 12) newsize = n - 12 - newsize :=
    sub_of_le (by omega) (by omega)
  rw [hsize, sub_of_le (by omega) (by omega)]
  omega

lemma reallocSplit_spec (inv : HeapInv h (pre ++ ⟨n, true⟩ :: post)) (hlo : 4 ≤ newsize)
    (hal : 4 ∣ newsize) (hfit : newsize + 36 < n) :
    ∃ h' ts', reallocSplit h (span pre) (n - 12) newsize = .ok h' ∧ HeapInv h' ts' ∧
      (∀ x, x ∈ extents 0 ts' ↔ x = (span pre, newsize + 12) ∨
        (x ∈ extents 0 (pre ++ ⟨n, true⟩ :: post) ∧ x.1 ≠ span pre)) ∧ SameRegion h h' ∧
      (SplitKeepsCursor h (span pre) → Lowest h (pre ++ ⟨n, true⟩ :: post) → Lowest h' ts') ∧
      (∀ i, span pre + 12 ≤ i → i < span pre + (newsize + 12) → h'.mem i = h.mem i) ∧
      Counted h (pre ++ ⟨n, true⟩ :: post) h' ts' ∧ h'.maxMem = h.maxMem ∧
      usedSpan ts' ≤ usedSpan (pre ++ ⟨n, true⟩ :: post) := by
  obtain ⟨hpre, hpost, -⟩ := coalesced_middle.mp inv.coalesced
  have hcut := inv.cut_le
  have htop := inv.top
  have hblock := inv.walk.block
  have hrest := (walk_cons.mp (walk_append.mp inv.walk).2).2
  simp only [Nat.zero_add, span_cons] at hcut hblock hrest
  obtain ⟨hsplit, hheaders⟩ := splitHeap_shape inv.toShape (n - 12) hlo hal (by omega)
  have hspan : span (pre ++ [⟨newsize + 12, true⟩]) = span pre + (newsize + 12) := by simp
  obtain ⟨h', ts', hok, hmerged, hcoalesced, hlow⟩ :=
    plugHoles_spec hsplit rfl (coalesced_middle.mpr ⟨hpre, .nil, by simp⟩) hpost
  rw [hspan, ← reallocSplit_eq (by omega)] at hok
  refine ⟨h', ts', hok, ⟨hmerged.shape, hcoalesced⟩, fun x => ?_,
    ⟨hmerged.same.heapPtr, hmerged.same.heapEnd, hmerged.same.memSizeAligned⟩,
    fun hcursor hl => hlow fun q hq => ?_, fun i hi hi' => ?_,
    fun hused => hmerged.counted (counted_splitHeap inv.toShape (by omega) hused),
    hmerged.stats.2, ?_⟩
  · rw [hmerged.fuse.extents_eq, List.append_assoc, List.singleton_append,
      mem_extents_shrink inv.walk.tile_pos (by omega), Nat.zero_add]
  · -- the only new free block is the tail, at `span pre + newsize + 12`
    have hsum : span pre + (newsize + 12) + (n - (newsize + 12)) = span pre + n := by omega
    have hcase : h.lfree ≤ q ∨ q = span pre + (newsize + 12) := by
      rw [freeStarts_append, List.mem_append, mem_freeStarts_cons, Nat.zero_add, hspan, hsum] at hq
      rcases hq with hq | ⟨-, hq⟩ | hq
      · exact Or.inl (hl q (by simpa using Or.inl hq))
      · exact .inr hq
      · exact .inl (hl q (by simp [hq]))
    rw [hspan]
    show h.lfree ≤ q ∨ (q = span pre + (newsize + 12) ∧
      h.lfree = span pre + (newsize + 12) + (n - (newsize + 12)) ∧ _)
    rcases hcase with hle | hq
    · exact .inl hle
    rcases hcursor with hlt | ⟨hnext, hfree⟩
    · exact .inl (by omega)
    · rw [hblock.header_eq] at hnext
      simp only at hnext
      rw [hnext] at hfree
      exact .inr ⟨hq, by omega, hrest.head_used.mp hfree⟩
  · refine (hheaders.trans hmerged.headers).data (mem_extents.mpr ?_) hi hi'
    exact ⟨pre, ⟨n - (newsize + 12), false⟩ :: post, by simp, (Nat.zero_add _).symm⟩
  · rw [hmerged.fuse.usedSpan_eq]
    simp only [usedSpan_append, usedSpan_cons, usedSpan_nil, if_true, Bool.false_eq_true, if_false]
    omega

/-! ## Moving -/

/-- What `rt_realloc` does to the block at `p` when it succeeds: a block at `q` with room for
`newsize` bytes takes its place, with the data of both sizes. If the block `moves`, the new block is
counted before the old one is subtracted. -/
def Replaced (h : Heap) (ts : List Tile) (p newsize : ℕ) (cursor moves : Prop)
    (res : Except Fault (ℕ × Heap)) : Prop :=
  ∃ q k h' ts', res = .ok (h.heapPtr + q + 12, h') ∧ newsize + 12 ≤ k ∧
    (∀ x ∈ extents 0 ts, x.1 ≠ p → x.1 ≠ q) ∧
    (∀ x, x ∈ extents 0 ts' ↔ x = (q, k) ∨ (x ∈ extents 0 ts ∧ x.1 ≠ p)) ∧
    HeapInv h' ts' ∧ SameRegion h h' ∧ (cursor → Lowest h ts → Lowest h' ts') ∧
    (∀ n, (p, n) ∈ extents 0 ts → ∀ i < min (n - 12) newsize,
      h'.mem (q + 12 + i) = h.mem (p + 12 + i)) ∧
    Counted h ts h' ts' ∧
    ((moves ∧ ∃ r₁ h₁, rtMalloc h newsize = .ok (r₁, h₁) ∧
        h'.maxMem = max h.maxMem h₁.usedMem ∧ (h.usedMem = usedSpan ts → h'.usedMem ≤ h₁.usedMem)) ∨
      (¬ moves ∧ h'.maxMem = h.maxMem ∧ usedSpan ts' ≤ usedSpan ts))

/-- The heap after `len` bytes of data have been copied from the block at `p` to the one at `q`. -/
def copied (h : Heap) (q p len : ℕ) : Heap :=
  { h with mem := copy h.mem (q + 12) (p + 12) len }

lemma copied_inv (inv : HeapInv h ts) {p q k len : ℕ} (hq : (q, k) ∈ extents 0 ts)
    (hlen : len + 12 ≤ k) : HeapInv (copied h q p len) ts :=
  inv.write_data hq (copy_agreeOff _ _ _ _) le_rfl (by omega)

/-- The move branch once it has got a new block. -/
lemma reallocMove_eq {h1 : Heap} {p q size : ℕ}
    (hok : rtMalloc h newsize = .ok (h.heapPtr + q + 12, h1)) (hsame : SameRegion h h1) :
    reallocMove h (h.heapPtr + p + 12) size newsize =
      (rtFree (copied h1 q p (min size newsize)) (h.heapPtr + p + 12)).map
        fun h' => (h.heapPtr + q + 12, h') := by
  have hnull : h.heapPtr + q + 12 ≠ rtNull := by simp
  have hdst : h.heapPtr + q + 12 - h1.heapPtr = q + 12 := by
    rw [hsame.heapPtr]
    omega
  have hsrc : h.heapPtr + p + 12 - h1.heapPtr = p + 12 := by
    rw [hsame.heapPtr]
    omega
  have hlen : (if size < newsize then size else newsize) = min size newsize := by
    rw [Nat.min_def]
    split <;> split <;> omega
  unfold reallocMove
  simp only [hok, if_pos hnull, hdst, hsrc, hlen]
  rw [show { h1 with mem := copy h1.mem (q + 12) (p + 12) (min size newsize) } =
    copied h1 q p (min size newsize) from rfl]
  cases rtFree (copied h1 q p (min size newsize)) (h.heapPtr + p + 12) <;> rfl

lemma rtMalloc_data (inv : HeapInv h ts) {r q k : ℕ} {h' : Heap}
    (hok : rtMalloc h newsize = .ok (r, h')) (hq : (q, k) ∈ extents 0 ts) {i : ℕ}
    (hlo : q + 12 ≤ i) (hhi : i < q + k) : h'.mem i = h.mem i := by
  rcases rtMalloc_cases inv newsize with hnull | ⟨pre, t, post, rfl, ht, hfit, hcall⟩
  · rw [hnull] at hok
    cases hok
    rfl
  · rw [hcall] at hok
    cases hok
    obtain ⟨k', -, -, hext⟩ := mem_extents_occupy 0 24 inv.walk.tile_pos hfit ht
    exact (mallocTake_spec inv.toShape (request_ge _) (request_aligned _) hfit).2.1.data
      ((hext _).mpr (.inr hq)) hlo hhi

/-- The move branch: the data is copied into a new block, and the old one is freed. -/
lemma reallocMove_spec (inv : HeapInv h ts) {p : ℕ} (hp : (p, n) ∈ extents 0 ts)
    (hal : 4 ∣ newsize) (hsize : newsize < 2 ^ 32) :
    (reallocMove h (h.heapPtr + p + 12) (n - 12) newsize = .ok (rtNull, h) ∧
        rtMalloc h newsize = .ok (rtNull, h)) ∨
      Replaced h ts p newsize True True (reallocMove h (h.heapPtr + p + 12) (n - 12) newsize) := by
  rcases rtMalloc_spec inv newsize with hnull |
    ⟨q, k, h1, ts1, hok, hk, hfresh, hext, hinv, hsame, hlow, hcount, hmax⟩
  · left
    simp [reallocMove, hnull]
  right
  have hreq := le_request_of_aligned hal hsize
  have hnew : (q, k) ∈ extents 0 ts1 := (hext _).mpr (.inl rfl)
  have hinv2 : HeapInv (copied h1 q p (min (n - 12) newsize)) ts1 := copied_inv hinv hnew (by omega)
  -- the old block is still there, so it can be freed
  have hold : (p, n) ∈ extents 0 ts1 := (hext _).mpr (.inr hp)
  obtain ⟨pre, post, rfl, rfl⟩ := mem_extents.mp hold
  obtain ⟨h3, ts3, hfree, hinv3, hext3, hsame3, hlow3, hheaders, hcount3, hmax3, hle⟩ :=
    rtFree_spec hinv2
  rw [Nat.zero_add] at *
  have haddr : (copied h1 q (span pre) (min (n - 12) newsize)).heapPtr = h.heapPtr := hsame.heapPtr
  rw [haddr] at hfree
  rw [reallocMove_eq hok hsame, hfree]
  refine ⟨q, k, h3, ts3, rfl, by omega, fun x hx _ => hfresh x hx, fun x => ?_, hinv3,
    hsame.trans ⟨hsame3.heapPtr, hsame3.heapEnd, hsame3.memSizeAligned⟩,
    fun _ hl => hlow3 (hlow hl), fun n' hn' i hi => ?_, fun hused => hcount3 (hcount hused),
    .inl ⟨trivial, _, _, hok, hmax3.trans hmax, fun hused => ?_⟩⟩
  · rw [hext3, hext]
    have hne : span pre ≠ q := hfresh _ hp
    constructor
    · rintro ⟨rfl | hx, hstart⟩
      · exact .inl rfl
      · exact .inr ⟨hx, hstart⟩
    · rintro (rfl | ⟨hx, hstart⟩)
      · exact ⟨.inl rfl, fun heq => hne heq.symm⟩
      · exact ⟨.inr hx, hstart⟩
  · -- the release keeps the new block, which has what the old block had before the call
    obtain rfl : n = n' := extents_unique inv.walk.tile_pos hp hn'
    rw [hheaders.data hnew (by omega) (by omega)]
    change copy h1.mem (q + 12) (span pre + 12) (min (n - 12) newsize) (q + 12 + i) = _
    rw [copy, if_pos (by omega), Nat.add_sub_cancel_left]
    exact rtMalloc_data inv hok hp (by omega) (by omega)
  · rw [hcount3 (hcount hused), hcount hused]
    exact hle

/-! ## `rt_realloc` -/

/-- The size of the data of a block, as `rt_realloc` computes it. -/
lemma data_size (inv : HeapInv h (pre ++ ⟨n, true⟩ :: post)) :
    sub (sub (header h.mem (span pre)).next (span pre)) sizeofStructMem = n - 12 := by
  have hblock := inv.walk.block
  have hcut := inv.cut_le
  have htop := inv.top
  have hmin := hblock.min_size
  simp only [Nat.zero_add, span_cons] at hblock hcut hmin
  rw [hblock.header_eq]
  simp only [sub, sizeofStructMem_eq]
  omega

/-- `rt_realloc` takes the split branch for these arguments. -/
def reallocSplits (h : Heap) (rmem newsize : ℕ) : Prop :=
  let ptr := blockOf h rmem
  let size := sub (sub (header h.mem ptr).next ptr) sizeofStructMem
  alignUp newsize rtAlignSize ≠ 0 ∧
    add (add (alignUp newsize rtAlignSize) sizeofStructMem) minSize < size

instance (h : Heap) (rmem newsize : ℕ) : Decidable (reallocSplits h rmem newsize) :=
  inferInstanceAs (Decidable (_ ∧ _))

/-- `rt_realloc` comes to its last branch, which calls `rt_malloc` and `rt_free`. -/
def reallocMoves (h : Heap) (rmem newsize : ℕ) : Prop :=
  let newsize := alignUp newsize rtAlignSize
  let ptr := blockOf h rmem
  let size := sub (sub (header h.mem ptr).next ptr) sizeofStructMem
  newsize ≤ h.memSizeAligned ∧ newsize ≠ 0 ∧ rmem ≠ rtNull ∧
    (h.heapPtr ≤ rmem ∧ rmem < h.heapPtr + h.heapEnd) ∧ size ≠ newsize ∧
    size ≤ add (add newsize sizeofStructMem) minSize

instance (h : Heap) (rmem newsize : ℕ) : Decidable (reallocMoves h rmem newsize) := by
  unfold reallocMoves
  infer_instance

/-- What `rt_realloc` compares with the size of the data. -/
lemma add_header_minSize (inv : HeapInv h ts) {a : ℕ} (hcap : a ≤ h.memSizeAligned) :
    add (add a sizeofStructMem) minSize = a + 24 := by
  have htop := inv.top
  have hend := inv.end_eq
  simp only [add, sizeofStructMem_eq, minSize_eq]
  omega

/-- When `rt_realloc` of a used block comes to its last branch. -/
lemma reallocMoves_iff (inv : HeapInv h (pre ++ ⟨n, true⟩ :: post)) :
    reallocMoves h (h.heapPtr + span pre + 12) newsize ↔
      alignUp newsize rtAlignSize ≤ h.memSizeAligned ∧ alignUp newsize rtAlignSize ≠ 0 ∧
        n - 12 ≠ alignUp newsize rtAlignSize ∧
        n - 12 ≤ alignUp newsize rtAlignSize + 24 := by
  obtain ⟨hlo, hhi, -, hmem⟩ := data_address inv.toShape
  unfold reallocMoves
  dsimp only
  rw [hmem, data_size inv]
  by_cases hcap : alignUp newsize rtAlignSize ≤ h.memSizeAligned
  · rw [add_header_minSize inv hcap]
    tauto
  · exact iff_of_false (fun hall => hcap hall.1) fun hall => hcap hall.1

/-- The branches of `rt_realloc` for the data address of a used block. -/
lemma rtRealloc_eq (inv : HeapInv h (pre ++ ⟨n, true⟩ :: post))
    (hzero : alignUp newsize rtAlignSize ≠ 0)
    (hcap : alignUp newsize rtAlignSize ≤ h.memSizeAligned) :
    rtRealloc h (h.heapPtr + span pre + 12) newsize =
      if n - 12 = alignUp newsize rtAlignSize then
        .ok (h.heapPtr + span pre + 12, h)
      else if alignUp newsize rtAlignSize + 24 < n - 12 then
        (reallocSplit h (span pre) (n - 12) (alignUp newsize rtAlignSize)).map
          fun h' => (h.heapPtr + span pre + 12, h')
      else reallocMove h (h.heapPtr + span pre + 12) (n - 12) (alignUp newsize rtAlignSize) := by
  unfold rtRealloc
  simp only
  generalize alignUp newsize rtAlignSize = a at hzero hcap
  have hnull : h.heapPtr + span pre + 12 ≠ rtNull := by simp
  obtain ⟨hlo, hhi, -, hmem⟩ := data_address inv.toShape
  have hrange : ¬(h.heapPtr + span pre + 12 < h.heapPtr ∨
      h.heapPtr + h.heapEnd ≤ h.heapPtr + span pre + 12) := by omega
  have hsize : sub (sub (header h.mem (span pre)).next (span pre)) sizeofStructMem =
      n - 12 := data_size inv
  rw [if_neg (not_lt.mpr hcap), if_neg hzero, if_neg hnull, if_neg hrange, hmem, hsize,
    add_header_minSize inv hcap]
  cases reallocSplit h (span pre) (n - 12) a <;> rfl

/-- `rt_realloc` of the data address of a used block with a size that does not round to zero. -/
lemma rtRealloc_spec (inv : HeapInv h ts) {p : ℕ} (hp : (p, n) ∈ extents 0 ts)
    (hzero : alignUp newsize rtAlignSize ≠ 0) :
    (rtRealloc h (h.heapPtr + p + 12) newsize = .ok (rtNull, h) ∧
        (reallocMoves h (h.heapPtr + p + 12) newsize →
          rtMalloc h (alignUp newsize rtAlignSize) = .ok (rtNull, h))) ∨
      Replaced h ts p (alignUp newsize rtAlignSize)
        (reallocSplits h (h.heapPtr + p + 12) newsize → SplitKeepsCursor h p)
        (reallocMoves h (h.heapPtr + p + 12) newsize)
        (rtRealloc h (h.heapPtr + p + 12) newsize) := by
  have hal := alignUp_aligned newsize
  by_cases hbig : h.memSizeAligned < alignUp newsize rtAlignSize
  · left
    refine ⟨?_, fun hmoves => absurd hmoves.1 (not_le.mpr hbig)⟩
    rw [rtRealloc]
    exact if_pos hbig
  have htop := inv.top
  have hend := inv.end_eq
  obtain ⟨pre, post, rfl, hpos⟩ := mem_extents.mp hp
  rw [Nat.zero_add] at hpos
  subst hpos
  rw [rtRealloc_eq inv hzero (not_lt.mp hbig), reallocMoves_iff inv]
  have hmin := inv.walk.block.min_size
  simp only at hmin
  by_cases hkeep : n - 12 = alignUp newsize rtAlignSize
  · -- the size is the same: nothing changes
    right
    rw [if_pos hkeep]
    refine ⟨span pre, n, h, _, rfl, by omega, fun _ _ hne => hne, fun x => ?_, inv, .refl h,
      fun _ hl => hl, fun _ _ _ _ => rfl, fun hused => hused,
      .inr ⟨fun hmoves => hmoves.2.2.1 hkeep, rfl, le_rfl⟩⟩
    constructor
    · intro hx
      by_cases hstart : x.1 = span pre
      · have := extents_unique inv.walk.tile_pos hp (hstart ▸ hx : (span pre, x.2) ∈ _)
        exact .inl (Prod.ext hstart this.symm)
      · exact .inr ⟨hx, hstart⟩
    · rintro (rfl | ⟨hx, -⟩)
      · exact hp
      · exact hx
  rw [if_neg hkeep]
  by_cases hsplit : alignUp newsize rtAlignSize + 24 < n - 12
  · right
    obtain ⟨h', ts', hok, hinv, hext, hsame, hlow, hdata, hcount, hpeak⟩ :=
      reallocSplit_spec inv (by omega) hal (by omega)
    rw [if_pos hsplit, hok]
    refine ⟨span pre, _, h', ts', rfl, le_rfl, fun _ _ hne => hne, hext, hinv, hsame,
      fun hcursor hl => hlow (hcursor ⟨hzero, ?_⟩) hl, fun _ _ i hi => hdata _ (by omega) (by omega),
      hcount, .inr ⟨fun hmoves => by omega, hpeak⟩⟩
    rw [(data_address inv.toShape).2.2.2, data_size inv, add_header_minSize inv (not_lt.mp hbig)]
    exact hsplit
  · rw [if_neg hsplit]
    refine (reallocMove_spec inv hp hal (by omega)).imp (fun hnone => ⟨hnone.1, fun _ => hnone.2⟩)
      fun hmove => ?_
    obtain ⟨q, k, h', ts', hok, hk, hfresh, hext, hinv, hsame, hlow, hdata, hcount, hpeak⟩ := hmove
    refine ⟨q, k, h', ts', hok, hk, hfresh, hext, hinv, hsame, fun _ hl => hlow trivial hl, hdata,
      hcount, hpeak.imp (fun hpeak => ⟨?_, hpeak.2⟩) fun hpeak => absurd trivial hpeak.1⟩
    exact ⟨not_lt.mp hbig, hzero, hkeep, not_lt.mp hsplit⟩

lemma rtRealloc_null (inv : HeapInv h ts) (newsize : ℕ) :
    rtRealloc h rtNull newsize = .ok (rtNull, h) ∨ (alignUp newsize rtAlignSize ≠ 0 ∧
        Allocated h ts (request (alignUp newsize rtAlignSize) + 12)
          (rtRealloc h rtNull newsize)) := by
  unfold rtRealloc
  simp only
  by_cases hbig : h.memSizeAligned < alignUp newsize rtAlignSize
  · exact .inl (if_pos hbig)
  rw [if_neg hbig]
  by_cases hzero : alignUp newsize rtAlignSize = 0
  · left
    rw [if_pos hzero, rtFree, if_pos rfl]
  · rw [if_neg hzero, if_pos trivial]
    exact (rtMalloc_spec inv _).imp_right fun halloc => ⟨hzero, halloc⟩

lemma rtRealloc_zero {rmem : ℕ} (hzero : alignUp newsize rtAlignSize = 0) :
    rtRealloc h rmem newsize = (rtFree h rmem).map fun h' => (rtNull, h') := by
  unfold rtRealloc
  simp only [hzero, Nat.not_lt_zero, if_false, if_true]
  cases rtFree h rmem <;> rfl

end SmallMem
