import TempSns.SmallMem.Merge

/-!
# Release

`rt_free` turns the used block in front of its argument into a free one, lowers `lfree` if the
block is below it, and lets `plug_holes` merge. `rtFree_spec` says that for the data address of a
used block the call returns, and that the other used blocks stay as they are.

Bytes inside the data area of a block are not read by the allocator: `HeapInv.write_data` is used
for what the client, `rt_calloc` and `rt_realloc` store there.
-/

namespace SmallMem

open ByteMem Tiling Word32

variable {h : Heap} {t : Tile} {pre post ts : List Tile} {n : ℕ}

/-! ## Data area of a block -/

/-- A walk does not see the bytes between the header of a block and the next block. -/
lemma Walk.write_data {m m' : Mem} {e : ℕ} (w : Walk m e 0 0 (pre ++ t :: post))
    (hag : ∀ i, i < span pre + 12 ∨ span pre + t.size ≤ i → m' i = m i) :
    Walk m' e 0 0 (pre ++ t :: post) := by
  obtain ⟨hpre, hrest⟩ := walk_append.mp w
  obtain ⟨hblock, hpost⟩ := walk_cons.mp hrest
  rw [Nat.zero_add] at hblock hpost
  refine walk_append.mpr ⟨hpre.congr fun i _ hi => hag i (by omega), walk_cons.mpr ⟨?_, ?_⟩⟩
  · rw [Nat.zero_add]
    exact hblock.congr fun i _ hi => hag i (by omega)
  · rw [Nat.zero_add]
    exact hpost.congr fun i hi => hag i (by omega)

/-- Stores into the data area of a used block keep the invariant. -/
lemma HeapInv.write_data {m' : Mem} {p a k : ℕ} (inv : HeapInv h ts)
    (hp : (p, n) ∈ extents 0 ts) (hag : AgreeOff h.mem m' a k) (hlo : p + 12 ≤ a)
    (hhi : a + k ≤ p + n) : HeapInv { h with mem := m' } ts where
  walk := by
    obtain ⟨pre, post, rfl, rfl⟩ := mem_extents.mp hp
    exact inv.walk.write_data fun i hi => hag i (by simp only at hi; omega)
  end_eq := inv.end_eq
  capacity := inv.capacity
  top := inv.top
  ptr_aligned := inv.ptr_aligned
  lfree_free := inv.lfree_free
  coalesced := inv.coalesced

lemma data_address (s : Shape h (pre ++ t :: post)) : h.heapPtr ≤ h.heapPtr + span pre + 12 ∧
      h.heapPtr + span pre + 12 < h.heapPtr + h.heapEnd ∧
      (h.heapPtr + span pre + 12) % rtAlignSize = 0 ∧
      blockOf h (h.heapPtr + span pre + 12) = span pre := by
  have hal := (walk_append.mp s.walk).1.aligned
  have hptr := s.ptr_aligned
  have hcut := s.cut_le
  have htop := s.top
  have hsize := s.walk.block.min_size
  simp only [span_cons] at hcut
  simp only [blockOf, rtAlignSize_eq, sizeofStructMem_eq, sub]
  refine ⟨by omega, by omega, by omega, by omega⟩

/-! ## `rt_free` -/

/-- Clearing the flag turns the tile into a free one. -/
lemma releaseBlock_shape (s : Shape h (pre ++ ⟨n, true⟩ :: post)) :
    Shape (releaseBlock h (span pre)) (pre ++ ⟨n, false⟩ :: post) := by
  refine ⟨s.walk.flag (setUsed_agreeOff.trans setMagic_agreeOff) ?_, s.end_eq, s.capacity, s.top,
    s.ptr_aligned, ?_⟩
  · have hblock := s.walk.block
    rw [Nat.zero_add] at hblock
    show header (setMagic (setUsed h.mem (span pre) 0) (span pre) heapMagic) (span pre) = _
    rw [header_setMagic (by decide), header_setUsed (by norm_num), hblock.header_eq]
    rfl
  · -- the cursor moves to the freed block or stays on a free one
    show (if span pre < h.lfree then span pre else h.lfree) ∈ _ ∨
      (if span pre < h.lfree then span pre else h.lfree) = h.heapEnd
    split
    · left; simp
    · refine s.lfree_free.imp_left fun hmem => ?_
      simp only [freeStarts_append, List.mem_append, mem_freeStarts_cons] at hmem ⊢
      tauto

lemma counted_releaseBlock (s : Shape h (pre ++ ⟨n, true⟩ :: post)) :
    Counted h (pre ++ ⟨n, true⟩ :: post) (releaseBlock h (span pre)) (pre ++ ⟨n, false⟩ :: post) := by
  intro hused
  have hblock := s.walk.block
  have htop := s.top
  have hle := s.usedSpan_le
  have hcut := s.cut_le
  rw [Nat.zero_add] at hblock
  simp only [span_cons] at hcut
  have hnext : (header (setMagic (setUsed h.mem (span pre) 0) (span pre) heapMagic)
      (span pre)).next = span pre + n := by
    rw [header_setMagic (by decide), header_setUsed (by norm_num), hblock.header_eq]
  change sub h.usedMem (sub _ (span pre)) = _
  have hsize : sub (span pre + n) (span pre) = n := by
    rw [sub_of_le (by omega) (by omega), Nat.add_sub_cancel_left]
  simp only [usedSpan_append, usedSpan_cons, if_true] at hused hle ⊢
  rw [hnext, hsize, sub_of_le (by omega) (by omega)]
  simp only [Bool.false_eq_true, if_false]
  omega

/-- The assertions of `rt_free` hold for the data address of a used block. -/
lemma rtFree_eq (inv : HeapInv h (pre ++ ⟨n, true⟩ :: post)) :
    rtFree h (h.heapPtr + span pre + 12) = plugHoles (releaseBlock h (span pre)) (span pre) := by
  have hblock := inv.walk.block
  rw [Nat.zero_add] at hblock
  obtain ⟨hlo, hhi, hal, hmem⟩ := data_address inv.toShape
  have hused : (header h.mem (span pre)).used ≠ 0 ∧
      (header h.mem (span pre)).magic = heapMagic := by
    rw [hblock.header_eq]
    exact ⟨by simp, rfl⟩
  have hnull : h.heapPtr + span pre + 12 ≠ rtNull := by simp
  rw [rtFree, if_neg hnull, if_pos ⟨hal, hlo, hhi⟩, hmem, if_pos hused]

/-- `rt_free` of the data address of a used block returns; the block becomes free and is merged
with its free neighbours. Nothing but headers is written. -/
lemma rtFree_spec (inv : HeapInv h (pre ++ ⟨n, true⟩ :: post)) :
    ∃ h' ts', rtFree h (h.heapPtr + span pre + 12) = .ok h' ∧ HeapInv h' ts' ∧
      (∀ x, x ∈ extents 0 ts' ↔
        x ∈ extents 0 (pre ++ ⟨n, true⟩ :: post) ∧ x.1 ≠ span pre) ∧ SameRegion h h' ∧
      (Lowest h (pre ++ ⟨n, true⟩ :: post) → Lowest h' ts') ∧
      HeadersOnly (cuts 0 (pre ++ ⟨n, true⟩ :: post)) h.mem h'.mem ∧
      Counted h (pre ++ ⟨n, true⟩ :: post) h' ts' ∧ h'.maxMem = h.maxMem ∧
      usedSpan ts' ≤ usedSpan (pre ++ ⟨n, true⟩ :: post) := by
  obtain ⟨hpre, hpost, -⟩ := coalesced_middle.mp inv.coalesced
  obtain ⟨h', ts', hok, hmerged, hcoalesced, hlow⟩ :=
    plugHoles_spec (releaseBlock_shape inv.toShape) rfl hpre hpost
  have hext : ∀ x, x ∈ extents 0 ts' ↔
      x ∈ extents 0 (pre ++ ⟨n, true⟩ :: post) ∧ x.1 ≠ span pre := by
    intro x
    rw [hmerged.fuse.extents_eq, mem_extents_release inv.walk.tile_pos, Nat.zero_add]
  have hcuts : cuts 0 (pre ++ ⟨n, false⟩ :: post) = cuts 0 (pre ++ ⟨n, true⟩ :: post) := by simp
  refine ⟨h', ts', (rtFree_eq inv).trans hok, ⟨hmerged.shape, hcoalesced⟩, hext,
    ⟨hmerged.same.heapPtr, hmerged.same.heapEnd, hmerged.same.memSizeAligned⟩,
    fun hl => hlow fun q hq => Or.inl ?_, ?_,
    fun hused => hmerged.counted (counted_releaseBlock inv.toShape hused), hmerged.stats.2, ?_⟩
  · -- the lowered cursor is below the freed block and below every other free block
    show (if span pre < h.lfree then span pre else h.lfree) ≤ q
    have hcase : q = span pre ∨ h.lfree ≤ q := by
      simp only [freeStarts_append, List.mem_append, mem_freeStarts_cons, Nat.zero_add] at hq
      rcases hq with hq | ⟨-, hq⟩ | hq
      · exact Or.inr (hl q (by simp [hq]))
      · exact Or.inl hq
      · exact Or.inr (hl q (by simp [hq]))
    split <;> omega
  · rw [← hcuts]
    exact (HeadersOnly.of_agreeOff (setUsed_agreeOff.trans setMagic_agreeOff) (by simp)).trans
      hmerged.headers
  · rw [hmerged.fuse.usedSpan_eq]
    simp

end SmallMem
