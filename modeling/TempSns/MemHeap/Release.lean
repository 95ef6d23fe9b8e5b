import TempSns.MemHeap.Alloc

/-!
# Release of a block

`rt_memheap_free` clears the flag of the block, merges it with the free blocks in front of and
behind it, and puts it into the free list if it was not merged with the one in front.
-/

namespace MemHeap

open Tiling Word32 List

variable {h h' : Heap} {ts pre post : List Tile} {t a b : Tile} {fs : List ℕ} {ins : Bool}

/-- The fields that the merges do not change. -/
structure SameRecord (h h' : Heap) : Prop extends SameRegion h h' where
  maxUsedSize : h'.maxUsedSize = h.maxUsedSize
  peak : h'.peak = h.peak

lemma SameRecord.trans {h'' : Heap} (hs : SameRecord h h') (hs' : SameRecord h' h'') :
    SameRecord h h'' :=
  ⟨hs.toSameRegion.trans hs'.toSameRegion, hs'.maxUsedSize.trans hs.maxUsedSize,
    hs'.peak.trans hs.peak⟩

lemma mergePrev_same (h : Heap) (headerPtr : ℕ) : SameRecord h (mergePrev h headerPtr).2.2 := by
  unfold mergePrev
  split
  · exact ⟨⟨rfl, rfl⟩, rfl, rfl⟩
  · exact ⟨⟨rfl, rfl⟩, rfl, rfl⟩

lemma mergeNext_same (h : Heap) (headerPtr : ℕ) : SameRecord h (mergeNext h headerPtr) := by
  unfold mergeNext
  split
  · exact ⟨⟨rfl, rfl⟩, rfl, rfl⟩
  · exact ⟨⟨rfl, rfl⟩, rfl, rfl⟩

lemma freeBytes_fuse {ts' : List Tile} (hf : Fuse ts ts') : freeBytes ts ≤ freeBytes ts' := by
  induction hf with
  | refl => exact Nat.le_refl _
  | step ha hb _ ih =>
    refine Nat.le_trans ?_ ih
    simp only [freeBytes_append, freeBytes, ha, hb, Bool.false_eq_true, if_false]
    omega

/-- More free bytes mean less use. -/
lemma use_le_use (hpool : h'.poolSize = h.poolSize) (hge : h.availableSize ≤ h'.availableSize)
    (hle : h'.availableSize ≤ h'.poolSize) (hlt : h.poolSize < 2 ^ 32) : h'.use ≤ h.use := by
  rw [use_eq hle (by omega), use_eq (by omega) hlt]
  omega

namespace Pending

/-- Merge the block with a free block behind it. -/
lemma absorbNext (q : Pending h ins pre t (b :: post) fs) (hb : b.used = false) :
    HeadUsed post ∧ Kept (IsHeader h (pre ++ t :: b :: post)) h
        (h.absorbNext (h.startAddr + span pre)) ∧
      ∃ fs', Pending (h.absorbNext (h.startAddr + span pre)) ins pre ⟨t.size + b.size, false⟩ post
        fs' := by
  have hnext : h.block.next (h.startAddr + span pre) = h.startAddr + span pre + t.size := q.links.1
  have hmin := q.min
  have hsize : 24 ≤ t.size := hmin t (by simp)
  obtain ⟨hpost, hends⟩ := coalesced_cons.mp q.coalesced_post
  have hmem : h.startAddr + span pre + t.size ∈ fs := by
    rw [q.free_iff, mem_freeStarts_cons]
    exact Or.inr (Or.inr (Or.inl ⟨hb, rfl⟩))
  have hkept : Kept (IsHeader h (pre ++ t :: b :: post)) h
      (h.absorbNext (h.startAddr + span pre)) := by
    refine Kept.absorbNext (.refl _ h) (.inr (by simp)) ?_ ?_
    · rw [hnext]
      exact (q.toShape.block_links (q.free_cuts _ hmem)).1
    · rw [hnext]
      exact free_links q.freeRing q.free_cuts (.inr hmem)
  obtain ⟨us, vs, rfl⟩ := append_of_mem hmem
  have hnodup := (nodup_cons.mp q.freeRing.nodup).2
  have hshape := q.toShape.absorbNext
  rw [q.free] at hshape
  refine ⟨hends hb, hkept, us ++ vs, hshape, q.outside, rfl, ?_, ?_, q.coalesced_pre, hpost⟩
  · have hring := q.freeRing.unlink_mem
    rw [← hnext] at hring
    exact hring
  · intro p
    have hold := q.free_iff p
    -- the starts around the second block are other than its own
    have hother : p ∈ freeStarts h.startAddr pre ∨ p = h.startAddr + span pre ∨
        p ∈ freeStarts (h.startAddr + span pre + t.size + b.size) post →
        p ≠ h.startAddr + span pre + t.size := by
      have hbsize : 24 ≤ b.size := hmin b (by simp)
      rintro (hp | hp | hp)
      · have hbound := allStarts_bounds (fun x hx => hmin x (by simp [hx]))
          (freeStarts_sub_allStarts hp)
        omega
      · omega
      · have hbound := allStarts_bounds (fun x hx => hmin x (by simp [hx]))
          (freeStarts_sub_allStarts hp)
        omega
    have hself : p ∈ us ++ vs → p ≠ h.startAddr + span pre + t.size := by
      rintro hp rfl
      exact (nodup_middle.mp hnodup).notMem hp
    simp only [mem_append, mem_cons, mem_freeStarts_cons, hb, true_and] at hold hself ⊢
    change _ ↔ p ∈ freeStarts h.startAddr pre ∨ (ins = false ∧ p = h.startAddr + span pre) ∨
      p ∈ freeStarts (h.startAddr + span pre + (t.size + b.size)) post
    rw [← Nat.add_assoc]
    clear hnodup hmin hends hshape hmem hkept
    grind

/-- `rt_memheap_free` merges a block with the one in front. -/
lemma mergePrev (q : Pending h true pre t post fs) {headerPtr : ℕ}
    (hptr : headerPtr = h.startAddr + span pre)
    (havail : h.availableSize = freeBytes (pre ++ t :: post)) :
    ∃ pre' t', LastUsed pre' ∧
      Pending (mergePrev h headerPtr).2.2 (mergePrev h headerPtr).1 pre' t' post fs ∧
      (mergePrev h headerPtr).2.1 = h.startAddr + span pre' ∧
      Fuse (pre ++ t :: post) (pre' ++ t' :: post) ∧
      Kept (IsHeader h (pre ++ t :: post)) h (mergePrev h headerPtr).2.2 ∧
      (mergePrev h headerPtr).2.2.availableSize = freeBytes (pre' ++ t' :: post) := by
  subst hptr
  unfold MemHeap.mergePrev
  rcases eq_nil_or_concat' pre with rfl | ⟨pre, a, rfl⟩
  · -- the block in front of the first one is the one at the end
    have hprev : h.block.prev (h.startAddr + span []) = h.tail := q.prev_first
    rw [hprev, if_pos q.isUsed_tail]
    exact ⟨[], t, nofun, q, rfl, .refl _, .refl _ h, havail⟩
  · have s' : Shape h (pre ++ a :: t :: post) := by simpa using q.toShape
    have hspan : h.startAddr + span (pre ++ [a]) = h.startAddr + span pre + a.size := add_span_concat
    have hlinks := q.toShape.block_links (p := h.startAddr + span (pre ++ [a]))
      (by rw [cuts_append]; exact mem_append_right _ mem_cuts_self)
    rw [hspan] at hlinks ⊢
    have hkept := Kept.unlinkBlock (.refl _ h) hlinks.1 hlinks.2
    rw [s'.links.2]
    cases ha : a.used
    · rw [if_neg (by simp [s'.isUsed_eq, ha])]
      obtain ⟨hpre, -, hends⟩ := coalesced_middle.mp q.coalesced_pre
      have hmerge := s'.merge
      have hta : Fuse ((pre ++ [a]) ++ t :: post) (pre ++ ⟨a.size + t.size, false⟩ :: post) := by
        rw [append_assoc]
        exact .step ha q.free (.refl _)
      rw [ha] at hmerge
      refine ⟨pre, ⟨a.size + t.size, false⟩, (hends ha).1, ?_, rfl, hta, hkept.counters, ?_⟩
      · refine ⟨hmerge.congr rfl rfl rfl rfl rfl rfl, q.outside, rfl, q.freeRing, fun p => ?_, hpre,
          q.coalesced_post⟩
        have hold := q.free_iff p
        rw [hspan, freeStarts_append, mem_append, mem_freeStarts_cons] at hold
        simp only [ha, true_and, freeStarts_nil, not_mem_nil, or_false, Bool.true_eq_false,
          false_and, false_or, Nat.add_assoc] at hold
        simp only [true_and, ← Nat.add_assoc] at hold ⊢
        rw [hold, or_assoc]
      · have hasize := s'.min a (by simp)
        have htsize := s'.min t (by simp)
        have hpool := s'.span
        have htop := s'.top
        have hle := freeBytes_le ((pre ++ [a]) ++ t :: post)
        have hfree := q.free
        change add h.availableSize rtMemheapSize = _
        simp only [span_append, span_cons, span_nil] at hpool hle
        simp only [freeBytes_append, freeBytes, ha, hfree, Bool.false_eq_true, if_false]
          at havail hle ⊢
        rw [rtMemheapSize_eq, add_of_lt (by omega)]
        omega
    · rw [if_pos (s'.isUsed_eq.trans ha)]
      refine ⟨pre ++ [a], t, ?_, q, hspan.symm, .refl _, .refl _ h, havail⟩
      intro x hx
      simp at hx
      rw [← hx, ha]

lemma isUsed_next_iff (q : Pending h ins pre t post fs) :
    h.isUsed (h.block.next (h.startAddr + span pre)) = true ↔ HeadUsed post := by
  rw [q.links.1, q.isUsed_next]
  cases post with
  | nil => simp [HeadUsed]
  | cons b post => simp [HeadUsed]

/-- Merge the block with a free block behind it, with a new count of the free bytes. -/
lemma absorbCounted (q : Pending h ins pre t (b :: post) fs) (hb : b.used = false) (avail : ℕ) :
    ∃ h' fs', { h with availableSize := avail }.absorbNext (h.startAddr + span pre) = h' ∧
      SameRecord h h' ∧ h'.availableSize = avail ∧ HeadUsed post ∧
      Pending h' ins pre ⟨t.size + b.size, false⟩ post fs' ∧
      Fuse (pre ++ t :: b :: post) (pre ++ ⟨t.size + b.size, false⟩ :: post) ∧
      Kept (IsHeader h (pre ++ t :: b :: post)) h h' := by
  obtain ⟨hhead, hkept, fs', hpending⟩ := (q.setAvail avail).absorbNext hb
  exact ⟨_, fs', rfl, ⟨⟨rfl, rfl⟩, rfl, rfl⟩, rfl, hhead, hpending, .step q.free hb (.refl _),
    (Kept.refl _ h).counters.trans hkept⟩

/-- `rt_memheap_free` merges a block with the one behind. -/
lemma mergeNext (q : Pending h ins pre t post fs) {headerPtr : ℕ}
    (hptr : headerPtr = h.startAddr + span pre)
    (havail : h.availableSize = freeBytes (pre ++ t :: post)) :
    ∃ t' post' fs', HeadUsed post' ∧ Pending (mergeNext h headerPtr) ins pre t' post' fs' ∧
      Fuse (pre ++ t :: post) (pre ++ t' :: post') ∧
      Kept (IsHeader h (pre ++ t :: post)) h (mergeNext h headerPtr) ∧
      (mergeNext h headerPtr).availableSize = freeBytes (pre ++ t' :: post') := by
  subst hptr
  have hiff := q.isUsed_next_iff
  unfold MemHeap.mergeNext
  by_cases hused : HeadUsed post
  · rw [if_pos (hiff.mpr hused)]
    exact ⟨t, post, fs, hused, q, .refl _, .refl _ h, havail⟩
  · rw [if_neg (fun hnext => hused (hiff.mp hnext))]
    obtain ⟨b, post, rfl, hb⟩ := exists_of_not_headUsed hused
    have hbytes : add h.availableSize rtMemheapSize =
        freeBytes (pre ++ ⟨t.size + b.size, false⟩ :: post) := by
      have htsize := q.min t (by simp)
      have hbsize := q.min b (by simp)
      have hpool := q.span
      have htop := q.top
      have hle := freeBytes_le (pre ++ t :: b :: post)
      have hfree := q.free
      simp only [span_append, span_cons] at hpool hle
      simp only [freeBytes_append, freeBytes, hb, hfree, Bool.false_eq_true, if_false]
        at havail hle ⊢
      rw [rtMemheapSize_eq, add_of_lt (by omega)]
      omega
    obtain ⟨h', fs', habsorb, -, havail', hhead, hpending, hfuse, hkept⟩ :=
      q.absorbCounted hb (add h.availableSize rtMemheapSize)
    rw [habsorb]
    exact ⟨⟨t.size + b.size, false⟩, post, fs', hhead, hpending, hfuse, hkept, havail'.trans hbytes⟩

/-- The part of `rt_memheap_free` after the block was marked as free. -/
lemma mergeAndInsert (q : Pending h true pre t post fs)
    (havail : h.availableSize = freeBytes (pre ++ t :: post)) (hmax : h.maxUsedSize = h.peak)
    (huse : h.use ≤ h.peak) :
    ∃ ts' fs', Layout (mergeAndInsert h (h.startAddr + span pre)) ts' fs' ∧
      Fuse (pre ++ t :: post) ts' ∧ SameRegion h (mergeAndInsert h (h.startAddr + span pre)) ∧
      Kept (IsHeader h (pre ++ t :: post)) h (mergeAndInsert h (h.startAddr + span pre)) := by
  obtain ⟨pre', t', hlast, q', hptr', hfuse, hkept, havail'⟩ := q.mergePrev rfl havail
  have hsame := mergePrev_same h (h.startAddr + span pre)
  unfold MemHeap.mergeAndInsert
  generalize MemHeap.mergePrev h (h.startAddr + span pre) = r at q' hptr' havail' hsame hkept ⊢
  obtain ⟨ins, headerPtr, h1⟩ := r
  have hptr1 : headerPtr = h1.startAddr + span pre' := by
    rw [hsame.startAddr]
    exact hptr'
  obtain ⟨t'', post', fs', hhead, q'', hfuse', hkept', havail''⟩ := q'.mergeNext hptr1 havail'
  have hsame' := hsame.trans (mergeNext_same h1 headerPtr)
  have hboth := hkept.fuse hfuse hkept'
  simp only at q'' havail'' hsame' hptr' hboth ⊢
  generalize MemHeap.mergeNext h1 headerPtr = h2 at q'' havail'' hsame' hboth ⊢
  -- the use has not grown, so the largest one is still the old one
  have huse' : h2.use ≤ h2.peak := by
    have hgain := freeBytes_fuse (hfuse.trans hfuse')
    have hle := freeBytes_le (pre' ++ t'' :: post')
    have hpool := q''.span
    have htop := q.top
    rw [hsame'.peak]
    exact (use_le_use hsame'.poolSize (by omega) (by omega) (by omega)).trans huse
  have hmax' : h2.maxUsedSize = max h2.peak h2.use := by
    rw [Nat.max_eq_left huse', hsame'.maxUsedSize, hsame'.peak, hmax]
  obtain ⟨hkept'', fs'', hlayout⟩ := q''.layout hlast hhead havail'' hmax'
  rw [hsame'.startAddr, ← hptr'] at hlayout hkept''
  refine ⟨_, fs'', hlayout, hfuse.trans hfuse', ?_, hboth.fuse (hfuse.trans hfuse') hkept''⟩
  cases ins with
  | false => exact ⟨hsame'.startAddr, hsame'.poolSize⟩
  | true => exact ⟨hsame'.startAddr, hsame'.poolSize⟩

end Pending

section

variable {n : ℕ} (l : Layout h (pre ++ ⟨n, true⟩ :: post) fs)

include l

/-- The heap after the flag of a used block was cleared. -/
lemma Layout.pending (avail : ℕ) :
    Pending { h.setMagic (h.startAddr + span pre) (magicOf false) with availableSize := avail } true
      pre ⟨n, false⟩ post fs := by
  obtain ⟨hpre, hpost, -⟩ := coalesced_middle.mp l.coalesced
  refine ⟨(l.toShape.setUsed false).congr rfl rfl rfl rfl rfl rfl, l.outside, rfl, l.freeRing,
    fun p => ?_, hpre, hpost⟩
  rw [l.free_iff, freeStarts_append, mem_append, mem_freeStarts_cons]
  simp only [Bool.true_eq_false, false_and, false_or]
  rfl

/-- The counter after the bytes of a used block were added. -/
lemma Layout.free_bytes :
    add h.availableSize (n - 24) = freeBytes (pre ++ ⟨n, false⟩ :: post) := by
  have havail := l.avail
  have hle := freeBytes_le (pre ++ ⟨n, false⟩ :: post)
  have hpool := l.span
  have htop := l.top
  simp only [freeBytes_append, freeBytes_used, freeBytes_free, span_append, span_cons]
    at havail hle hpool ⊢
  rw [add_of_lt (by omega)]
  omega

/-- The part of `rt_memheap_free` after the checks. -/
lemma Layout.freeBlock : ∃ ts' fs', Layout (freeBlock h (h.startAddr + span pre)) ts' fs' ∧
      Fuse (pre ++ ⟨n, false⟩ :: post) ts' ∧ SameRegion h (freeBlock h (h.startAddr + span pre)) ∧
      Kept (IsHeader h (pre ++ ⟨n, true⟩ :: post)) h (freeBlock h (h.startAddr + span pre)) := by
  have hflag : h.magic (h.startAddr + span pre) = magicOf true := l.magic_eq
  have hitem : (h.setMagic (h.startAddr + span pre) (magicOf false)).memitemSize
      (h.startAddr + span pre) = n - 24 := l.memitemSize_eq
  have havail := l.avail
  have hle := freeBytes_le (pre ++ ⟨n, false⟩ :: post)
  have hpool := l.span
  have htop := l.top
  have hbytes := l.free_bytes
  have huse : { h.setMagic (h.startAddr + span pre) (magicOf false) with
      availableSize := add h.availableSize (n - 24) }.use ≤ h.peak := by
    refine Nat.le_trans (use_le_use (h := h) rfl ?_ ?_ (by omega)) l.use_le
    · change h.availableSize ≤ add h.availableSize (n - 24)
      rw [hbytes, havail]
      simp
    · change add h.availableSize (n - 24) ≤ h.poolSize
      rw [hbytes]
      simp only [span_append, span_cons] at hle hpool
      omega
  have hcuts : cuts h.startAddr (pre ++ ⟨n, false⟩ :: post) =
      cuts h.startAddr (pre ++ ⟨n, true⟩ :: post) := by simp
  have hmark : Kept (IsHeader h (pre ++ ⟨n, true⟩ :: post)) h
      { h.setMagic (h.startAddr + span pre) (magicOf false) with
        availableSize := add h.availableSize (n - 24) } :=
    ((Kept.refl _ h).setMagic (.inr (by simp)) _).counters
  obtain ⟨ts', fs', hlayout, hfuse, hsame, hkept⟩ :=
    (l.pending (add h.availableSize (n - 24))).mergeAndInsert hbytes l.max_eq huse
  unfold MemHeap.freeBlock
  simp only [hflag, magicOf_and, hitem]
  refine ⟨ts', fs', hlayout, hfuse, ⟨hsame.startAddr, hsame.poolSize⟩, hmark.trans (hkept.mono ?_)⟩
  intro p hp
  rw [IsHeader, ← hcuts]
  exact hp

lemma Layout.rtMemheapFree_eq : MemHeap.rtMemheapFree h (h.startAddr + span pre + 24) =
      .ok (MemHeap.freeBlock h (h.startAddr + span pre)) := by
  have hflag : h.magic (h.startAddr + span pre) = magicOf true := l.magic_eq
  have hptr := l.headerPtr_eq
  have hpool : h.poolPtr (h.startAddr + span pre) = h.self := l.pool _ (by simp)
  have hmask : ∀ used, magicOf used &&& rtMemheapMask = rtMemheapMagic := by decide
  have hnext : ∃ used, h.magic (h.block.next (h.startAddr + span pre)) = magicOf used := by
    rw [l.links.1]
    cases post with
    | nil => exact ⟨true, l.end_eq_tail ▸ l.magic_tail⟩
    | cons b post => exact ⟨b.used, (flags_append.mp l.magic).2.2.1⟩
  obtain ⟨used, hnext⟩ := hnext
  unfold MemHeap.rtMemheapFree
  rw [if_neg (by rw [rtNull]; omega)]
  simp only [hptr, hflag, hnext, hmask, hpool, true_and, if_true, and_true]
  rw [if_pos (by decide)]

/-- `rt_memheap_free` releases the block of a pointer into the heap. -/
lemma Layout.rtMemheapFree :
    ∃ h' ts' fs', rtMemheapFree h (h.startAddr + span pre + 24) = .ok h' ∧ SameRegion h h' ∧
      Layout h' ts' fs' ∧ Fuse (pre ++ ⟨n, false⟩ :: post) ts' ∧
      Kept (IsHeader h (pre ++ ⟨n, true⟩ :: post)) h h' := by
  obtain ⟨ts', fs', hlayout, hfuse, hsame, hkept⟩ := l.freeBlock
  exact ⟨_, ts', fs', l.rtMemheapFree_eq, hsame, hlayout, hfuse, hkept⟩

end

end MemHeap
