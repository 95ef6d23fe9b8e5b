import TempSns.MemHeap.Release

/-!
# Change of the size of a block

`rt_memheap_realloc` has four ways: it extends a block into the free block behind it, it moves the
block, it cuts the end of the block off, or it leaves the block as it is. The test for the first way
adds twelve to the new size. `Fits` says that this sum does not wrap when the test is made.
-/

namespace MemHeap

open Tiling Word32

variable {h h' : Heap} {ts pre post : List Tile} {t b : Tile} {fs : List ℕ} {n size : ℕ}
  {newsize : ℕ}

/-- The used blocks after the block at `p` was replaced by one of size `k` at `q`. -/
def Replaced (start : ℕ) (ts ts' : List Tile) (p q k : ℕ) : Prop :=
  ∀ x, x ∈ extents start ts' ↔ x = (q, k) ∨ (x ∈ extents start ts ∧ x.1 ≠ p)

/-- The byte at `b` is the one that was at `a`, and no header that contains it was written. -/
def KeptByte (h h' : Heap) (a b : ℕ) : Prop :=
  h'.mem b = h.mem a ∧ ∀ p, p ≤ b → b < p + 24 → SameHeader h h' p

lemma Kept.keptByte {S : ℕ → Prop} {i : ℕ} (k₁ : Kept S h h')
    (hoff : ∀ p, p ≤ i ∧ i < p + 24 → ¬ S p) : KeptByte h h' i i :=
  ⟨congrFun k₁.mem i, fun p hlo hhi => k₁.header p (hoff p ⟨hlo, hhi⟩)⟩

/-! ## Growing -/

lemma growInto_same (h : Heap) (headerPtr nextPtr ptr oldsize newsize : ℕ) :
    SameRegion h (growInto h headerPtr nextPtr ptr oldsize newsize) := by
  unfold growInto
  rw [noteUse_eq]
  cases h
  exact ⟨rfl, rfl⟩

/-- The block takes the front of the free block behind it. The new header is the only one that is
written besides the old ones. -/
lemma Layout.growInto (l : Layout h (pre ++ ⟨n, true⟩ :: b :: post) fs) (hb : b.used = false)
    (hgrow : n < size + 24) (hroom : size + 60 < n + b.size) :
    Kept (fun x => IsHeader h (pre ++ ⟨n, true⟩ :: b :: post) x ∨
        x = h.startAddr + span pre + (size + 24)) h
      (growInto h (h.startAddr + span pre) (h.startAddr + span pre + n)
        (h.startAddr + span pre + 24) (n - 24) size) ∧
    ∃ fs', Layout (growInto h (h.startAddr + span pre) (h.startAddr + span pre + n)
        (h.startAddr + span pre + 24) (n - 24) size)
      (pre ++ ⟨size + 24, true⟩ :: ⟨n + b.size - (size + 24), false⟩ :: post) fs' := by
  obtain ⟨hmin, hsum⟩ := l.bounds
  simp only [span_cons] at hmin hsum
  have htop := l.top
  have l' : Layout h ((pre ++ [⟨n, true⟩]) ++ b :: post) fs := by simpa using l
  obtain ⟨us, vs, rfl, hrest⟩ := l'.split_free hb
  obtain ⟨havail, hpool⟩ := l'.avail_free hb
  obtain ⟨hpre, hcb, -⟩ := coalesced_middle.mp l.coalesced
  obtain ⟨hpost, hends⟩ := coalesced_cons.mp hcb
  have hring := l.freeRing.unlink_mem
  have hmem : h.startAddr + span (pre ++ [⟨n, true⟩]) ∈
    us ++ (h.startAddr + span (pre ++ [⟨n, true⟩])) :: vs := by simp
  obtain ⟨hfnext, hfprev⟩ := free_links l.freeRing l.free_cuts (.inr hmem)
  obtain ⟨hbnext, hbprev⟩ := l.toShape.block_links (l.free_cuts _ hmem)
  simp only [add_span_concat] at hrest hring hfnext hfprev hbnext hbprev
  have hdiff : sub h.availableSize (sub size (n - 24)) = h.availableSize - (size + 24 - n) := by
    have hinner : sub size (n - 24) = size + 24 - n := by
      rw [sub_of_le (by omega) (by omega)]
      omega
    rw [hinner, sub_of_le (by omega) (by omega)]
  have hnew : add (h.startAddr + span pre + 24) size = h.startAddr + span pre + (size + 24) := by
    rw [add_of_lt (by omega)]
    omega
  have hbytes : h.availableSize - (size + 24 - n) = freeBytes
      ((pre ++ [⟨size + 24, true⟩]) ++ ⟨n + b.size - (size + 24), false⟩ :: post) := by
    simp only [freeBytes_append, freeBytes, Bool.false_eq_true, if_true, if_false] at havail ⊢
    omega
  have hts : pre ++ ⟨size + 24, true⟩ :: ⟨n + b.size - (size + 24), false⟩ :: post =
      (pre ++ [⟨size + 24, true⟩]) ++ ⟨n + b.size - (size + 24), false⟩ :: post := by simp
  unfold MemHeap.growInto
  rw [noteUse_eq]
  simp only [hdiff, hnew]
  constructor
  · set S := fun x => IsHeader h (pre ++ ⟨n, true⟩ :: b :: post) x ∨
      x = h.startAddr + span pre + (size + 24) with hS
    have hunlink := (((Kept.refl S h).counters.removeFree (.inl hfnext) (.inl hfprev)).unlinkBlock
      (.inl hbnext) (.inl hbprev))
    refine Kept.counters (Kept.insertFree (Kept.cut hunlink (.inl (.inr (by simp))) (.inr rfl)
      (.inl ?_)) (.inl (.inl rfl)) (.inr rfl) (.inl ?_))
    · -- the block behind the merged one
      refine (l.toShape.merge.block_links (p := h.startAddr + span pre) (by simp)).1.imp_right
        fun hx => ?_
      simp only [cuts_append, cuts_cons, List.mem_append, List.mem_cons] at hx ⊢
      rw [← Nat.add_assoc] at hx
      tauto
    · refine (List.mem_cons.mp hring.next_mem).imp_right fun hx => l.free_cuts _ ?_
      exact List.mem_append.mpr ((List.mem_append.mp hx).imp_right (List.mem_cons_of_mem _))
  · have hmerge := l.toShape.merge
    have hshape : Shape { h with
        block := h.block.unlink (h.startAddr + span pre + n)
        free := h.free.unlink (h.startAddr + span pre + n) } (pre ++ ⟨n + b.size, true⟩ :: post) :=
      hmerge.congr rfl rfl rfl rfl rfl rfl
    have q := hshape.cutPending
      (k := size + 24) l.outside hring (fun p => by rw [hrest]; simp [Nat.add_assoc]) hpre hpost
      (by omega) (by omega)
    rw [hts]
    simp only [Heap.cut, Heap.setPool, Heap.setMagic, Heap.removeFree, Heap.insertFree] at q ⊢
    refine q.insert (by simp [LastUsed]) (hends hb) ?_ rfl rfl rfl ?_ hbytes ?_
    · exact q.toShape.congr rfl rfl rfl rfl rfl rfl
    · simp only [add_span_concat]
    · simp only [Heap.use, l.max_eq]

/-! ## Shrinking -/

/-- The heap after the end of a used block was cut off. -/
lemma Layout.cutEnd (l : Layout h (pre ++ ⟨n, true⟩ :: post) fs) {k : ℕ} (hk : 24 ≤ k)
    (hroom : k + 24 ≤ n) :
    Pending (h.cut (h.startAddr + span pre) (h.startAddr + span pre + k)) true
      (pre ++ [⟨k, true⟩]) ⟨n - k, false⟩ post fs := by
  obtain ⟨hpre, hpost, -⟩ := coalesced_middle.mp l.coalesced
  exact l.toShape.cutPending l.outside l.freeRing (fun p => by rw [l.free_iff]; simp) hpre hpost hk
    hroom

lemma insertCounted_same (h : Heap) (newPtr : ℕ) : SameRegion h (insertCounted h newPtr) := by
  cases h
  exact ⟨rfl, rfl⟩

lemma Pending.insertCounted (q : Pending h true pre t post fs) (hlast : LastUsed pre)
    (hhead : HeadUsed post) (havail : h.availableSize = freeBytes pre + freeBytes post)
    (hmax : h.maxUsedSize = h.peak) (huse : h.poolSize - freeBytes (pre ++ t :: post) ≤ h.peak) :
    Kept (IsHeader h (pre ++ t :: post)) h (insertCounted h (h.startAddr + span pre)) ∧
      ∃ fs', Layout (insertCounted h (h.startAddr + span pre)) (pre ++ t :: post) fs' := by
  have hitem : (h.insertFree (h.startAddr + span pre)).memitemSize (h.startAddr + span pre) =
    t.size - 24 := q.memitemSize_eq
  have htop := q.top
  have hpool := q.span
  have hle := freeBytes_le (pre ++ t :: post)
  have hsum : add h.availableSize (t.size - 24) = freeBytes (pre ++ t :: post) := by
    simp only [freeBytes_append, freeBytes, q.free, Bool.false_eq_true, if_false] at hle ⊢
    rw [add_of_lt (by omega)]
    omega
  have hinsert : MemHeap.insertCounted h (h.startAddr + span pre) =
      ({ h with availableSize := freeBytes (pre ++ t :: post) }.insertFree
        (h.startAddr + span pre)).release := by
    rw [MemHeap.insertCounted, hitem, ← hsum]
    rfl
  rw [hinsert]
  have hmax' : h.maxUsedSize =
      max h.peak { h with availableSize := freeBytes (pre ++ t :: post) }.use := by
    rw [use_eq (by simp only; omega) (by simp only; omega), Nat.max_eq_left huse, hmax]
  obtain ⟨hkept, hlayout⟩ := (q.setAvail _).layout hlast hhead rfl hmax'
  exact ⟨(Kept.refl _ h).counters.trans hkept, hlayout⟩

/-- `rt_memheap_realloc` merges the block it has cut off, and inserts it into the free list. -/
lemma Pending.absorbAndInsert (q : Pending h true pre t post fs) (hlast : LastUsed pre)
    (havail : h.availableSize = freeBytes pre + freeBytes post) (hmax : h.maxUsedSize = h.peak)
    (huse : h.use ≤ h.peak) :
    ∃ ts' fs', Layout (absorbAndInsert h (h.startAddr + span pre)) ts' fs' ∧
      Fuse (pre ++ t :: post) ts' ∧ SameRegion h (absorbAndInsert h (h.startAddr + span pre)) ∧
      Kept (IsHeader h (pre ++ t :: post)) h (absorbAndInsert h (h.startAddr + span pre)) := by
  have hiff := q.isUsed_next_iff
  have htop := q.top
  have hle := freeBytes_le (pre ++ t :: post)
  have hpool := q.span
  have hmore : h.availableSize ≤ freeBytes (pre ++ t :: post) := by
    simp only [freeBytes_append, freeBytes, havail]
    omega
  have huse' : h.poolSize - freeBytes (pre ++ t :: post) ≤ h.peak := by
    rw [use_eq (by omega) (by omega)] at huse
    omega
  unfold MemHeap.absorbAndInsert
  by_cases hused : HeadUsed post
  · rw [if_pos (hiff.mpr hused)]
    obtain ⟨hkept, fs', hlayout⟩ := q.insertCounted hlast hused havail hmax huse'
    exact ⟨_, fs', hlayout, .refl _, insertCounted_same h _, hkept⟩
  · rw [if_neg (fun hnext => hused (hiff.mp hnext))]
    obtain ⟨b, post, rfl, hb⟩ := exists_of_not_headUsed hused
    rw [q.links.1, q.second_memitemSize]
    have hless : sub h.availableSize (b.size - 24) = freeBytes pre + freeBytes post := by
      simp only [freeBytes_append, freeBytes, hb, Bool.false_eq_true, if_false] at havail hle
      rw [sub_of_le (by omega) (by omega)]
      omega
    obtain ⟨h2, fs', habsorb, ⟨⟨hstart, hsize⟩, hmax2, hpeak⟩, havail2, hhead, q2, hfuse, hkept⟩ :=
      q.absorbCounted hb (sub h.availableSize (b.size - 24))
    rw [habsorb]
    have huse2 : h2.poolSize - freeBytes (pre ++ ⟨t.size + b.size, false⟩ :: post) ≤ h2.peak := by
      rw [hsize, hpeak]
      exact Nat.le_trans (Nat.sub_le_sub_left (freeBytes_fuse hfuse) _) huse'
    obtain ⟨hkept2, fs'', hlayout⟩ := q2.insertCounted hlast hhead (havail2.trans hless)
      (hmax2.trans (hmax.trans hpeak.symm)) huse2
    rw [show h2.startAddr = h.startAddr from hstart] at hlayout hkept2
    exact ⟨_, fs'', hlayout, hfuse, SameRegion.trans ⟨hstart, hsize⟩ (insertCounted_same h2 _),
      hkept.fuse hfuse hkept2⟩

/-- `rt_memheap_realloc` cuts the end of a block off. The new header is the only one that is written
besides the old ones. -/
lemma Layout.shrinkBlock (l : Layout h (pre ++ ⟨n, true⟩ :: post) fs) (size : ℕ)
    (hroom : size + 60 < n) :
    ∃ ts' fs', Layout (shrinkBlock h (h.startAddr + span pre) size) ts' fs' ∧
      Fuse (pre ++ ⟨size + 24, true⟩ :: ⟨n - (size + 24), false⟩ :: post) ts' ∧
      SameRegion h (shrinkBlock h (h.startAddr + span pre) size) ∧
      Kept (fun x => IsHeader h (pre ++ ⟨n, true⟩ :: post) x ∨
        x = h.startAddr + span pre + (size + 24)) h
        (shrinkBlock h (h.startAddr + span pre) size) := by
  have hnew := l.newPtr_eq size (by simp only; omega)
  have q := l.cutEnd (k := size + 24) (by omega) (by omega)
  have hcut : Kept (fun x => IsHeader h (pre ++ ⟨n, true⟩ :: post) x ∨
      x = h.startAddr + span pre + (size + 24)) h
      (h.cut (h.startAddr + span pre) (h.startAddr + span pre + (size + 24))) :=
    (Kept.refl _ h).cut (.inl (.inr (by simp))) (.inr rfl)
      (.inl (l.toShape.block_links (by simp)).1)
  have havail : h.availableSize = freeBytes (pre ++ [⟨size + 24, true⟩]) + freeBytes post := by
    rw [l.avail]
    simp [freeBytes]
  obtain ⟨ts', fs', hlayout, hfuse, hsame, hkept⟩ :=
    q.absorbAndInsert (by simp [LastUsed]) havail l.max_eq l.use_le
  have hstart : (h.cut (h.startAddr + span pre)
      (h.startAddr + span pre + (size + 24))).startAddr = h.startAddr := rfl
  simp only [hstart, add_span_concat] at hlayout hsame hkept
  unfold MemHeap.shrinkBlock
  rw [hnew]
  refine ⟨ts', fs', hlayout, by simpa using hfuse, ⟨hsame.startAddr, hsame.poolSize⟩,
    hcut.trans (hkept.mono ?_)⟩
  rintro x (hlist | hx)
  · exact .inl (.inl hlist)
  · have hend : h.startAddr + (span pre + (size + 24)) + (n - (size + 24)) =
      h.startAddr + span pre + n := by omega
    rw [hstart] at hx
    simp only [cuts_append, cuts_cons, allStarts_append, allStarts_cons, allStarts_nil, span_append,
      span_cons, span_nil, Nat.add_zero, List.mem_append, List.mem_cons, List.not_mem_nil, or_false,
      hend] at hx
    simp only [IsHeader, cuts_append, cuts_cons, List.mem_append, List.mem_cons]
    rw [← Nat.add_assoc] at hx
    tauto

/-! ## Four ways -/

/-- The sum in the test for growing does not wrap, if the test is made. -/
def Fits (h : Heap) (ptr newsize : ℕ) : Prop :=
  h.isUsed (h.block.next (sub ptr rtMemheapSize)) = true ∨
    newsize ≤ 0xfffffff0 ∨ 0xfffffffc < newsize

instance (h : Heap) (ptr newsize : ℕ) : Decidable (Fits h ptr newsize) := by
  unfold Fits
  infer_instance

/-- The used blocks around a block whose size changes. -/
lemma replaced_shrink {start k : ℕ} (hpos : ∀ x ∈ pre ++ ⟨n, true⟩ :: post, 0 < x.size)
    (hk : k ≤ n) {ts' : List Tile}
    (hfuse : Fuse (pre ++ ⟨k, true⟩ :: ⟨n - k, false⟩ :: post) ts') :
    Replaced start (pre ++ ⟨n, true⟩ :: post) ts' (start + span pre) (start + span pre) k := by
  intro x
  rw [hfuse.extents_eq]
  exact mem_extents_shrink hpos hk

lemma replaced_grow {start k : ℕ} (hpos : ∀ x ∈ pre ++ ⟨n, true⟩ :: b :: post, 0 < x.size)
    (hb : b.used = false) (hk : k ≤ n + b.size) :
    Replaced start (pre ++ ⟨n, true⟩ :: b :: post)
      (pre ++ ⟨k, true⟩ :: ⟨n + b.size - k, false⟩ :: post) (start + span pre) (start + span pre) k := by
  intro x
  have hpos' : ∀ x ∈ pre ++ ⟨n + b.size, true⟩ :: post, 0 < x.size := by
    intro x hx
    have hn : 0 < n := hpos ⟨n, true⟩ (by simp)
    simp only [List.mem_append, List.mem_cons] at hx
    rcases hx with hx | rfl | hx
    · exact hpos x (by simp [hx])
    · exact Nat.add_pos_left hn _
    · exact hpos x (by simp [hx])
  have hfuse : Fuse (pre ++ ⟨n, false⟩ :: b :: post) (pre ++ ⟨n + b.size, false⟩ :: post) :=
    .step rfl hb (.refl _)
  rw [mem_extents_shrink hpos' hk, ← mem_extents_release hpos', ← mem_extents_release hpos,
    hfuse.extents_eq]

/-- What `rt_memheap_realloc` returns for a used block: `RT_NULL` and the same heap, or a block that
replaces it. -/
def Reallocated (h : Heap) (ts : List Tile) (p newsize : ℕ) (r : ℕ) (h' : Heap)
    (ts' : List Tile) : Prop :=
  (r = rtNull ∧ h' = h ∧ ts' = ts) ∨
    ∃ q k, r = q + 24 ∧ alignedSize newsize + 24 ≤ k ∧
      (∀ x ∈ extents h.startAddr ts, x.1 ≠ p → x.1 ≠ q) ∧ Replaced h.startAddr ts ts' p q k

/-- What `rt_memheap_realloc` does to a used block: the bytes that the old and the new block have in
common stay the same. -/
def Moved (h : Heap) (ts : List Tile) (p n newsize r : ℕ) (h' : Heap) (ts' : List Tile) : Prop :=
  Reallocated h ts p newsize r h' ts' ∧
    (r ≠ rtNull → ∀ i, i < n - 24 → i < alignedSize newsize → KeptByte h h' (p + 24 + i) (r + i))

/-- `rt_memheap_realloc` moves a block. Its bytes are copied, and neither the release of the old block
nor the new headers touch the copy. -/
lemma Layout.moveBlock {p : ℕ} (l : Layout h ts fs) (hp : (p, n) ∈ extents h.startAddr ts)
    (newsize : ℕ) :
    ∃ r h' ts' fs', moveBlock h (p + 24) (n - 24) (alignedSize newsize) = .ok (r, h') ∧
      SameRegion h h' ∧ Layout h' ts' fs' ∧ Moved h ts p n newsize r h' ts' := by
  obtain ⟨r, h1, halloc, hsame, hres⟩ := l.rtMemheapAlloc (alignedSize newsize)
  unfold MemHeap.moveBlock
  rw [halloc, ok_bind]
  rcases hres with ⟨rfl, rfl⟩ | ⟨pre, t, post, fs1, rfl, ht, hsize, rfl, l1, hkept⟩
  · exact ⟨rtNull, h1, ts, fs, rfl, .refl h1, l, .inl ⟨rfl, rfl, rfl⟩, fun hr => absurd rfl hr⟩
  · have hnull : ¬ h.startAddr + span pre + 24 = rtNull := by rw [rtNull]; omega
    simp only [if_neg hnull]
    rw [alignedSize_idem] at hsize l1 hkept
    obtain ⟨k, hk, hfresh, hext⟩ := mem_extents_occupy h.startAddr 36 l.pos hsize ht
    have hq : (h.startAddr + span pre, k) ∈ extents h1.startAddr
        (pre ++ (occupy 36 (alignedSize newsize + 24) t ++ post)) := by
      rw [hsame.startAddr, hext]
      exact .inl rfl
    -- the old block is still there
    have hp1 : (p, n) ∈ extents h1.startAddr
        (pre ++ (occupy 36 (alignedSize newsize + 24) t ++ post)) := by
      rw [hsame.startAddr, hext]
      exact .inr hp
    generalize pre ++ (occupy 36 (alignedSize newsize + 24) t ++ post) = ts1 at l1 hkept hq hp1 hext
    obtain ⟨pre', post', rfl, rfl⟩ := mem_extents.mp hp1
    generalize hmem : ByteMem.copy h1.mem (h.startAddr + span pre + 24) (h1.startAddr + span pre' + 24)
      (if n - 24 < alignedSize newsize then n - 24 else alignedSize newsize) = m
    have l2 : Layout { h1 with mem := m } (pre' ++ ⟨n, true⟩ :: post') fs1 :=
      l1.of_headers fun p _ => ⟨rfl, rfl, ⟨rfl, rfl⟩, rfl, rfl⟩
    obtain ⟨h2, ts', fs', hfree, hsame', l3, hfuse, hkept'⟩ := l2.rtMemheapFree
    simp only at hfree hkept'
    rw [hfree, ok_bind]
    refine ⟨_, h2, ts', fs', rfl, hsame.trans ⟨hsame'.startAddr, hsame'.poolSize⟩, l3,
      .inr ⟨h.startAddr + span pre, k, rfl, hk, fun x hx _ => hfresh x hx, fun x => ?_⟩,
      fun _ i hold hnew => ⟨?_, fun x hlo hhi => ?_⟩⟩
    · have hne : h1.startAddr + span pre' ≠ h.startAddr + span pre := hfresh _ hp
      rw [← hsame.startAddr] at hne hext ⊢
      rw [hfuse.extents_eq, mem_extents_release l1.pos, hext]
      constructor
      · rintro ⟨rfl | hx, hx'⟩
        · exact .inl rfl
        · exact .inr ⟨hx, hx'⟩
      · rintro (rfl | ⟨hx, hx'⟩)
        · exact ⟨.inl rfl, fun heq => hne heq.symm⟩
        · exact ⟨.inr hx, hx'⟩
    · have hmin : i < (if n - 24 < alignedSize newsize then n - 24 else alignedSize newsize) := by
        split <;> assumption
      have hcopy : m (h.startAddr + span pre + 24 + i) = h1.mem (h1.startAddr + span pre' + 24 + i) := by
        rw [← hmem]
        simp only [ByteMem.copy]
        rw [if_pos (by omega), Nat.add_sub_cancel_left]
      rw [hkept'.mem, ← hkept.mem]
      exact hcopy
    · have hx : ¬ IsHeader h1 (pre' ++ ⟨n, true⟩ :: post') x :=
        l1.not_isHeader hq (by omega) (by omega) ⟨hlo, hhi⟩
      have hfirst := hkept.header x fun hx' => hx (by
        rw [IsHeader, hkept.freeList, hkept.startAddr]
        exact hx')
      have hsecond := hkept'.header x hx
      exact hfirst.trans ⟨hsecond.magic, hsecond.poolPtr, hsecond.block, hsecond.free⟩

lemma replaced_self {start p : ℕ} (hpos : ∀ x ∈ ts, 0 < x.size) (hp : (p, n) ∈ extents start ts) :
    Replaced start ts ts p p n := by
  intro x
  constructor
  · intro hx
    by_cases hxp : x.1 = p
    · subst hxp
      obtain rfl : x.2 = n := extents_unique hpos hx hp
      exact .inl rfl
    · exact .inr ⟨hx, hxp⟩
  · rintro (rfl | ⟨hx, -⟩)
    · exact hp
    · exact hx

section

variable (l : Layout h (pre ++ ⟨n, true⟩ :: post) fs)

include l

lemma Layout.fits_iff : Fits h (h.startAddr + span pre + 24) newsize ↔
      h.isUsed (h.startAddr + span pre + n) = true ∨ newsize ≤ 0xfffffff0 ∨ 0xfffffffc < newsize := by
  rw [Fits, l.headerPtr_eq, l.links.1]

/-- The block behind a block is free and the test for growing succeeds. -/
lemma Layout.grow_room (hfree : h.isUsed (h.startAddr + span pre + n) = false)
    (hlt : newsize < 2 ^ 32) (hfits : newsize ≤ 0xfffffff0 ∨ 0xfffffffc < newsize)
    (htest : add (h.memitemSize (h.startAddr + span pre + n)) (n - 24) >
      add (alignedSize newsize) rtMemheapMinialloc) :
    ∃ b post', post = b :: post' ∧ b.used = false ∧ alignedSize newsize + 60 < n + b.size := by
  have hused := l.isUsed_next
  simp only [hfree] at hused
  cases post with
  | nil => simp at hused
  | cons b post =>
    have hb : b.used = false := by simpa using hused.symm
    obtain ⟨hmin, hsum⟩ := l.bounds
    simp only [span_cons] at hmin hsum
    have htop := l.top
    have hbsize := l.min b (by simp)
    have hsize : alignedSize newsize + 12 < 2 ^ 32 := by
      rw [alignedSize_eq]
      omega
    rw [l.second_memitemSize, rtMemheapMinialloc, add_of_lt hsize, add_of_lt (by omega)] at htest
    exact ⟨b, post, rfl, hb, by omega⟩

/-- The four ways of `rt_memheap_realloc` of a used block: it stays, its end is cut off, it takes a
part of the free block behind, or it moves. -/
lemma Layout.rtMemheapRealloc_cases (hzero : newsize ≠ 0) :
    (alignedSize newsize ≤ n - 24 ∧ n ≤ alignedSize newsize + 60 ∧
        MemHeap.rtMemheapRealloc h (h.startAddr + span pre + 24) newsize =
          .ok (h.startAddr + span pre + 24, h)) ∨
      (alignedSize newsize + 60 < n ∧
        MemHeap.rtMemheapRealloc h (h.startAddr + span pre + 24) newsize =
          .ok (h.startAddr + span pre + 24,
            MemHeap.shrinkBlock h (h.startAddr + span pre) (alignedSize newsize))) ∨
      (n < alignedSize newsize + 24 ∧ (h.isUsed (h.startAddr + span pre + n) = false ∧
          add (h.memitemSize (h.startAddr + span pre + n)) (n - 24) >
            add (alignedSize newsize) rtMemheapMinialloc) ∧
        MemHeap.rtMemheapRealloc h (h.startAddr + span pre + 24) newsize =
          .ok (h.startAddr + span pre + 24,
            MemHeap.growInto h (h.startAddr + span pre) (h.startAddr + span pre + n)
              (h.startAddr + span pre + 24) (n - 24) (alignedSize newsize))) ∨
      (n < alignedSize newsize + 24 ∧ ¬ (h.isUsed (h.startAddr + span pre + n) = false ∧
          add (h.memitemSize (h.startAddr + span pre + n)) (n - 24) >
            add (alignedSize newsize) rtMemheapMinialloc) ∧
        MemHeap.rtMemheapRealloc h (h.startAddr + span pre + 24) newsize =
          MemHeap.moveBlock h (h.startAddr + span pre + 24) (n - 24) (alignedSize newsize)) := by
  obtain ⟨hmin, hsum⟩ := l.bounds
  simp only at hmin hsum
  have htop := l.top
  have hnull : ¬ h.startAddr + span pre + 24 = rtNull := by rw [rtNull]; omega
  have hnext := l.links.1
  simp only at hnext
  have hitem : h.memitemSize (h.startAddr + span pre) = n - 24 := l.memitemSize_eq
  unfold MemHeap.rtMemheapRealloc
  simp only [if_neg hzero, if_neg hnull, l.headerPtr_eq, hitem, hnext, l.release_eq]
  have hgt : h.startAddr + span pre + n > h.startAddr + span pre := by omega
  by_cases hgrow : alignedSize newsize > n - 24
  · rw [if_pos hgrow, if_pos hgt]
    right
    right
    split
    case isTrue htest => exact .inl ⟨by omega, htest, rfl⟩
    case isFalse htest => exact .inr ⟨by omega, htest, rfl⟩
  · have hwrap : add (add (alignedSize newsize) rtMemheapSize) rtMemheapMinialloc =
        alignedSize newsize + 36 := by
      have hinner : add (alignedSize newsize) rtMemheapSize = alignedSize newsize + 24 := by
        rw [rtMemheapSize_eq, add_of_lt (by omega)]
      rw [hinner, rtMemheapMinialloc, add_of_lt (by omega)]
    rw [if_neg hgrow, hwrap]
    split
    case isTrue hkeep => exact .inl ⟨by omega, by omega, rfl⟩
    case isFalse hcut => exact .inr (.inl ⟨by omega, rfl⟩)

end

lemma Layout.rtMemheapRealloc {p newsize : ℕ} (l : Layout h ts fs)
    (hp : (p, n) ∈ extents h.startAddr ts) (hzero : newsize ≠ 0) (hlt : newsize < 2 ^ 32)
    (hfits : Fits h (p + 24) newsize) :
    ∃ r h' ts' fs', rtMemheapRealloc h (p + 24) newsize = .ok (r, h') ∧ SameRegion h h' ∧
      Layout h' ts' fs' ∧ Moved h ts p n newsize r h' ts' := by
  -- no byte of the data lies in an old header or in the one behind the new block
  have hoff : ∀ i, i < n - 24 → ∀ x, x ≤ p + 24 + i ∧ p + 24 + i < x + 24 → ¬ IsHeader h ts x :=
    fun i hi x => l.not_isHeader hp (by omega) (by omega)
  have hnew : ∀ i, i < n - 24 → i < alignedSize newsize → ∀ x, x ≤ p + 24 + i ∧ p + 24 + i < x + 24 →
      ¬ (IsHeader h ts x ∨ x = p + (alignedSize newsize + 24)) := by
    rintro i hi hi' x hx (hx' | rfl)
    · exact hoff i hi x hx hx'
    · omega
  obtain ⟨pre, post, rfl, rfl⟩ := mem_extents.mp hp
  have hmin := l.bounds.1
  simp only at hmin
  rcases l.rtMemheapRealloc_cases hzero with ⟨hle, -, hcall⟩ | ⟨hroom, hcall⟩ |
    ⟨hgrow, htest, hcall⟩ | ⟨-, -, hcall⟩
  · exact ⟨_, h, _, fs, hcall, .refl h, l, .inr ⟨_, n, rfl, by omega, fun x _ hx => hx,
      replaced_self l.pos hp⟩, fun _ i hi _ => (Kept.refl _ h).keptByte (hoff i hi)⟩
  · obtain ⟨ts', fs', hlayout, hfuse, hsame, hkept⟩ := l.shrinkBlock (alignedSize newsize) hroom
    exact ⟨_, _, ts', fs', hcall, hsame, hlayout, .inr ⟨_, alignedSize newsize + 24, rfl,
      Nat.le_refl _, fun x _ hx => hx, replaced_shrink l.pos (by omega) hfuse⟩,
      fun _ i hi hi' => hkept.keptByte (hnew i hi hi')⟩
  · have hsum32 := (l.fits_iff.mp hfits).resolve_left (by simp [htest.1])
    obtain ⟨b, post, rfl, hb, hroom⟩ := l.grow_room htest.1 hlt hsum32 htest.2
    obtain ⟨hkept, fs', hlayout⟩ := l.growInto hb hgrow hroom
    exact ⟨_, _, _, fs', hcall, growInto_same _ _ _ _ _ _, hlayout, .inr ⟨_,
      alignedSize newsize + 24, rfl, Nat.le_refl _, fun x _ hx => hx,
      replaced_grow l.pos hb (by omega)⟩, fun _ i hi hi' => hkept.keptByte (hnew i hi hi')⟩
  · rw [hcall]
    exact l.moveBlock hp newsize

end MemHeap
