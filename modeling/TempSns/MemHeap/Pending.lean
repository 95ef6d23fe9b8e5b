import TempSns.MemHeap.Layout

/-!
# Between two layouts

On the way from one layout to the next a heap is `Pending`: one free block may still be missing in
the free list, and it may have free neighbours.

`Kept` says which headers are written on this way: those of the blocks and the head of the free list
(`IsHeader`). The data of a used block contains none of them.
-/

namespace MemHeap

open Tiling Function List

variable {h h' h'' : Heap} {ts pre post : List Tile} {t b : Tile} {fs : List ℕ} {n p q k : ℕ}
  {ins : Bool} {item : ℕ}

/-! ## Headers that are written -/

structure SameHeader (h h' : Heap) (p : ℕ) : Prop where
  magic : h'.magic p = h.magic p
  poolPtr : h'.poolPtr p = h.poolPtr p
  block : h'.block.next p = h.block.next p ∧ h'.block.prev p = h.block.prev p
  free : h'.free.next p = h.free.next p ∧ h'.free.prev p = h.free.prev p

lemma SameHeader.refl (h : Heap) (p : ℕ) : SameHeader h h p := ⟨rfl, rfl, ⟨rfl, rfl⟩, rfl, rfl⟩

lemma SameHeader.trans (h₁ : SameHeader h h' p) (h₂ : SameHeader h' h'' p) : SameHeader h h'' p :=
  ⟨h₂.magic.trans h₁.magic, h₂.poolPtr.trans h₁.poolPtr,
    ⟨h₂.block.1.trans h₁.block.1, h₂.block.2.trans h₁.block.2⟩,
    h₂.free.1.trans h₁.free.1, h₂.free.2.trans h₁.free.2⟩

/-- At most the headers in `S` were written. -/
structure Kept (S : ℕ → Prop) (h h' : Heap) : Prop where
  startAddr : h'.startAddr = h.startAddr
  freeList : h'.freeList = h.freeList
  mem : h'.mem = h.mem
  header : ∀ p, ¬ S p → SameHeader h h' p

def IsHeader (h : Heap) (ts : List Tile) (p : ℕ) : Prop :=
  p = h.freeList ∨ p ∈ cuts h.startAddr ts

namespace Kept

variable {S S' : ℕ → Prop}

/-- A header that is not in `S` is none of those in `S`. -/
lemma ne_of_off (hq : ¬ S q) (hp : S p) : q ≠ p := fun heq => hq (heq ▸ hp)

lemma refl (S : ℕ → Prop) (h : Heap) : Kept S h h :=
  ⟨rfl, rfl, rfl, fun p _ => .refl h p⟩

lemma trans (k₁ : Kept S h h') (k₂ : Kept S h' h'') : Kept S h h'' :=
  ⟨k₂.startAddr.trans k₁.startAddr, k₂.freeList.trans k₁.freeList, k₂.mem.trans k₁.mem,
    fun p hp => (k₁.header p hp).trans (k₂.header p hp)⟩

variable (k₁ : Kept S h h')

include k₁

lemma mono (hsub : ∀ p, S p → S' p) : Kept S' h h' :=
  ⟨k₁.startAddr, k₁.freeList, k₁.mem, fun p hp => k₁.header p fun hS => hp (hsub p hS)⟩

lemma counters {avail maxUsed peak : ℕ} :
    Kept S h { h' with availableSize := avail, maxUsedSize := maxUsed, peak := peak } :=
  ⟨k₁.startAddr, k₁.freeList, k₁.mem, fun p hp => by
    have h₁ := k₁.header p hp
    exact ⟨h₁.magic, h₁.poolPtr, h₁.block, h₁.free⟩⟩

lemma setMagic (hp : S p) (v : UInt32) : Kept S h (h'.setMagic p v) := by
  refine ⟨k₁.startAddr, k₁.freeList, k₁.mem, fun q hq => ?_⟩
  have h₁ := k₁.header q hq
  have hne : q ≠ p := ne_of_off hq hp
  exact ⟨(update_of_ne hne _ _).trans h₁.magic, h₁.poolPtr, h₁.block, h₁.free⟩

lemma setPool (hp : S p) : Kept S h (h'.setPool p) := by
  refine ⟨k₁.startAddr, k₁.freeList, k₁.mem, fun q hq => ?_⟩
  have h₁ := k₁.header q hq
  have hne : q ≠ p := ne_of_off hq hp
  exact ⟨h₁.magic, (update_of_ne hne _ _).trans h₁.poolPtr, h₁.block, h₁.free⟩

/-- New pointers between the blocks, off the headers in `S`. -/
lemma setBlock {l : Links ℕ}
    (hl : ∀ q, ¬ S q → l.next q = h'.block.next q ∧ l.prev q = h'.block.prev q) :
    Kept S h { h' with block := l } := by
  refine ⟨k₁.startAddr, k₁.freeList, k₁.mem, fun q hq => ?_⟩
  have h₁ := k₁.header q hq
  exact ⟨h₁.magic, h₁.poolPtr, ⟨(hl q hq).1.trans h₁.block.1, (hl q hq).2.trans h₁.block.2⟩, h₁.free⟩

lemma setFree {l : Links ℕ}
    (hl : ∀ q, ¬ S q → l.next q = h'.free.next q ∧ l.prev q = h'.free.prev q) :
    Kept S h { h' with free := l } := by
  refine ⟨k₁.startAddr, k₁.freeList, k₁.mem, fun q hq => ?_⟩
  have h₁ := k₁.header q hq
  exact ⟨h₁.magic, h₁.poolPtr, h₁.block, (hl q hq).1.trans h₁.free.1, (hl q hq).2.trans h₁.free.2⟩

lemma cut {item new : ℕ} (hitem : S item) (hnew : S new) (hnext : S (h'.block.next item)) :
    Kept S h (h'.cut item new) := by
  refine ((k₁.setMagic hnew rtMemheapMagic).setPool hnew).setBlock fun _ hq => ?_
  exact Links.linkAfter_off (ne_of_off hq hitem) (ne_of_off hq hnew) (ne_of_off hq hnext)

lemma insertFree (hlist : S h'.freeList) (hitem : S item)
    (hnext : S (h'.free.next h'.freeList)) : Kept S h (h'.insertFree item) :=
  k₁.setFree fun _ hq => Links.linkAfter_off (ne_of_off hq hlist)
    (ne_of_off hq hitem) (ne_of_off hq hnext)

lemma removeFree (hnext : S (h'.free.next item)) (hprev : S (h'.free.prev item)) :
    Kept S h (h'.removeFree item) :=
  k₁.setFree fun _ hq => Links.unlink_neighbours_off (ne_of_off hq hnext) (ne_of_off hq hprev)

lemma takeFree (hitem : S item) (hnext : S (h'.free.next item))
    (hprev : S (h'.free.prev item)) : Kept S h (h'.takeFree item) := by
  refine k₁.setFree fun q hq => ?_
  have hne : q ≠ item := ne_of_off hq hitem
  have hoff : (h'.free.unlink item).next q = h'.free.next q ∧
      (h'.free.unlink item).prev q = h'.free.prev q :=
    Links.unlink_neighbours_off (ne_of_off hq hnext) (ne_of_off hq hprev)
  exact ⟨(update_of_ne hne _ _).trans hoff.1, (update_of_ne hne _ _).trans hoff.2⟩

lemma unlinkBlock (hnext : S (h'.block.next item)) (hprev : S (h'.block.prev item)) :
    Kept S h { h' with block := h'.block.unlink item } :=
  k₁.setBlock fun _ hq => Links.unlink_neighbours_off (ne_of_off hq hnext) (ne_of_off hq hprev)

/-- Taking in the free block behind: its two neighbours and those in the free list are written. -/
lemma absorbNext (hitem : S item) (hnext : S (h'.block.next (h'.block.next item)))
    (hfree : S (h'.free.next (h'.block.next item)) ∧ S (h'.free.prev (h'.block.next item))) :
    Kept S h (h'.absorbNext item) := by
  refine Kept.removeFree (k₁.setBlock fun q hq => ?_) hfree.1 hfree.2
  exact ⟨update_of_ne (ne_of_off hq hitem) _ _, update_of_ne (ne_of_off hq hnext) _ _⟩

omit k₁ in
lemma fuse {ts' : List Tile} (k₁ : Kept (IsHeader h ts) h h') (hfuse : Fuse ts ts')
    (k₂ : Kept (IsHeader h' ts') h' h'') : Kept (IsHeader h ts) h h'' := by
  refine k₁.trans (k₂.mono ?_)
  rintro p (hlist | hcut)
  · exact .inl (hlist.trans k₁.freeList)
  · rw [k₁.startAddr] at hcut
    exact .inr (hfuse.cuts_subset hcut)

end Kept

/-! ## Headers of a layout -/

lemma Shape.isHeader (s : Shape h ts) (hp : p ∈ h.tail :: allStarts h.startAddr ts) :
    IsHeader h ts p := by
  rw [mem_cons, s.tail_eq, or_comm] at hp
  exact .inr (mem_cuts.mpr hp)

lemma Shape.block_links (s : Shape h ts) (hp : p ∈ cuts h.startAddr ts) :
    IsHeader h ts (h.block.next p) ∧ IsHeader h ts (h.block.prev p) := by
  have hmem : p ∈ h.tail :: allStarts h.startAddr ts := by
    rw [mem_cons, s.tail_eq, or_comm, ← mem_cuts]
    exact hp
  exact (s.ring.links_mem hmem).imp s.isHeader s.isHeader

lemma free_links (hring : h.free.Ring h.freeList fs) (hfs : ∀ q ∈ fs, q ∈ cuts h.startAddr ts)
    (hp : p = h.freeList ∨ p ∈ fs) :
    IsHeader h ts (h.free.next p) ∧ IsHeader h ts (h.free.prev p) := by
  have hmem : ∀ {q}, q ∈ h.freeList :: fs → IsHeader h ts q := fun hq =>
    (mem_cons.mp hq).imp_right (hfs _)
  exact (hring.links_mem (mem_cons.mpr hp)).imp hmem hmem

lemma Layout.free_cuts (l : Layout h ts fs) : ∀ q ∈ fs, q ∈ cuts h.startAddr ts := fun q hq =>
  mem_cuts.mpr (.inl (freeStarts_sub_allStarts ((l.free_iff q).mp hq)))

/-- The data of a used block contains no header. -/
lemma Layout.not_isHeader (l : Layout h ts fs) (hq : (q, k) ∈ extents h.startAddr ts) {i : ℕ}
    (hlo : q + 24 ≤ i) (hhi : i < q + k) (hp : p ≤ i ∧ i < p + 24) : ¬ IsHeader h ts p := by
  have hout := l.outside
  have hspan := l.span
  have hbounds := extents_bounds hq
  rintro (rfl | hcut)
  · omega
  · have hoff := extents_cut hq hcut
    omega

lemma Layout.of_headers (l : Layout h ts fs) {magic : ℕ → UInt32} {poolPtr : ℕ → ℕ}
    {block free : Links ℕ} {mem : ByteMem.Mem} (hsame : ∀ p, IsHeader h ts p → SameHeader h
      { h with magic := magic, poolPtr := poolPtr, block := block, free := free, mem := mem } p) :
    Layout { h with magic := magic, poolPtr := poolPtr, block := block, free := free, mem := mem }
      ts fs := by
  have hblock : ∀ p ∈ h.tail :: allStarts h.startAddr ts, SameHeader h
      { h with magic := magic, poolPtr := poolPtr, block := block, free := free, mem := mem } p :=
    fun p hp => hsame p (l.toShape.isHeader hp)
  have hstart := fun p hp => hblock p (mem_cons_of_mem _ hp)
  refine ⟨⟨l.ring.congr fun p hp => (hblock p hp).block, l.span, l.top, l.min,
    l.magic.congr fun p hp => (hstart p hp).magic,
    (hblock _ mem_cons_self).magic.trans l.magic_tail,
    fun p hp => (hstart p hp).poolPtr.trans (l.pool p hp)⟩, l.outside, l.coalesced,
    l.freeRing.congr fun p hp => (hsame p ?_).free, l.free_iff, l.avail, l.max_eq, l.use_le⟩
  exact (mem_cons.mp hp).imp_right (l.free_cuts p)

/-! ## Block that is not in the free list -/

lemma Layout.of_release (s : Shape h ts)
    (hout : h.freeList + 24 ≤ h.startAddr ∨ h.startAddr + h.poolSize ≤ h.freeList) (hcoal : Coalesced ts)
    (hring : h.free.Ring h.freeList fs) (hiff : ∀ p, p ∈ fs ↔ p ∈ freeStarts h.startAddr ts)
    (havail : h.availableSize = freeBytes ts) (hmax : h.maxUsedSize = max h.peak h.use) :
    Layout h.release ts fs :=
  ⟨s.congr rfl rfl rfl rfl rfl rfl, hout, hcoal, hring, hiff, havail, hmax, Nat.le_max_right _ _⟩

/-- The free block `t` has still to be merged with its neighbours, and inserted into the free list
if `ins` is set. -/
structure Pending (h : Heap) (ins : Bool) (pre : List Tile) (t : Tile) (post : List Tile)
    (fs : List ℕ) : Prop extends Shape h (pre ++ t :: post) where
  outside : h.freeList + 24 ≤ h.startAddr ∨ h.startAddr + h.poolSize ≤ h.freeList
  free : t.used = false
  freeRing : h.free.Ring h.freeList fs
  free_iff : ∀ p, p ∈ fs ↔ p ∈ freeStarts h.startAddr pre ∨
    (ins = false ∧ p = h.startAddr + Tiling.span pre) ∨
      p ∈ freeStarts (h.startAddr + Tiling.span pre + t.size) post
  coalesced_pre : Coalesced pre
  coalesced_post : Coalesced post

/-- The end of a used block is cut off. -/
lemma Shape.cutPending (s : Shape h (pre ++ ⟨n, true⟩ :: post))
    (hout : h.freeList + 24 ≤ h.startAddr ∨ h.startAddr + h.poolSize ≤ h.freeList)
    (hring : h.free.Ring h.freeList fs) (hiff : ∀ p, p ∈ fs ↔ p ∈ freeStarts h.startAddr pre ∨
      p ∈ freeStarts (h.startAddr + Tiling.span pre + n) post)
    (hpre : Coalesced pre) (hpost : Coalesced post) (hk : 24 ≤ k) (hroom : k + 24 ≤ n) :
    Pending (h.cut (h.startAddr + Tiling.span pre) (h.startAddr + Tiling.span pre + k)) true
      (pre ++ [⟨k, true⟩]) ⟨n - k, false⟩ post fs := by
  have hend : h.startAddr + Tiling.span (pre ++ [⟨k, true⟩]) + (n - k) =
      h.startAddr + Tiling.span pre + n := by
    simp only [add_span_concat]
    omega
  refine ⟨(s.cut hk hroom).second, hout, rfl, hring, fun p => ?_,
    coalesced_middle.mpr ⟨hpre, .nil, nofun⟩, hpost⟩
  change _ ↔ p ∈ freeStarts h.startAddr _ ∨ _ ∨
    p ∈ freeStarts (h.startAddr + Tiling.span (pre ++ [⟨k, true⟩]) + (n - k)) post
  rw [hend, hiff, freeStarts_append, mem_append]
  simp

namespace Pending

/-- What does not depend on the counters. -/
lemma congr (q : Pending h ins pre t post fs) (s : Shape h' (pre ++ t :: post))
    (hstart : h'.startAddr = h.startAddr) (hpool : h'.poolSize = h.poolSize)
    (hlist : h'.freeList = h.freeList) (hfree : h'.free = h.free) :
    Pending h' ins pre t post fs := by
  refine ⟨s, ?_, q.free, ?_, ?_, q.coalesced_pre, q.coalesced_post⟩
  · rw [hlist, hstart, hpool]
    exact q.outside
  · rw [hlist, hfree]
    exact q.freeRing
  · rw [hstart]
    exact q.free_iff

lemma setAvail (q : Pending h ins pre t post fs) (avail : ℕ) :
    Pending { h with availableSize := avail } ins pre t post fs :=
  q.congr (q.toShape.congr rfl rfl rfl rfl rfl rfl) rfl rfl rfl rfl

lemma free_cuts (q : Pending h ins pre t post fs) :
    ∀ p ∈ fs, p ∈ cuts h.startAddr (pre ++ t :: post) := by
  intro p hp
  rw [mem_cuts, allStarts_append, mem_append, allStarts_cons, mem_cons]
  rcases (q.free_iff p).mp hp with hp | ⟨-, hp⟩ | hp
  · exact .inl (.inl (freeStarts_sub_allStarts hp))
  · exact .inl (.inr (.inl hp))
  · exact .inl (.inr (.inr (freeStarts_sub_allStarts hp)))

lemma mem_freeStarts_iff (q : Pending h ins pre t post fs) (p : ℕ) :
    p ∈ freeStarts h.startAddr (pre ++ t :: post) ↔ p = h.startAddr + span pre ∨ p ∈ fs := by
  rw [freeStarts_append, mem_append, mem_freeStarts_cons, q.free_iff]
  simp only [q.free, true_and]
  tauto

lemma insert (q : Pending h true pre t post fs) (hpre : LastUsed pre) (hpost : HeadUsed post)
    (s : Shape h' (pre ++ t :: post)) (hstart : h'.startAddr = h.startAddr)
    (hpool : h'.poolSize = h.poolSize) (hlist : h'.freeList = h.freeList)
    (hfree : h'.free = h.free.linkAfter h.freeList (h.startAddr + span pre))
    (havail : h'.availableSize = freeBytes (pre ++ t :: post))
    (hmax : h'.maxUsedSize = max h'.peak h'.use) : ∃ fs', Layout h'.release (pre ++ t :: post) fs' := by
  have hbound := q.bounds
  have hout := q.outside
  have hnew : h.startAddr + span pre ∉ h.freeList :: fs := by
    rw [mem_cons, q.free_iff]
    rintro (heq | hp | ⟨hins, -⟩ | hp)
    · omega
    · have hoff := q.starts_off (Or.inl (freeStarts_sub_allStarts hp))
      omega
    · cases hins
    · have hoff := q.starts_off (Or.inr (Or.inl (freeStarts_sub_allStarts hp)))
      omega
  refine ⟨(h.startAddr + span pre) :: fs, .of_release s ?_ ?_ ?_ (fun p => ?_) havail hmax⟩
  · rw [hstart, hpool, hlist]
    exact hout
  · exact coalesced_middle.mpr ⟨q.coalesced_pre, q.coalesced_post, fun _ => ⟨hpre, hpost⟩⟩
  · rw [hfree, hlist]
    exact q.freeRing.linkAfter hnew
  · rw [hstart, q.mem_freeStarts_iff, mem_cons]

/-- The block has no free neighbours and is inserted into the free list, if it is not there. -/
lemma layout (q : Pending h ins pre t post fs) (hpre : LastUsed pre) (hpost : HeadUsed post)
    (havail : h.availableSize = freeBytes (pre ++ t :: post))
    (hmax : h.maxUsedSize = max h.peak h.use) :
    Kept (IsHeader h (pre ++ t :: post)) h
        (if ins then h.insertFree (h.startAddr + span pre) else h).release ∧
      ∃ fs', Layout (if ins then h.insertFree (h.startAddr + span pre) else h).release
        (pre ++ t :: post) fs' := by
  cases ins with
  | false =>
    have hcoal : Coalesced (pre ++ t :: post) :=
      coalesced_middle.mpr ⟨q.coalesced_pre, q.coalesced_post, fun _ => ⟨hpre, hpost⟩⟩
    refine ⟨(Kept.refl _ h).counters, fs, .of_release q.toShape q.outside hcoal q.freeRing
      (fun p => ?_) havail hmax⟩
    change p ∈ fs ↔ p ∈ freeStarts h.startAddr _
    rw [q.mem_freeStarts_iff, q.free_iff]
    tauto
  | true =>
    have hkept : Kept (IsHeader h (pre ++ t :: post)) h (h.insertFree (h.startAddr + span pre)) :=
      Kept.insertFree (.refl _ h) (.inl rfl) (.inr (by simp))
        (free_links q.freeRing q.free_cuts (.inl rfl)).1
    exact ⟨hkept.counters, q.insert hpre hpost (q.toShape.congr rfl rfl rfl rfl rfl rfl) rfl rfl rfl
      rfl havail hmax⟩

end Pending

end MemHeap
