import TempSns.Lib.Tiling
import TempSns.MemHeap.Defs

/-!
# The blocks of a heap

`Shape h ts`: the ring of blocks of the heap `h` tiles the pool in the order of addresses, with the
tiles `ts`, and a block of size zero and in use at the end. Its three operations are cutting a
block, merging two neighbours, and setting the flag of a block.

`Layout h ts fs` adds the free list `fs` and the counters.
-/

namespace MemHeap

open Tiling Function Word32 List

variable {h : Heap} {ts pre post : List Tile} {t a b : Tile} {fs : List ℕ} {k : ℕ} {off : ℕ}

lemma rtMemheapSize_eq : rtMemheapSize = 24 := by decide +kernel

def magicOf (used : Bool) : UInt32 :=
  if used then rtMemheapMagic ||| rtMemheapUsed else rtMemheapMagic

/-- `magic` of the blocks of a list of tiles placed at `off`. -/
def Flags (magic : ℕ → UInt32) : ℕ → List Tile → Prop
  | _, [] => True
  | off, t :: ts => magic off = magicOf t.used ∧ Flags magic (off + t.size) ts

lemma flags_append {magic : ℕ → UInt32} {xs ys : List Tile} :
    Flags magic off (xs ++ ys) ↔ Flags magic off xs ∧ Flags magic (off + span xs) ys := by
  induction xs generalizing off with
  | nil => simp [Flags]
  | cons x xs ih => simp only [cons_append, Flags, ih, span_cons, Nat.add_assoc, and_assoc]

lemma Flags.congr {magic magic' : ℕ → UInt32} (hf : Flags magic off ts)
    (hag : ∀ p ∈ allStarts off ts, magic' p = magic p) : Flags magic' off ts := by
  induction ts generalizing off with
  | nil => trivial
  | cons t ts ih =>
    refine ⟨(hag off (by simp)).trans hf.1, ih hf.2 fun p hp => hag p ?_⟩
    exact mem_cons_of_mem off hp

def Heap.tail (h : Heap) : ℕ := h.startAddr + (h.poolSize - 24)

/-- The blocks of the heap are the tiles `ts` and the block at the end. -/
structure Shape (h : Heap) (ts : List Tile) : Prop where
  ring : h.block.Ring h.tail (allStarts h.startAddr ts)
  span : span ts + 24 = h.poolSize
  top : h.startAddr + h.poolSize < 2 ^ 32
  min : ∀ t ∈ ts, 24 ≤ t.size
  magic : Flags h.magic h.startAddr ts
  magic_tail : h.magic h.tail = magicOf true
  pool : ∀ p ∈ allStarts h.startAddr ts, h.poolPtr p = h.self

/-- The starts of the tiles lie in front of the end. -/
lemma allStarts_bounds {off p : ℕ} (hmin : ∀ t ∈ ts, 24 ≤ t.size) (hp : p ∈ allStarts off ts) :
    off ≤ p ∧ p + 24 ≤ off + span ts := by
  obtain ⟨xs, x, ys, rfl, rfl⟩ := mem_allStarts.mp hp
  have hx := hmin x (by simp)
  simp only [span_append, span_cons]
  omega

namespace Shape

lemma tail_eq (s : Shape h ts) : h.tail = h.startAddr + Tiling.span ts := by
  have hspan := s.span
  unfold Heap.tail
  omega

lemma pos (s : Shape h ts) : ∀ x ∈ ts, 0 < x.size := fun x hx =>
  Nat.lt_of_lt_of_le (by decide) (s.min x hx)

lemma end_eq_tail (s : Shape h (pre ++ [t])) : h.startAddr + Tiling.span pre + t.size = h.tail := by
  rw [s.tail_eq, add_span_concat]

lemma congr {h' : Heap} (s : Shape h ts) (hself : h'.self = h.self)
    (hstart : h'.startAddr = h.startAddr) (hpool : h'.poolSize = h.poolSize)
    (hmagic : h'.magic = h.magic) (hptr : h'.poolPtr = h.poolPtr) (hblock : h'.block = h.block) :
    Shape h' ts := by
  have htail : h'.tail = h.tail := by rw [Heap.tail, Heap.tail, hstart, hpool]
  refine ⟨?_, ?_, ?_, s.min, ?_, ?_, ?_⟩
  · rw [hblock, htail, hstart]
    exact s.ring
  · rw [hpool]
    exact s.span
  · rw [hstart, hpool]
    exact s.top
  · rw [hmagic, hstart]
    exact s.magic
  · rw [hmagic, htail]
    exact s.magic_tail
  · rw [hptr, hself, hstart]
    exact s.pool

lemma links (s : Shape h (pre ++ t :: post)) :
    h.block.next (h.startAddr + Tiling.span pre) = h.startAddr + Tiling.span pre + t.size ∧
      h.block.prev (h.startAddr + Tiling.span pre + t.size) = h.startAddr + Tiling.span pre := by
  have hring := s.ring
  rw [allStarts_append, allStarts_cons] at hring
  have hpath := (Links.path_append.mp hring.path).2
  cases post with
  | nil =>
    rw [s.end_eq_tail]
    exact hpath
  | cons x post => exact hpath.1

lemma prev_first (s : Shape h (t :: post)) : h.block.prev h.startAddr = h.tail :=
  s.ring.path.1.2

section

variable (s : Shape h (pre ++ t :: post))

include s

lemma bounds : 24 ≤ t.size ∧ Tiling.span pre + t.size + Tiling.span post + 24 = h.poolSize := by
  have hspan := s.span
  simp only [span_append, span_cons] at hspan
  exact ⟨s.min t (by simp), by omega⟩

lemma memitemSize_eq : h.memitemSize (h.startAddr + Tiling.span pre) = t.size - 24 := by
  obtain ⟨hmin, hsum⟩ := s.bounds
  have htop := s.top
  rw [Heap.memitemSize, s.links.1, rtMemheapSize_eq, sub_of_le (Nat.le_add_right _ _) (by omega),
    sub_of_le (by omega) (by omega)]
  omega

lemma magic_eq :
    h.magic (h.startAddr + Tiling.span pre) = magicOf t.used := (flags_append.mp s.magic).2.1

lemma isUsed_eq : h.isUsed (h.startAddr + Tiling.span pre) = t.used := by
  rw [Heap.isUsed, s.magic_eq]
  cases t.used <;> decide

end

section

variable (s : Shape h (pre ++ a :: b :: post))

include s

lemma second : Shape h ((pre ++ [a]) ++ b :: post) := by
  rwa [append_assoc]

lemma second_isUsed : h.isUsed (h.startAddr + Tiling.span pre + a.size) = b.used := by
  rw [← add_span_concat]
  exact s.second.isUsed_eq

lemma second_memitemSize :
    h.memitemSize (h.startAddr + Tiling.span pre + a.size) = b.size - 24 := by
  rw [← add_span_concat]
  exact s.second.memitemSize_eq

end

/-- The header of the block whose data is at a pointer. -/
lemma headerPtr_eq (s : Shape h (pre ++ t :: post)) :
    sub (h.startAddr + Tiling.span pre + 24) rtMemheapSize = h.startAddr + Tiling.span pre := by
  have hsum := s.bounds.2
  have htop := s.top
  rw [rtMemheapSize_eq, sub_of_le (by omega) (by omega)]
  omega

/-- The header that is put into a block behind `size` bytes of data. -/
lemma newPtr_eq (s : Shape h (pre ++ t :: post)) (size : ℕ) (hsize : size + 24 ≤ t.size) :
    add (add (h.startAddr + Tiling.span pre) size) rtMemheapSize =
      h.startAddr + Tiling.span pre + (size + 24) := by
  have hsum := s.bounds.2
  have htop := s.top
  rw [rtMemheapSize_eq, add_of_lt (by omega : h.startAddr + Tiling.span pre + size < 2 ^ 32),
    add_of_lt (by omega), Nat.add_assoc]

lemma isUsed_tail (s : Shape h ts) : h.isUsed h.tail = true := by
  rw [Heap.isUsed, s.magic_tail]
  decide

section

variable (s : Shape h (pre ++ t :: post))

include s

lemma isUsed_next :
    h.isUsed (h.startAddr + Tiling.span pre + t.size) = (post.head?.map Tile.used).getD true := by
  cases post with
  | nil =>
    rw [s.end_eq_tail]
    exact s.isUsed_tail
  | cons x post => exact s.second_isUsed

/-- The other blocks start before a block or behind it. -/
lemma starts_off {p : ℕ} (hp : p ∈ allStarts h.startAddr pre ∨
      p ∈ allStarts (h.startAddr + Tiling.span pre + t.size) post ∨ p = h.tail) :
    p < h.startAddr + Tiling.span pre ∨ h.startAddr + Tiling.span pre + t.size ≤ p := by
  have hmin := s.min
  have htail := s.tail_eq
  simp only [span_append, span_cons] at htail
  rcases hp with hp | hp | rfl
  · have hb := allStarts_bounds (fun x hx => hmin x (by simp [hx])) hp
    omega
  · have hb := allStarts_bounds (fun x hx => hmin x (by simp [hx])) hp
    omega
  · omega

lemma setUsed (used : Bool) : Shape (h.setMagic (h.startAddr + Tiling.span pre) (magicOf used))
      (pre ++ ⟨t.size, used⟩ :: post) := by
  have hmin := s.bounds.1
  obtain ⟨hpre, -, hpost⟩ := flags_append.mp s.magic
  have hoff : ∀ p, p < h.startAddr + Tiling.span pre ∨ h.startAddr + Tiling.span pre + t.size ≤ p →
      update h.magic (h.startAddr + Tiling.span pre) (magicOf used) p = h.magic p := by
    intro p hp
    exact update_of_ne (by omega) _ _
  refine ⟨?_, ?_, s.top, ?_, flags_append.mpr ⟨?_, ?_, ?_⟩, ?_, ?_⟩
  · have hring := s.ring
    simp only [allStarts_append, allStarts_cons] at hring ⊢
    exact hring
  · have hspan := s.span
    simp only [span_append, span_cons] at hspan ⊢
    exact hspan
  · intro x hx
    simp only [mem_append, mem_cons] at hx
    rcases hx with hx | rfl | hx
    · exact s.min x (by simp [hx])
    · exact hmin
    · exact s.min x (by simp [hx])
  · exact hpre.congr fun p hp => hoff p (s.starts_off (.inl hp))
  · exact update_self _ _ _
  · exact hpost.congr fun p hp => hoff p (s.starts_off (.inr (.inl hp)))
  · exact (hoff h.tail (s.starts_off (.inr (.inr rfl)))).trans s.magic_tail
  · have hpool := s.pool
    simp only [allStarts_append, allStarts_cons] at hpool ⊢
    exact hpool

lemma cut (hk : 24 ≤ k) (hsize : k + 24 ≤ t.size) :
    Shape (h.cut (h.startAddr + Tiling.span pre) (h.startAddr + Tiling.span pre + k))
      (pre ++ ⟨k, t.used⟩ :: ⟨t.size - k, false⟩ :: post) := by
  have hend : h.startAddr + Tiling.span pre + k + (t.size - k) =
      h.startAddr + Tiling.span pre + t.size := by omega
  obtain ⟨hpre, hflag, hpost⟩ := flags_append.mp s.magic
  -- the new block is inside of the old one
  have hne : ∀ p, p < h.startAddr + Tiling.span pre ∨ p = h.startAddr + Tiling.span pre ∨
      h.startAddr + Tiling.span pre + t.size ≤ p → p ≠ h.startAddr + Tiling.span pre + k := by
    intro p hp
    omega
  have hoff : ∀ p, p ∈ allStarts h.startAddr pre ∨
      p ∈ allStarts (h.startAddr + Tiling.span pre + t.size) post ∨ p = h.tail →
      p ≠ h.startAddr + Tiling.span pre + k := by
    intro p hp
    rcases s.starts_off hp with hlt | hle
    · exact hne p (.inl hlt)
    · exact hne p (.inr (.inr hle))
  refine ⟨?_, ?_, s.top, ?_, flags_append.mpr ⟨?_, ?_, ?_, ?_⟩, ?_, ?_⟩
  · have hring := s.ring
    change (h.block.linkAfter _ _).Ring h.tail (allStarts h.startAddr _)
    simp only [allStarts_append, allStarts_cons, hend] at hring ⊢
    refine hring.linkAfter_mem ?_
    simp only [mem_cons, mem_append, not_or]
    refine ⟨fun heq => hoff _ (.inr (.inr rfl)) heq.symm, fun hmem => hoff _ (.inl hmem) rfl,
      fun heq => hne _ (.inr (.inl rfl)) heq.symm, fun hmem => hoff _ (.inr (.inl hmem)) rfl⟩
  · have hspan := s.span
    simp only [span_append, span_cons] at hspan ⊢
    change _ = h.poolSize
    omega
  · intro x hx
    simp only [mem_append, mem_cons] at hx
    rcases hx with hx | rfl | rfl | hx
    · exact s.min x (by simp [hx])
    · exact hk
    · change 24 ≤ t.size - k
      omega
    · exact s.min x (by simp [hx])
  · exact hpre.congr fun p hp => update_of_ne (hoff p (.inl hp)) _ _
  · exact (update_of_ne (hne _ (.inr (.inl rfl))) _ _).trans hflag
  · exact update_self _ _ _
  · change Flags _ (h.startAddr + Tiling.span pre + k + (t.size - k)) post
    rw [hend]
    exact hpost.congr fun p hp => update_of_ne (hoff p (.inr (.inl hp))) _ _
  · exact (update_of_ne (hoff h.tail (.inr (.inr rfl))) _ _).trans s.magic_tail
  · intro p hp
    have hpool := s.pool
    simp only [allStarts_append, allStarts_cons, mem_append, mem_cons] at hp hpool
    change update h.poolPtr _ h.self p = h.self
    by_cases hnew : p = h.startAddr + Tiling.span pre + k
    · rw [hnew, update_self]
    · rw [update_of_ne hnew]
      change p ∈ _ ∨ p = _ ∨ p = _ ∨ p ∈ allStarts (h.startAddr + Tiling.span pre + k + (t.size - k)) _
        at hp
      rw [hend] at hp
      exact hpool p (by tauto)

end

lemma merge (s : Shape h (pre ++ a :: b :: post)) :
    Shape { h with block := h.block.unlink (h.startAddr + Tiling.span pre + a.size) }
      (pre ++ ⟨a.size + b.size, a.used⟩ :: post) := by
  obtain ⟨hpre, hflag, -, hpost⟩ := flags_append.mp s.magic
  rw [Nat.add_assoc] at hpost
  refine ⟨?_, ?_, s.top, ?_, flags_append.mpr ⟨hpre, hflag, hpost⟩, s.magic_tail, ?_⟩
  · have hring := s.ring
    have hcut : allStarts h.startAddr (pre ++ a :: b :: post) =
        (allStarts h.startAddr pre ++ [h.startAddr + Tiling.span pre]) ++
          (h.startAddr + Tiling.span pre + a.size) ::
          allStarts (h.startAddr + Tiling.span pre + a.size + b.size) post := by
      simp
    rw [hcut] at hring
    have hmerged := hring.unlink_mem
    change (h.block.unlink _).Ring h.tail (allStarts h.startAddr _)
    simpa [Nat.add_assoc] using hmerged
  · have hspan := s.span
    simp only [span_append, span_cons] at hspan ⊢
    change _ = h.poolSize
    omega
  · intro x hx
    simp only [mem_append, mem_cons] at hx
    rcases hx with hx | rfl | hx
    · exact s.min x (by simp [hx])
    · have ha := s.min a (by simp)
      change 24 ≤ a.size + b.size
      omega
    · exact s.min x (by simp [hx])
  · intro p hp
    have hpool := s.pool
    simp only [allStarts_append, allStarts_cons, mem_append, mem_cons, Nat.add_assoc] at hp hpool
    exact hpool p (by tauto)

/-- Merge a block with the one behind it, as `rt_memheap_free` does. -/
lemma absorbNext (s : Shape h (pre ++ a :: b :: post)) :
    Shape (h.absorbNext (h.startAddr + Tiling.span pre))
      (pre ++ ⟨a.size + b.size, a.used⟩ :: post) := by
  obtain ⟨hnext, hprev⟩ := s.links
  have hnext' := s.second.links.1
  have hmin := s.second.bounds.1
  rw [add_span_concat] at hnext'
  have hne : h.startAddr + Tiling.span pre + a.size ≠
      h.block.next (h.startAddr + Tiling.span pre + a.size) := by omega
  have hblock : (h.absorbNext (h.startAddr + Tiling.span pre)).block =
      h.block.unlink (h.startAddr + Tiling.span pre + a.size) := by
    simp only [Heap.absorbNext, Heap.removeFree, Links.unlink, Links.setNext, Links.setPrev, hnext,
      hprev, update_of_ne hne]
  exact s.merge.congr rfl rfl rfl rfl rfl hblock

end Shape

/-! ## Free list and the counters -/

def freeBytes : List Tile → ℕ
  | [] => 0
  | t :: ts => (if t.used then 0 else t.size - 24) + freeBytes ts

@[simp]
lemma freeBytes_append (xs ys : List Tile) :
    freeBytes (xs ++ ys) = freeBytes xs + freeBytes ys := by
  induction xs with
  | nil => simp [freeBytes]
  | cons x xs ih => simp only [cons_append, freeBytes, ih, Nat.add_assoc]

@[simp]
lemma freeBytes_used (n : ℕ) (ts : List Tile) : freeBytes (⟨n, true⟩ :: ts) = freeBytes ts := by
  simp [freeBytes]

@[simp]
lemma freeBytes_free (n : ℕ) (ts : List Tile) :
    freeBytes (⟨n, false⟩ :: ts) = n - 24 + freeBytes ts := by
  simp [freeBytes]

lemma freeBytes_le (ts : List Tile) : freeBytes ts ≤ span ts := by
  induction ts with
  | nil => simp [freeBytes]
  | cons t ts ih =>
    simp only [freeBytes, span_cons]
    split <;> omega

/-- The blocks, the free list `fs` and the counters of a heap. -/
structure Layout (h : Heap) (ts : List Tile) (fs : List ℕ) : Prop extends Shape h ts where
  outside : h.freeList + 24 ≤ h.startAddr ∨ h.startAddr + h.poolSize ≤ h.freeList
  coalesced : Coalesced ts
  freeRing : h.free.Ring h.freeList fs
  free_iff : ∀ p, p ∈ fs ↔ p ∈ freeStarts h.startAddr ts
  avail : h.availableSize = freeBytes ts
  max_eq : h.maxUsedSize = h.peak
  use_le : h.use ≤ h.peak

lemma noteUse_eq (h : Heap) : h.noteUse = { h with maxUsedSize := max h.maxUsedSize h.use } := by
  unfold Heap.noteUse
  split
  case isTrue hlt => rw [Nat.max_eq_right (Nat.le_of_lt hlt)]
  case isFalse hle => rw [Nat.max_eq_left (Nat.le_of_not_lt hle)]

lemma use_eq (hle : h.availableSize ≤ h.poolSize) (hlt : h.poolSize < 2 ^ 32) :
    h.use = h.poolSize - h.availableSize := sub_of_le hle hlt

lemma freeStarts_sub_allStarts {off p : ℕ} (hp : p ∈ freeStarts off ts) : p ∈ allStarts off ts := by
  obtain ⟨xs, x, ys, rfl, -, rfl⟩ := mem_freeStarts.mp hp
  exact mem_allStarts.mpr ⟨xs, x, ys, rfl, rfl⟩

lemma free_rest {us vs : List ℕ} (hmin : ∀ x ∈ pre ++ t :: post, 24 ≤ x.size)
    (ht : t.used = false) (hnodup : (us ++ (off + span pre) :: vs).Nodup)
    (hiff : ∀ p, p ∈ us ++ (off + span pre) :: vs ↔ p ∈ freeStarts off (pre ++ t :: post)) (p : ℕ) :
    p ∈ us ++ vs ↔ p ∈ freeStarts off pre ∨ p ∈ freeStarts (off + span pre + t.size) post := by
  have hold := hiff p
  have hmid : ∀ q, q ∈ freeStarts off pre ∨ q ∈ freeStarts (off + span pre + t.size) post →
      q ≠ off + span pre := by
    rintro q (hq | hq)
    · have hb := allStarts_bounds (fun x hx => hmin x (by simp [hx])) (freeStarts_sub_allStarts hq)
      omega
    · have hb := allStarts_bounds (fun x hx => hmin x (by simp [hx])) (freeStarts_sub_allStarts hq)
      have hsize := hmin t (by simp)
      omega
  simp only [freeStarts_append, mem_append, mem_freeStarts_cons, ht, true_and, mem_cons] at hold ⊢
  constructor
  · intro hp
    have hne : p ≠ off + span pre := by
      rintro rfl
      rw [nodup_append] at hnodup
      rcases hp with hp | hp
      · exact hnodup.2.2 _ hp _ (by simp) rfl
      · exact (nodup_cons.mp hnodup.2.1).1 hp
    tauto
  · intro hp
    have hne := hmid p hp
    tauto

namespace Layout

lemma split_free (l : Layout h (pre ++ t :: post) fs) (ht : t.used = false) :
    ∃ us vs, fs = us ++ (h.startAddr + span pre) :: vs ∧ ∀ p, p ∈ us ++ vs ↔
      p ∈ freeStarts h.startAddr pre ∨ p ∈ freeStarts (h.startAddr + span pre + t.size) post := by
  have hmem : h.startAddr + span pre ∈ fs := by
    rw [l.free_iff]
    exact mem_freeStarts.mpr ⟨pre, t, post, rfl, ht, rfl⟩
  obtain ⟨us, vs, rfl⟩ := append_of_mem hmem
  have hnodup := (nodup_cons.mp l.freeRing.nodup).2
  exact ⟨us, vs, rfl, free_rest l.min ht hnodup l.free_iff⟩

end Layout

end MemHeap
