import TempSns.Lib.Tiling
import TempSns.SmallMem.Defs

/-!
# Block layout of the small-memory heap

The blocks of the heap, read off the memory as a tiling of the region. A tile covers a block with
its header, and `used` is the block's flag.

* `Seg m prv off ts`: the blocks `ts` are stored one after the other from offset `off` on, linked
  forwards by `next` and backwards by `prev`; the block before them starts at `prv`.
* `Walk m e prv off ts`: in addition they reach the end block at `e`.
* `HeapInv h ts`: the state invariant of the allocator, with `ts` the tiling of the region;
  `Lowest h ts` is the further property that `lfree` is the lowest free block.
-/

namespace SmallMem

open ByteMem Tiling Word32 Nat

@[simp] lemma sizeofStructMem_eq : sizeofStructMem = 12 := by decide +kernel

@[simp] lemma minSizeAligned_eq : minSizeAligned = 12 := by decide +kernel

@[simp] lemma minSize_eq : minSize = 12 := rfl

@[simp] lemma rtAlignSize_eq : rtAlignSize = 4 := rfl

@[simp] lemma rtNull_eq : rtNull = 0 := rfl

/-- `RT_ALIGN(size, 4)` rounds up to a multiple of four and wraps at the top of the word. -/
lemma alignUp_four (size : ℕ) : alignUp size rtAlignSize = (size + 3) % 2 ^ 32 / 4 * 4 :=
  alignUp_two_pow (k := 2)

lemma alignDown_four {addr : ℕ} (h : addr < 2 ^ 32) : alignDown addr rtAlignSize = addr / 4 * 4 :=
  alignDown_two_pow (k := 2) h

/-! ## Headers -/

section Headers

variable {m m' : Mem} {p q v : ℕ}

/-- A header is read from its twelve bytes only. -/
lemma header_congr (h : ∀ i, q ≤ i → i < q + 12 → m' i = m i) : header m' q = header m q := by
  unfold header
  rw [load_congr fun i h1 h2 => h i (by omega) (by omega),
    load_congr fun i h1 h2 => h i (by omega) (by omega),
    load_congr fun i h1 h2 => h i (by omega) (by omega),
    load_congr fun i h1 h2 => h i (by omega) (by omega)]

lemma header_of_agreeOff (h : AgreeOff m m' p 12) (hd : q + 12 ≤ p ∨ p + 12 ≤ q) :
    header m' q = header m q :=
  header_congr fun i _ _ => h i (by omega)

lemma setMagic_agreeOff : AgreeOff m (setMagic m p v) p 12 :=
  fun i _ => store_agreeOff m p 2 v i (by omega)

lemma setUsed_agreeOff : AgreeOff m (setUsed m p v) p 12 :=
  fun i _ => store_agreeOff m (p + 2) 2 v i (by omega)

lemma setNext_agreeOff : AgreeOff m (setNext m p v) p 12 :=
  fun i _ => store_agreeOff m (p + 4) 4 v i (by omega)

lemma setPrev_agreeOff : AgreeOff m (setPrev m p v) p 12 :=
  fun i _ => store_agreeOff m (p + 8) 4 v i (by omega)

/-- A field of the header at `p` other than the stored one is unchanged. -/
private lemma load_store_field {a n b k : ℕ} (h : a + n ≤ b ∨ b + k ≤ a) :
    load (store m b k v) a n = load m a n :=
  load_of_agreeOff (store_agreeOff m b k v) h

lemma header_setMagic (hv : v < 2 ^ 16) :
    header (setMagic m p v) p = { header m p with magic := v } := by
  have hval : load (setMagic m p v) p 2 = v := by
    rw [setMagic, load_store_same]; omega
  simp only [header, hval, HeapMem.mk.injEq, true_and]
  exact ⟨load_store_field (by omega), load_store_field (by omega), load_store_field (by omega)⟩

lemma header_setUsed (hv : v < 2 ^ 16) :
    header (setUsed m p v) p = { header m p with used := v } := by
  have hval : load (setUsed m p v) (p + 2) 2 = v := by
    rw [setUsed, load_store_same]; omega
  simp only [header, hval, HeapMem.mk.injEq, true_and]
  exact ⟨load_store_field (by omega), load_store_field (by omega), load_store_field (by omega)⟩

lemma header_setNext (hv : v < 2 ^ 32) :
    header (setNext m p v) p = { header m p with next := v } := by
  have hval : load (setNext m p v) (p + 4) 4 = v := by
    rw [setNext, load_store_same]; omega
  simp only [header, hval, HeapMem.mk.injEq, true_and]
  exact ⟨load_store_field (by omega), load_store_field (by omega), load_store_field (by omega)⟩

lemma header_setPrev (hv : v < 2 ^ 32) :
    header (setPrev m p v) p = { header m p with prev := v } := by
  have hval : load (setPrev m p v) (p + 8) 4 = v := by
    rw [setPrev, load_store_same]; omega
  simp only [header, hval, HeapMem.mk.injEq, and_true]
  exact ⟨load_store_field (by omega), load_store_field (by omega), load_store_field (by omega)⟩

end Headers

/-! ## Segments and walks -/

/-- The block of tile `t` is stored at `off`, with its predecessor at `prv`. -/
structure Block (m : Mem) (prv off : ℕ) (t : Tile) : Prop where
  header_eq : header m off = ⟨heapMagic, t.used.toNat, off + t.size, prv⟩
  min_size : 16 ≤ t.size
  aligned : 4 ∣ t.size

/-- The blocks of `ts` are stored from `off` on, each linked to its neighbours. -/
def Seg (m : Mem) : ℕ → ℕ → List Tile → Prop
  | _, _, [] => True
  | prv, off, t :: ts => Block m prv off t ∧ Seg m off (off + t.size) ts

/-- The end block at `e`: always used, and its own successor. -/
structure EndBlock (m : Mem) (e : ℕ) : Prop where
  magic : (header m e).magic = heapMagic
  used : (header m e).used = 1
  next : (header m e).next = e

/-- The blocks of `ts` lead from `off` to the end block at `e`. -/
structure Walk (m : Mem) (e prv off : ℕ) (ts : List Tile) : Prop where
  seg : Seg m prv off ts
  reaches : off + span ts = e
  endBlock : EndBlock m e

section Walks

variable {m m' : Mem} {e prv off v : ℕ} {t c : Tile} {ts xs ys pre post : List Tile}

@[simp] lemma seg_nil : Seg m prv off [] := trivial

@[simp] lemma seg_cons :
    Seg m prv off (t :: ts) ↔ Block m prv off t ∧ Seg m off (off + t.size) ts := Iff.rfl

lemma seg_append : Seg m prv off (xs ++ ys) ↔
      Seg m prv off xs ∧ Seg m (lastStart prv off xs) (off + span xs) ys := by
  induction xs generalizing prv off with
  | nil => simp
  | cons x xs ih => simp [ih, add_assoc, and_assoc]

lemma Seg.min_size (h : Seg m prv off ts) : ∀ t ∈ ts, 16 ≤ t.size := by
  induction ts generalizing prv off with
  | nil => simp
  | cons x xs ih =>
    rintro t (_ | ⟨_, ht⟩)
    · exact h.1.min_size
    · exact ih h.2 t ht

lemma Seg.aligned (h : Seg m prv off ts) : 4 ∣ span ts := by
  induction ts generalizing prv off with
  | nil => simp
  | cons x xs ih => exact (Nat.dvd_add_right h.1.aligned).mpr (ih h.2)

/-- A segment has at most one block per twelve bytes. -/
lemma Seg.length_le (h : Seg m prv off ts) : 12 * ts.length ≤ span ts := by
  induction ts generalizing prv off with
  | nil => simp
  | cons x xs ih =>
    have hx := h.1.min_size
    have hxs := ih h.2
    simp only [List.length_cons, span_cons]
    omega

lemma Block.congr (h : Block m prv off t) (hag : ∀ i, off ≤ i → i < off + 12 → m' i = m i) :
    Block m' prv off t :=
  { h with header_eq := (header_congr hag).trans h.header_eq }

/-- A segment is kept by changes outside its bytes. -/
lemma Seg.congr (h : Seg m prv off ts) (hag : ∀ i, off ≤ i → i < off + span ts → m' i = m i) :
    Seg m' prv off ts := by
  induction ts generalizing prv off with
  | nil => trivial
  | cons x xs ih =>
    have hx := h.1.min_size
    simp only [span_cons] at hag
    exact ⟨h.1.congr fun i h1 h2 => hag i h1 (by omega),
      ih h.2 fun i h1 h2 => hag i (by omega) (by omega)⟩

lemma EndBlock.congr (h : EndBlock m e) (hag : ∀ i, e ≤ i → i < e + 12 → m' i = m i) :
    EndBlock m' e := by
  have heq : header m' e = header m e := header_congr hag
  exact ⟨heq ▸ h.magic, heq ▸ h.used, heq ▸ h.next⟩

lemma walk_append : Walk m e prv off (xs ++ ys) ↔
      Seg m prv off xs ∧ Walk m e (lastStart prv off xs) (off + span xs) ys := by
  constructor
  · rintro ⟨hseg, hreach, hend⟩
    obtain ⟨hxs, hys⟩ := seg_append.mp hseg
    exact ⟨hxs, hys, by rw [← hreach, span_append, add_assoc], hend⟩
  · rintro ⟨hxs, hys, hreach, hend⟩
    exact ⟨seg_append.mpr ⟨hxs, hys⟩, by rw [← hreach, span_append, add_assoc], hend⟩

lemma walk_cons :
    Walk m e prv off (t :: ts) ↔ Block m prv off t ∧ Walk m e off (off + t.size) ts := by
  have happ : Walk m e prv off ([t] ++ ts) ↔ _ := walk_append
  simpa [and_assoc] using happ

lemma Walk.congr (h : Walk m e prv off ts) (hag : ∀ i, off ≤ i → m' i = m i) :
    Walk m' e prv off ts :=
  ⟨h.seg.congr fun i hi _ => hag i hi, h.reaches,
    h.endBlock.congr fun i hi _ => hag i (by have := h.reaches; omega)⟩

/-- Storing a new predecessor into the first block of a walk, or into the end block when the walk
is empty. -/
lemma Walk.relink (h : Walk m e prv off ts) (hv : v < 2 ^ 32) :
    Walk (setPrev m off v) e v off ts := by
  cases ts with
  | nil =>
    obtain rfl : off = e := by simpa using h.reaches
    refine ⟨trivial, rfl, ?_⟩
    constructor <;> rw [header_setPrev hv]
    exacts [h.endBlock.magic, h.endBlock.used, h.endBlock.next]
  | cons t ts =>
    obtain ⟨hblock, hrest⟩ := walk_cons.mp h
    have hsize := hblock.min_size
    refine walk_cons.mpr ⟨{ hblock with header_eq := ?_ }, hrest.congr fun i hi => ?_⟩
    · rw [header_setPrev hv, hblock.header_eq]
    · exact setPrev_agreeOff i (by omega)

lemma Walk.block (h : Walk m e prv off (pre ++ t :: post)) :
    Block m (lastStart prv off pre) (off + span pre) t :=
  (walk_cons.mp (walk_append.mp h).2).1

lemma Walk.tile_pos (h : Walk m e prv off ts) : ∀ t ∈ ts, 0 < t.size :=
  fun t ht => lt_of_lt_of_le (by omega) (h.seg.min_size t ht)

/-- As `Walk.relink`, where the source leaves the end block alone. -/
lemma Walk.relink_unless_end (h : Walk m e prv off ts) (hv : v < 2 ^ 32) :
    Walk (if off ≠ e then setPrev m off v else m) e v off ts := by
  split
  case isTrue => exact h.relink hv
  case isFalse heq =>
    cases ts with
    | nil => exact ⟨trivial, h.reaches, h.endBlock⟩
    | cons t ts =>
      have hsize := h.seg.1.min_size
      have hreach := h.reaches
      simp only [span_cons] at hreach
      omega

/-- Storing `next` and `prev` so that the first of two neighbouring blocks takes in the second. -/
lemma Walk.fuse {a b : Tile} (h : Walk m e 0 0 (pre ++ a :: b :: post)) (he : e < 2 ^ 32) :
    Walk (setPrev (setNext m (span pre) (span pre + a.size + b.size))
        (span pre + a.size + b.size) (span pre)) e 0 0
      (pre ++ ⟨a.size + b.size, a.used⟩ :: post) := by
  obtain ⟨hpre, hab⟩ := walk_append.mp h
  obtain ⟨hblocka, hb⟩ := walk_cons.mp hab
  obtain ⟨hblockb, hpost⟩ := walk_cons.mp hb
  have hsa := hblocka.min_size
  have hreach := h.reaches
  simp only [zero_add, span_append, span_cons] at *
  have hn : span pre + a.size + b.size < 2 ^ 32 := by omega
  refine walk_append.mpr ⟨hpre.congr fun i _ hi => ?_, walk_cons.mpr ⟨⟨?_, ?_, ?_⟩, ?_⟩⟩
  · rw [setPrev_agreeOff i (by omega), setNext_agreeOff i (by omega)]
  · rw [zero_add, header_of_agreeOff setPrev_agreeOff (by omega), header_setNext hn,
      hblocka.header_eq]
    simp [add_assoc]
  · show 16 ≤ a.size + b.size
    omega
  · exact (Nat.dvd_add_right hblocka.aligned).mpr hblockb.aligned
  · rw [zero_add, ← add_assoc]
    exact (hpost.congr fun i hi => setNext_agreeOff i (by omega)).relink (by omega)

/-- A walk in which the tile `t` is cut at `s`, read off the two headers and the rest. -/
lemma Walk.cut {s : ℕ} {u : Bool} (h : Walk m e 0 0 (pre ++ t :: post))
    (hpre : ∀ i < span pre, m' i = m i)
    (hp : header m' (span pre) = ⟨heapMagic, u.toNat, span pre + s, lastStart 0 0 pre⟩)
    (hp2 : header m' (span pre + s) = ⟨heapMagic, 0, span pre + t.size, span pre⟩)
    (hpost : Walk m' e (span pre + s) (span pre + t.size) post)
    (hlo : 16 ≤ s) (hhi : s + 16 ≤ t.size) (hal : 4 ∣ s) :
    Walk m' e 0 0 (pre ++ ⟨s, u⟩ :: ⟨t.size - s, false⟩ :: post) := by
  have hsum : s + (t.size - s) = t.size := by omega
  refine walk_append.mpr ⟨(walk_append.mp h).1.congr fun i _ hi => hpre i (by omega), ?_⟩
  rw [zero_add]
  refine walk_cons.mpr ⟨⟨hp, hlo, hal⟩, walk_cons.mpr ⟨⟨?_, by simp only; omega, ?_⟩, ?_⟩⟩
  · simp only [hp2, Bool.toNat_false, add_assoc, hsum]
  · exact (dvd_sub (h.block.aligned) hal)
  · simpa only [add_assoc, hsum] using hpost

/-- Rewriting the header of one block changes its flag at most. -/
lemma Walk.flag {u : Bool} (h : Walk m e 0 0 (pre ++ t :: post))
    (hag : AgreeOff m m' (span pre) 12)
    (hp : header m' (span pre) = ⟨heapMagic, u.toNat, span pre + t.size, lastStart 0 0 pre⟩) :
    Walk m' e 0 0 (pre ++ ⟨t.size, u⟩ :: post) := by
  obtain ⟨hpre, hrest⟩ := walk_append.mp h
  obtain ⟨hblock, hpost⟩ := walk_cons.mp hrest
  have hsize := hblock.min_size
  rw [zero_add] at hpost
  refine walk_append.mpr ⟨hpre.congr fun i _ hi => hag i (by omega), ?_⟩
  rw [zero_add]
  exact walk_cons.mpr ⟨⟨hp, hsize, hblock.aligned⟩, hpost.congr fun i hi => hag i (by omega)⟩

/-- The used flag of the first block of a walk. The end block counts as used. -/
lemma Walk.head_used (h : Walk m e prv off ts) :
    (header m off).used = 0 ↔ ∃ t ∈ ts.head?, t.used = false := by
  cases ts with
  | nil =>
    obtain rfl : off = e := by simpa using h.reaches
    simp [h.endBlock.used]
  | cons t ts =>
    rw [(walk_cons.mp h).1.header_eq]
    cases ht : t.used <;> simp [ht]

end Walks

/-! ## State invariant -/

/-- The part of the allocator's invariant that also holds while a freed block has not yet been
merged with its neighbours; `ts` are the blocks of the region. -/
structure Shape (h : Heap) (ts : List Tile) : Prop where
  walk : Walk h.mem h.heapEnd 0 0 ts
  end_eq : h.heapEnd = h.memSizeAligned + 12
  capacity : 12 ≤ h.memSizeAligned
  top : h.heapPtr + h.heapEnd + 12 < 2 ^ 32
  ptr_aligned : 4 ∣ h.heapPtr
  lfree_free : h.lfree ∈ freeStarts 0 ts ∨ h.lfree = h.heapEnd

/-- The allocator's invariant between calls. -/
structure HeapInv (h : Heap) (ts : List Tile) : Prop extends Shape h ts where
  coalesced : Coalesced ts

def Lowest (h : Heap) (ts : List Tile) : Prop := ∀ q ∈ freeStarts 0 ts, h.lfree ≤ q

/-- `h` and `h'` are the same region: only the contents, the cursor and the statistics differ. -/
structure SameRegion (h h' : Heap) : Prop where
  heapPtr : h'.heapPtr = h.heapPtr
  heapEnd : h'.heapEnd = h.heapEnd
  memSizeAligned : h'.memSizeAligned = h.memSizeAligned

lemma SameRegion.refl (h : Heap) : SameRegion h h := ⟨rfl, rfl, rfl⟩

lemma SameRegion.trans {h h' h'' : Heap} (a : SameRegion h h') (b : SameRegion h' h'') :
    SameRegion h h'' :=
  ⟨b.heapPtr.trans a.heapPtr, b.heapEnd.trans a.heapEnd, b.memSizeAligned.trans a.memSizeAligned⟩

lemma Shape.cut_le {h : Heap} {xs ys : List Tile} (s : Shape h (xs ++ ys)) :
    span xs + span ys = h.heapEnd := by
  simpa using s.walk.reaches

/-- `used_mem` goes on being the number of bytes in the used blocks. -/
def Counted (h : Heap) (ts : List Tile) (h' : Heap) (ts' : List Tile) : Prop :=
  h.usedMem = usedSpan ts → h'.usedMem = usedSpan ts'

lemma Shape.usedSpan_le {h : Heap} {ts : List Tile} (s : Shape h ts) :
    usedSpan ts ≤ h.heapEnd := by
  have hreach := s.walk.reaches
  rw [zero_add] at hreach
  exact hreach ▸ usedSpan_le_span

/-! ## Stores into headers -/

/-- `m'` differs from `m` at most in the headers at the offsets `S`. -/
def HeadersOnly (S : List ℕ) (m m' : Mem) : Prop :=
  ∀ i, (∀ p ∈ S, i < p ∨ p + 12 ≤ i) → m' i = m i

namespace HeadersOnly

variable {S S' : List ℕ} {m m' m'' : Mem} {ts : List Tile} {p q k : ℕ}

lemma refl (S : List ℕ) (m : Mem) : HeadersOnly S m m := fun _ _ => rfl

lemma trans (h₁ : HeadersOnly S m m') (h₂ : HeadersOnly S m' m'') : HeadersOnly S m m'' :=
  fun i hi => (h₂ i hi).trans (h₁ i hi)

lemma mono (hsub : S ⊆ S') (h₁ : HeadersOnly S m m') : HeadersOnly S' m m' :=
  fun i hi => h₁ i fun p hp => hi p (hsub hp)

lemma of_agreeOff (hag : AgreeOff m m' p 12) (hp : p ∈ S) : HeadersOnly S m m' :=
  fun i hi => hag i (hi p hp)

lemma data (h₁ : HeadersOnly (cuts 0 ts) m m') (hq : (q, k) ∈ extents 0 ts) {i : ℕ}
    (hlo : q + 12 ≤ i) (hhi : i < q + k) : m' i = m i := by
  refine h₁ i fun p hp => ?_
  have hcut := extents_cut hq hp
  omega

end HeadersOnly

/-! ## Stores of a split -/

section Split

variable {h : Heap} {t : Tile} {pre post : List Tile} {s : ℕ}

lemma createMem2_spec (w : Shape h (pre ++ t :: post)) (hlo : 12 ≤ s) (hhi : s + 12 ≤ t.size) :
    (∀ i, (i < span pre ∨ span pre + 12 ≤ i) → (i < span pre + s ∨ span pre + s + 12 ≤ i) →
      createMem2 h.mem (span pre) (span pre + s) i = h.mem i) ∧
    header (createMem2 h.mem (span pre) (span pre + s)) (span pre) =
      ⟨heapMagic, t.used.toNat, span pre + s, lastStart 0 0 pre⟩ ∧
    header (createMem2 h.mem (span pre) (span pre + s)) (span pre + s) =
      ⟨heapMagic, 0, span pre + t.size, span pre⟩ := by
  have hblock := w.walk.block
  have hcut := w.cut_le
  have htop := w.top
  simp only [zero_add, span_cons] at hblock hcut
  have hnext : ∀ m' : Mem, AgreeOff h.mem m' (span pre + s) 12 →
      header m' (span pre) = ⟨heapMagic, t.used.toNat, span pre + t.size, lastStart 0 0 pre⟩ :=
    fun m' hag => (header_of_agreeOff hag (by omega)).trans hblock.header_eq
  have hag2 : AgreeOff h.mem (setUsed (setMagic h.mem (span pre + s) heapMagic) (span pre + s) 0)
      (span pre + s) 12 :=
    setMagic_agreeOff.trans setUsed_agreeOff
  unfold createMem2
  simp only [hnext _ hag2]
  have hag4 := (hag2.trans (setNext_agreeOff (v := span pre + t.size))).trans
    (setPrev_agreeOff (v := span pre))
  refine ⟨fun i hi1 hi2 => ?_, ?_, ?_⟩
  · rw [setNext_agreeOff i (by omega), hag4 i (by omega)]
  · rw [header_setNext (by omega), hnext _ hag4]
  · rw [header_of_agreeOff setNext_agreeOff (by omega), header_setPrev (by omega),
      header_setNext (by omega), header_setUsed (by norm_num), header_setMagic (by decide)]

/-- `linkMem2` on a memory whose blocks after the split tile are in place. -/
lemma linkMem2_walk {m : Mem} {n p2 : ℕ} (w : Shape h (pre ++ t :: post))
    (hn : (header m p2).next = n) (hp2 : p2 < 2 ^ 32)
    (hpost : Walk m h.heapEnd (span pre) n post) :
    Walk (linkMem2 h m p2) h.heapEnd p2 n post := by
  have hadd : add h.memSizeAligned sizeofStructMem = h.heapEnd := by
    have hend := w.end_eq
    have htop := w.top
    simp only [add, sizeofStructMem_eq]
    omega
  unfold linkMem2
  rw [hn, hadd]
  exact hpost.relink_unless_end hp2

lemma linkMem2_agreeOff {m : Mem} {p2 : ℕ} :
    AgreeOff m (linkMem2 h m p2) (header m p2).next 12 := by
  unfold linkMem2
  split
  · exact setPrev_agreeOff
  · exact fun _ _ => rfl

/-- The blocks after both stores of a split, where the first header may have been given another
flag in between. -/
lemma linkMem2_createMem2 {m : Mem} {u : Bool} (w : Shape h (pre ++ t :: post)) (hlo : 16 ≤ s)
    (hhi : s + 16 ≤ t.size) (hal : 4 ∣ s)
    (hag : AgreeOff (createMem2 h.mem (span pre) (span pre + s)) m (span pre) 12)
    (hp : header m (span pre) = ⟨heapMagic, u.toNat, span pre + s, lastStart 0 0 pre⟩) :
    Walk (linkMem2 h m (span pre + s)) h.heapEnd 0 0
        (pre ++ ⟨s, u⟩ :: ⟨t.size - s, false⟩ :: post) ∧
      HeadersOnly (cuts 0 (pre ++ ⟨s, u⟩ :: ⟨t.size - s, false⟩ :: post)) h.mem
        (linkMem2 h m (span pre + s)) := by
  have hpost := (walk_cons.mp (walk_append.mp w.walk).2).2
  have hcut := w.cut_le
  have htop := w.top
  simp only [zero_add, span_cons] at hpost hcut
  obtain ⟨hkeep, -, hp2⟩ := createMem2_spec w (s := s) (by omega) (by omega)
  have hp2' : header m (span pre + s) = ⟨heapMagic, 0, span pre + t.size, span pre⟩ := by
    rw [header_of_agreeOff hag (by omega), hp2]
  have hkeep' : ∀ i, (i < span pre ∨ span pre + 12 ≤ i) →
      (i < span pre + s ∨ span pre + s + 12 ≤ i) → m i = h.mem i :=
    fun i hi hi' => (hag i hi).trans (hkeep i hi hi')
  have hlink : AgreeOff m (linkMem2 h m (span pre + s)) (span pre + t.size) 12 := by
    have hoff : AgreeOff m (linkMem2 h m (span pre + s)) _ 12 := linkMem2_agreeOff
    rwa [hp2'] at hoff
  refine ⟨w.walk.cut (fun i hi => ?_) ?_ ?_ (linkMem2_walk w (by rw [hp2']) (by omega)
    (hpost.congr fun i hi => hkeep' i (by omega) (by omega))) hlo hhi hal, fun i hi => ?_⟩
  · rw [hlink i (by omega), hkeep' i (by omega) (by omega)]
  · rw [header_of_agreeOff hlink (by omega), hp]
  · rw [header_of_agreeOff hlink (by omega), hp2']
  · have hsum : s + (t.size - s) = t.size := by omega
    rw [hlink i (hi _ (by simp [add_assoc, hsum])), hkeep' i (hi _ (by simp)) (hi _ (by simp))]

end Split

section Init

variable {m : Mem} {beginAddr endAddr : ℕ} {h : Heap}

lemma header_initStart {p n v : ℕ} (hn : n < 2 ^ 32) (hv : v < 2 ^ 32) :
    header (setUsed (setPrev (setNext (setMagic m p heapMagic) p n) p v) p 0) p =
      ⟨heapMagic, 0, n, v⟩ := by
  rw [header_setUsed (by norm_num), header_setPrev hv, header_setNext hn,
    header_setMagic (by decide)]

lemma header_initEnd {p n v : ℕ} (hn : n < 2 ^ 32) (hv : v < 2 ^ 32) :
    header (setPrev (setNext (setUsed (setMagic m p heapMagic) p 1) p n) p v) p =
      ⟨heapMagic, 1, n, v⟩ := by
  rw [header_setPrev hv, header_setNext hn, header_setUsed (by norm_num),
    header_setMagic (by decide)]

/-- The heap after `rt_system_heap_init`: a free block up to the end block, and nothing counted. -/
structure Fresh (h : Heap) : Prop where
  end_eq : h.heapEnd = h.memSizeAligned + 12
  top : h.heapPtr + h.heapEnd + 12 < 2 ^ 32
  ptr_aligned : 4 ∣ h.heapPtr
  end_aligned : 4 ∣ h.heapEnd
  lfree : h.lfree = 0
  start : header h.mem 0 = ⟨heapMagic, 0, h.heapEnd, 0⟩
  stop : header h.mem h.heapEnd = ⟨heapMagic, 1, h.heapEnd, h.heapEnd⟩
  stats : h.usedMem = 0 ∧ h.maxMem = 0

lemma rtSystemHeapInit_fresh (hend : endAddr < 2 ^ 32)
    (hinit : rtSystemHeapInit m beginAddr endAddr = some h) : Fresh h := by
  unfold rtSystemHeapInit at hinit
  rw [alignUp_four, alignDown_four hend] at hinit
  set b := (beginAddr + 3) % 2 ^ 32 / 4 * 4 with hb
  set e := endAddr / 4 * 4 with he
  simp only [sizeofStructMem_eq] at hinit
  split at hinit
  case isFalse => cases hinit
  case isTrue hreg =>
    have hn : e - b - 2 * 12 + 12 < 2 ^ 32 := by omega
    have hv : 0 < 2 ^ 32 := by norm_num
    have hstart := header_initStart (m := m) (p := 0) hn hv
    simp only [hstart, Option.some.injEq] at hinit
    subst hinit
    refine ⟨rfl, by dsimp only; omega, ⟨_, mul_comm _ _⟩, by dsimp only; omega, rfl, ?_, ?_,
      rfl, rfl⟩
    · -- the stores to the end block leave the first header alone
      dsimp only
      rw [header_congr fun i _ hi => ?_, hstart]
      rw [setPrev_agreeOff i (by omega), setNext_agreeOff i (by omega),
        setUsed_agreeOff i (by omega), setMagic_agreeOff i (by omega)]
    · exact header_initEnd hn hn

/-- If there is room for a block, the region is one free block in front of the end block. -/
lemma rtSystemHeapInit_inv (hend : endAddr < 2 ^ 32)
    (hinit : rtSystemHeapInit m beginAddr endAddr = some h) (hcap : 12 ≤ h.memSizeAligned) :
    HeapInv h [⟨h.heapEnd, false⟩] ∧ h.lfree = 0 := by
  have f := rtSystemHeapInit_fresh hend hinit
  have hsize := f.end_eq
  have hstart : Block h.mem 0 0 ⟨h.heapEnd, false⟩ :=
    ⟨by rw [f.start, zero_add]; rfl, by dsimp only; omega, f.end_aligned⟩
  have hstop : EndBlock h.mem h.heapEnd := by
    constructor <;> rw [f.stop]
  refine ⟨⟨⟨⟨⟨hstart, trivial⟩, by simp, hstop⟩, f.end_eq, hcap, f.top, f.ptr_aligned, .inl ?_⟩,
    by simp [Coalesced]⟩, f.lfree⟩
  rw [f.lfree]
  simp

end Init

end SmallMem
