import Mathlib.Tactic
import Mathlib.Order.CompletePartialOrder
import TempSns.Lib.LiveBlocks
import TempSns.Lib.Transition
import TempSns.MemHeap.Resize

/-!
# Runs of a memory heap

A run starts after `rt_memheap_init` and takes any sequence of calls; a pointer passed to
`rt_memheap_free` or `rt_memheap_realloc` is `RT_NULL` or a live one. Between the calls the program
stores into its allocations, which may leave anything at addresses that are no headers.

`WellFormed` is what the lists and the counters of a heap must satisfy. It holds in every state of a
run in which `rt_memheap_realloc` is not asked to grow a block to a size whose sum with
`RT_MEMHEAP_MINIALLOC` wraps (`Fits`).
-/

namespace MemHeap

open Tiling Function Word32 List Option

/-- The heap and the live allocations: the requested size for each address handed out. -/
structure State where
  heap : Heap
  /-- The size that was asked for, for each live address. -/
  live : ℕ → Option ℕ

/-- Headers, as seen at every address. -/
structure Headers where
  magic : ℕ → UInt32
  poolPtr : ℕ → ℕ
  block : Links ℕ
  free : Links ℕ

/-- What the program does: a call, or a store into an allocation. -/
inductive Act where
  | alloc (size : UInt32)
  | realloc (ptr newsize : UInt32)
  | free (ptr : UInt32)
  /-- A byte store at `addr` through the live pointer `base`. The headers that contain the byte are
  then as in `seen`. -/
  | write (base addr : UInt32) (v : UInt8) (seen : Headers)

/-- The end of the user area at the address `a`, where the next block starts. -/
def userEnd (h : Heap) (a : ℕ) : ℕ := h.block.next (a - 24)

/-- Only live pointers are released, resized or stored through. -/
def Allowed (s : State) : Act → Prop
  | .alloc _ => True
  | .realloc ptr _ => ptr.toNat = rtNull ∨ (s.live ptr.toNat).isSome
  | .free ptr => ptr.toNat = rtNull ∨ (s.live ptr.toNat).isSome
  | .write base addr _ _ => (s.live base.toNat).isSome ∧ base.toNat ≤ addr.toNat ∧
      addr.toNat < userEnd s.heap base.toNat

instance (s : State) (a : Act) : Decidable (Allowed s a) := by
  cases a <;> unfold Allowed <;> infer_instance

/-- `rt_memheap_realloc` is not asked to grow a block by a test that wraps. -/
def GrowthFits (s : State) : Act → Prop
  | .realloc ptr newsize => ptr.toNat = rtNull ∨ Fits s.heap ptr.toNat newsize.toNat
  | _ => True

instance (s : State) (a : Act) : Decidable (GrowthFits s a) := by
  cases a <;> unfold GrowthFits <;> infer_instance

/-- A new allocation of `n` bytes at `r`, unless the call answered `RT_NULL`. -/
def record (live : ℕ → Option ℕ) (r n : ℕ) : ℕ → Option ℕ :=
  if r = rtNull then live else update live r (some n)

/-- The live allocations after `rt_memheap_realloc`. A result of `RT_NULL` means that the block was
freed if the size is zero, else that it was kept. -/
def reallocRecord (live : ℕ → Option ℕ) (ptr newsize r : ℕ) : ℕ → Option ℕ :=
  if r = rtNull ∧ newsize ≠ 0 then live else record (update live ptr none) r newsize

/-- The headers after a store at `addr`: those that contain the byte are as in `seen`. -/
def Heap.overwrite (h : Heap) (addr : ℕ) (v : UInt8) (seen : Headers) : Heap :=
  let hit := fun p => p ≤ addr ∧ addr < p + 24
  { h with
    mem := update h.mem addr v
    magic := fun p => if hit p then seen.magic p else h.magic p
    poolPtr := fun p => if hit p then seen.poolPtr p else h.poolPtr p
    block := ⟨fun p => if hit p then seen.block.next p else h.block.next p,
      fun p => if hit p then seen.block.prev p else h.block.prev p⟩
    free := ⟨fun p => if hit p then seen.free.next p else h.free.next p,
      fun p => if hit p then seen.free.prev p else h.free.prev p⟩ }

/-- One action of the program. -/
def call (s : State) : Act → Except Fault State
  | .alloc size => (rtMemheapAlloc s.heap size.toNat).map fun x =>
      ⟨x.2, record s.live x.1 size.toNat⟩
  | .realloc ptr newsize => (rtMemheapRealloc s.heap ptr.toNat newsize.toNat).map fun x =>
      ⟨x.2, reallocRecord s.live ptr.toNat newsize.toNat x.1⟩
  | .free ptr => (rtMemheapFree s.heap ptr.toNat).map fun h =>
      ⟨h, update s.live ptr.toNat none⟩
  | .write _ addr v seen => .ok { s with heap := s.heap.overwrite addr.toNat v seen }

/-- An action that returns. -/
def step (s : State) (a : Act) : Option State := (call s a).toOption

/-- The pool is large enough for the two headers, does not reach the end of the address space, and
does not contain the head of the free list. -/
structure PoolOk (h : Heap) (startAddr size : UInt32) : Prop where
  room : 48 ≤ alignDown size.toNat rtAlignSize
  top : startAddr.toNat + alignDown size.toNat rtAlignSize < 2 ^ 32
  outside : h.freeList + 24 ≤ startAddr.toNat ∨
    startAddr.toNat + alignDown size.toNat rtAlignSize ≤ h.freeList

/-- The state after `rt_memheap_init`. -/
def Init (s : State) : Prop :=
  ∃ h startAddr size, PoolOk h startAddr size ∧
    s = ⟨rtMemheapInit h startAddr.toNat size.toNat, fun _ => none⟩

/-- The states of the runs whose actions are allowed and satisfy `P`. -/
abbrev Reach (P : State → Act → Prop) : State → Prop :=
  Transition.Reach Init step fun s a => Allowed s a ∧ P s a

/-! ## What well formed means -/

/-- The blocks of a heap in the order of their addresses: they tile the pool up to the block at its
end, and are linked both ways in a ring with it. -/
structure Blocks (h : Heap) (bs : List ℕ) : Prop where
  first : bs.head? = some h.startAddr
  ring : h.block.Ring h.tail bs
  order : (bs ++ [h.tail]).IsChain fun p q => h.block.next p = q ∧ p + 24 ≤ q
  last : h.tail + 24 = h.startAddr + h.poolSize ∧ h.isUsed h.tail = true

/-- The lists, the counters and the live allocations are consistent. -/
structure WellFormed (s : State) : Prop where
  /-- The blocks tile the pool. The free list has every free block once. No two neighbours are free.
  `available_size` is the number of bytes in the free blocks. The live allocations are the used
  blocks. -/
  blocks : ∃ bs, Blocks s.heap bs ∧
    (∃ fs, s.heap.free.Ring s.heap.freeList fs ∧ fs.Nodup ∧
      ∀ p, p ∈ fs ↔ p ∈ bs ∧ s.heap.isUsed p = false) ∧
    (bs.IsChain fun p q => s.heap.isUsed p = true ∨ s.heap.isUsed q = true) ∧
    s.heap.availableSize = ((bs.filter fun p => !s.heap.isUsed p).map s.heap.memitemSize).sum ∧
    ∀ a, (s.live a).isSome ↔ ∃ p ∈ bs, s.heap.isUsed p = true ∧ a = p + 24
  /-- `max_used_size` is the largest use so far. -/
  peak : s.heap.maxUsedSize = s.heap.peak ∧ s.heap.poolSize - s.heap.availableSize ≤ s.heap.peak
  /-- User areas lie inside the pool. -/
  inside : ∀ a, (s.live a).isSome → s.heap.startAddr + 24 ≤ a ∧ a ≤ userEnd s.heap a ∧
    userEnd s.heap a + 24 ≤ s.heap.startAddr + s.heap.poolSize
  disjoint : ∀ a b, (s.live a).isSome → (s.live b).isSome → a ≠ b →
    Disjoint (Set.Ico a (userEnd s.heap a)) (Set.Ico b (userEnd s.heap b))
  /-- A user area has the size that was asked for, if that can be rounded up without wrapping. -/
  room : ∀ a n, s.live a = some n → n ≤ 0xfffffffc → a + n ≤ userEnd s.heap a

lemma Blocks.first_next {h : Heap} {bs : List ℕ} (hb : Blocks h bs) :
    h.startAddr + 24 ≤ h.block.next h.startAddr := by
  have hfirst := hb.first
  have horder := hb.order
  cases bs with
  | nil => cases hfirst
  | cons p bs =>
    obtain rfl : p = h.startAddr := by simpa using hfirst
    cases bs with
    | nil =>
      obtain ⟨hnext, hle⟩ := (isChain_cons_cons.mp horder).1
      rw [hnext]
      exact hle
    | cons q bs =>
      obtain ⟨hnext, hle⟩ := (isChain_cons_cons.mp horder).1
      rw [hnext]
      exact hle

/-! ## Invariant of runs -/

/-- The heap has a layout whose used blocks are the live allocations. -/
structure RunInv (s : State) (ts : List Tile) (fs : List ℕ) : Prop where
  layout : Layout s.heap ts fs
  tracks : LiveBlocks.Tracks (· + 24) 24 {x | x ∈ extents s.heap.startAddr ts} s.live
  room : 48 ≤ s.heap.poolSize

/-- The used blocks have room for the smallest allocation. -/
def Large (start : ℕ) (ts : List Tile) : Prop := ∀ x ∈ extents start ts, 36 ≤ x.2

variable {h : Heap} {s : State} {ts : List Tile} {fs : List ℕ}

lemma layout_init {startAddr size : UInt32} (hpool : PoolOk h startAddr size) :
    Layout (rtMemheapInit h startAddr.toNat size.toNat)
      [⟨alignDown size.toNat rtAlignSize - 24, false⟩] [startAddr.toNat] := by
  obtain ⟨hroom, htop, hout⟩ := hpool
  unfold rtMemheapInit
  generalize alignDown size.toNat rtAlignSize = pool at hroom htop hout ⊢
  generalize startAddr.toNat = start at htop hout ⊢
  have havail : sub pool (2 * rtMemheapSize) = pool - 48 := by
    rw [rtMemheapSize_eq, sub_of_le (by omega) (by omega)]
  have hused : sub pool (pool - 48) = 48 := by
    rw [sub_of_le (by omega) (by omega)]
    omega
  have htail : add (add start (pool - 48)) rtMemheapSize = start + (pool - 24) := by
    have hinner : add start (pool - 48) = start + (pool - 48) := add_of_lt (by omega)
    rw [rtMemheapSize_eq, hinner, add_of_lt (by omega)]
    omega
  have hlist : h.freeList ≠ start := by omega
  have hlist' : h.freeList ≠ start + (pool - 24) := by omega
  have hne : start ≠ start + (pool - 24) := by omega
  simp only [havail, hused, htail, Heap.setMagic, Heap.setPool, Heap.insertFree]
  refine ⟨⟨⟨⟨?_, ?_⟩, ?_⟩, ?_, htop, ?_, ⟨?_, trivial⟩, ?_, ?_⟩, hout, .singleton _, ⟨⟨?_, ?_⟩, ?_⟩,
    ?_, ?_, rfl, ?_⟩
  -- the ring of the two blocks
  · simp [Heap.tail, Links.setNext, Links.setPrev, update_of_ne hne]
  · simp [Heap.tail, Links.setNext, Links.setPrev, update_of_ne hne, Links.Path]
  · simp [Heap.tail]
    omega
  · simp
    omega
  · simp
    omega
  -- the flags and the pool pointers
  · simp [update_of_ne hne, magicOf]
  · simp [Heap.tail, magicOf]
  · simp [update_of_ne hne]
  -- the free list
  · simp [Links.setNext, Links.setPrev, Links.linkAfter, update_of_ne hne, hlist,
      hlist.symm, update_of_ne hlist']
  · simp [Links.setNext, Links.setPrev, Links.linkAfter, update_of_ne hne, hlist,
      hlist.symm, update_of_ne hlist', Links.Path]
  · simp [hlist]
  · intro p
    simp
  · simp [freeBytes]
    omega
  · rw [use_eq (by simp) (by simp; omega)]
    simp
    omega

lemma runInv_init (hs : Init s) : ∃ ts fs, RunInv s ts fs ∧ Large s.heap.startAddr ts := by
  obtain ⟨h, startAddr, size, hpool, rfl⟩ := hs
  refine ⟨_, _, ⟨layout_init hpool, .empty fun x hx => ?_, hpool.room⟩, fun x hx => ?_⟩
  · simp [extents] at hx
  · simp [extents] at hx

/-! ## Reading the blocks off the tiling -/

namespace Shape

lemma order (sh : Shape h ts) : (allStarts h.startAddr ts ++ [h.tail]).IsChain
    fun p q => h.block.next p = q ∧ p + 24 ≤ q := by
  -- induction on the tiles in front of the end, each followed by the rest of the list
  suffices hsuffix : ∀ pre post, ts = pre ++ post →
      (allStarts (h.startAddr + Tiling.span pre) post ++ [h.tail]).IsChain
        fun p q => h.block.next p = q ∧ p + 24 ≤ q by
    simpa using hsuffix [] ts rfl
  intro pre post hts
  induction post generalizing pre with
  | nil => simp
  | cons t post ih =>
    subst hts
    obtain ⟨hmin, -⟩ := sh.bounds
    have hnext := sh.links.1
    have hrest := ih (pre ++ [t]) (by simp)
    rw [add_span_concat] at hrest
    cases post with
    | nil =>
      have htail := sh.end_eq_tail
      exact .cons_cons ⟨hnext.trans htail, by omega⟩ (.singleton _)
    | cons t' post => exact .cons_cons ⟨hnext, by omega⟩ hrest

lemma free_iff (sh : Shape h ts) (p : ℕ) :
    p ∈ freeStarts h.startAddr ts ↔ p ∈ allStarts h.startAddr ts ∧ h.isUsed p = false := by
  constructor
  · intro hp
    obtain ⟨pre, t, post, rfl, ht, rfl⟩ := mem_freeStarts.mp hp
    exact ⟨freeStarts_sub_allStarts hp, sh.isUsed_eq.trans ht⟩
  · rintro ⟨hp, hused⟩
    obtain ⟨pre, t, post, rfl, rfl⟩ := mem_allStarts.mp hp
    exact mem_freeStarts.mpr ⟨pre, t, post, rfl, sh.isUsed_eq.symm.trans hused, rfl⟩

lemma used_iff (sh : Shape h ts) (p : ℕ) :
    (p ∈ allStarts h.startAddr ts ∧ h.isUsed p = true) ↔ ∃ n, (p, n) ∈ extents h.startAddr ts := by
  constructor
  · rintro ⟨hp, hused⟩
    obtain ⟨pre, t, post, rfl, rfl⟩ := mem_allStarts.mp hp
    rw [sh.isUsed_eq] at hused
    exact ⟨t.size, mem_extents.mpr ⟨pre, post, by rw [← hused], rfl⟩⟩
  · rintro ⟨n, hp⟩
    obtain ⟨pre, post, rfl, rfl⟩ := mem_extents.mp hp
    exact ⟨mem_allStarts.mpr ⟨pre, _, post, rfl, rfl⟩, sh.isUsed_eq⟩

lemma neighbours (sh : Shape h ts) (hcoal : Coalesced ts) : (allStarts h.startAddr ts).IsChain
    fun p q => h.isUsed p = true ∨ h.isUsed q = true := by
  suffices hsuffix : ∀ pre post, ts = pre ++ post →
      (allStarts (h.startAddr + Tiling.span pre) post).IsChain
        fun p q => h.isUsed p = true ∨ h.isUsed q = true by
    simpa using hsuffix [] ts rfl
  intro pre post hts
  induction post generalizing pre with
  | nil => exact .nil
  | cons t post ih =>
    have hrest := ih (pre ++ [t]) (by simp [hts])
    rw [add_span_concat] at hrest
    cases post with
    | nil => exact .singleton _
    | cons t' post =>
      subst hts
      have hseam : t.used = true ∨ t'.used = true :=
        (isChain_cons_cons.mp (isChain_append.mp hcoal).2.1).1
      refine .cons_cons ?_ hrest
      rw [sh.isUsed_eq, sh.second_isUsed]
      exact hseam

lemma freeBytes_eq (sh : Shape h ts) :
    (((allStarts h.startAddr ts).filter fun p => !h.isUsed p).map h.memitemSize).sum =
      freeBytes ts := by
  suffices hsuffix : ∀ pre post, ts = pre ++ post →
      (((allStarts (h.startAddr + Tiling.span pre) post).filter fun p => !h.isUsed p).map
        h.memitemSize).sum = freeBytes post by
    simpa using hsuffix [] ts rfl
  intro pre post hts
  induction post generalizing pre with
  | nil => rfl
  | cons t post ih =>
    have hrest := ih (pre ++ [t]) (by simp [hts])
    rw [add_span_concat] at hrest
    subst hts
    cases ht : t.used with
    | false => simp [freeBytes, sh.isUsed_eq, sh.memitemSize_eq, ht, hrest]
    | true => simp [freeBytes, sh.isUsed_eq, ht, hrest]

end Shape

lemma userEnd_eq {p n : ℕ} (l : Layout h ts fs) (hp : (p, n) ∈ extents h.startAddr ts) :
    userEnd h (p + 24) = p + n := by
  obtain ⟨pre, post, rfl, rfl⟩ := mem_extents.mp hp
  rw [userEnd, Nat.add_sub_cancel]
  exact l.links.1

lemma Layout.blocks (l : Layout h ts fs) (hroom : 48 ≤ h.poolSize) :
    Blocks h (allStarts h.startAddr ts) := by
  have hspan := l.span
  have htail := l.tail_eq
  refine ⟨?_, l.ring, l.toShape.order, by omega, l.isUsed_tail⟩
  cases ts with
  | nil =>
    simp only [span_nil] at hspan
    omega
  | cons t ts => rfl

lemma RunInv.blocks (r : RunInv s ts fs) : Blocks s.heap (allStarts s.heap.startAddr ts) :=
  r.layout.blocks r.room

lemma RunInv.wellFormed (r : RunInv s ts fs) : WellFormed s := by
  have hmin : ∀ p n, (p, n) ∈ extents s.heap.startAddr ts → 24 ≤ n := by
    intro p n hp
    obtain ⟨pre, post, rfl, -⟩ := mem_extents.mp hp
    exact r.layout.min ⟨n, true⟩ (by simp)
  have hspan := r.layout.span
  have htop := r.layout.top
  refine ⟨⟨_, r.blocks, ⟨fs, r.layout.freeRing, (nodup_cons.mp r.layout.freeRing.nodup).2,
      fun p => (r.layout.free_iff p).trans (r.layout.toShape.free_iff p)⟩,
    r.layout.toShape.neighbours r.layout.coalesced,
    r.layout.avail.trans r.layout.toShape.freeBytes_eq.symm, fun a => ?_⟩,
    ⟨r.layout.max_eq, ?_⟩, fun a ha => ?_, fun a b ha hb hab => ?_, fun a n ha hn => ?_⟩
  · rw [r.tracks.live_iff]
    constructor
    · rintro ⟨p, k, hp, rfl⟩
      obtain ⟨hstart, hused⟩ := (r.layout.used_iff p).mpr ⟨k, hp⟩
      exact ⟨p, hstart, hused, rfl⟩
    · rintro ⟨p, hp, hused, rfl⟩
      obtain ⟨k, hk⟩ := (r.layout.used_iff p).mp ⟨hp, hused⟩
      exact ⟨p, k, hk, rfl⟩
  · have huse := r.layout.use_le
    have havail := r.layout.avail
    have hle := freeBytes_le ts
    rw [use_eq (by omega) (by omega)] at huse
    exact huse
  · obtain ⟨p, k, hp, rfl⟩ := (r.tracks.live_iff a).mp ha
    have hb := extents_bounds hp
    have hk := hmin p k hp
    rw [userEnd_eq r.layout hp]
    omega
  · obtain ⟨p, k, hp, rfl⟩ := (r.tracks.live_iff a).mp ha
    obtain ⟨q, l, hq, rfl⟩ := (r.tracks.live_iff b).mp hb
    rw [userEnd_eq r.layout hp, userEnd_eq r.layout hq, Set.disjoint_left]
    intro i hi hi'
    have hpq : p + k ≤ q ∨ q + l ≤ p := extents_disjoint hp hq (by omega)
    simp only [Set.mem_Ico] at hi hi'
    omega
  · obtain ⟨p, k, hp, rfl⟩ := (r.tracks.live_iff a).mp (by simp [ha])
    have hroom := r.tracks.room p k n hp ha hn
    rw [userEnd_eq r.layout hp]
    omega

/-! ## Steps -/

lemma data_injective : Function.Injective fun p : ℕ => p + 24 := fun _ _ heq =>
  Nat.add_right_cancel heq

section

variable (r : RunInv s ts fs)

include r

/-- A new block is handed out. -/
lemma RunInv.alloc (n size : ℕ) (hsize : n ≤ 0xfffffffc → n ≤ alignedSize size) :
    ∃ x, rtMemheapAlloc s.heap size = .ok x ∧ ∃ ts' fs', RunInv ⟨x.2, record s.live x.1 n⟩ ts' fs' ∧
      (Large s.heap.startAddr ts → Large x.2.startAddr ts') := by
  obtain ⟨p, h', halloc, hsame, hres⟩ := r.layout.rtMemheapAlloc size
  refine ⟨_, halloc, ?_⟩
  rcases hres with ⟨rfl, rfl⟩ | ⟨pre, t, post, fs', rfl, ht, hfit, rfl, l', -⟩
  · rw [record, if_pos rfl]
    exact ⟨ts, fs, r, id⟩
  · rw [record, if_neg (by rw [rtNull]; omega)]
    obtain ⟨k, hk, hfresh, hext⟩ := mem_extents_occupy s.heap.startAddr 36 r.layout.pos hfit ht
    have hins := r.tracks.insert data_injective hfresh (n := n) (k := k) fun hn => by
      omega
    refine ⟨_, fs', ⟨l', hins.congr fun x => ?_, hsame.poolSize ▸ r.room⟩, fun hlarge x hx => ?_⟩
    · rw [Set.mem_ofPred_eq, hsame.startAddr, hext]
      rfl
    · have hge := alignedSize_ge size
      rw [hsame.startAddr, hext] at hx
      rcases hx with rfl | hx
      · exact Nat.le_trans (by omega) hk
      · exact hlarge x hx

lemma RunInv.used {a : ℕ} (ha : (s.live a).isSome) :
    ∃ p n, (p, n) ∈ extents s.heap.startAddr ts ∧ a = p + 24 :=
  (r.tracks.live_iff a).mp ha

lemma RunInv.live_null : s.live rtNull = none := by
  rw [← not_isSome_iff_eq_none, r.tracks.live_iff]
  rintro ⟨p, n, -, heq⟩
  cases heq

lemma RunInv.free {a : ℕ} (ha : a = rtNull ∨ (s.live a).isSome) :
    ∃ h', rtMemheapFree s.heap a = .ok h' ∧ ∃ ts' fs', RunInv ⟨h', update s.live a none⟩ ts' fs' ∧
        (Large s.heap.startAddr ts → Large h'.startAddr ts') := by
  by_cases hnull : a = rtNull
  · subst hnull
    refine ⟨s.heap, by rw [rtMemheapFree, if_pos rfl], ts, fs, ?_, id⟩
    rw [← r.live_null, update_eq_self]
    exact r
  · obtain ⟨p, n, hp, rfl⟩ := r.used (ha.resolve_left hnull)
    obtain ⟨pre, post, rfl, rfl⟩ := mem_extents.mp hp
    have hpos := r.layout.pos
    obtain ⟨h', ts', fs', hfree, hsame, l', hfuse, -⟩ := r.layout.rtMemheapFree
    refine ⟨h', hfree, ts', fs', ⟨l', (r.tracks.erase data_injective _).congr fun x => ?_,
      hsame.poolSize ▸ r.room⟩, fun hlarge x hx => ?_⟩
    · rw [Set.mem_ofPred_eq, hsame.startAddr, hfuse.extents_eq, mem_extents_release hpos]
      rfl
    · rw [hsame.startAddr, hfuse.extents_eq, mem_extents_release hpos] at hx
      exact hlarge x hx.1

lemma RunInv.realloc {a newsize : ℕ} (ha : a = rtNull ∨ (s.live a).isSome)
    (hlt : newsize < 2 ^ 32) (hfits : a = rtNull ∨ Fits s.heap a newsize) :
    ∃ x, rtMemheapRealloc s.heap a newsize = .ok x ∧
      ∃ ts' fs', RunInv ⟨x.2, reallocRecord s.live a newsize x.1⟩ ts' fs' ∧
        (Large s.heap.startAddr ts → Large x.2.startAddr ts') := by
  by_cases hzero : newsize = 0
  · obtain ⟨h', hfree, hinv⟩ := r.free ha
    refine ⟨(rtNull, h'), ?_, ?_⟩
    · rw [rtMemheapRealloc, if_pos hzero, hfree]
      rfl
    · rw [reallocRecord, if_neg (fun hne => hne.2 hzero), record, if_pos rfl]
      exact hinv
  · by_cases hnull : a = rtNull
    · subst hnull
      obtain ⟨x, halloc, hinv⟩ := r.alloc newsize (alignedSize newsize) fun hn =>
        (le_alignedSize hn).trans_eq (alignedSize_idem newsize).symm
      refine ⟨x, ?_, ?_⟩
      · rw [rtMemheapRealloc, if_neg hzero]
        simp only [if_true]
        exact halloc
      · have hrecord : reallocRecord s.live rtNull newsize x.1 = record s.live x.1 newsize := by
          unfold reallocRecord record
          by_cases hx : x.1 = rtNull
          · rw [if_pos ⟨hx, hzero⟩, if_pos hx]
          · rw [if_neg (fun hne => hx hne.1), if_neg hx, if_neg hx, ← r.live_null, update_eq_self]
        rw [hrecord]
        exact hinv
    · obtain ⟨p, n, hp, rfl⟩ := r.used (ha.resolve_left hnull)
      obtain ⟨q, h', ts', fs', hcall, hsame, l', hres, -⟩ :=
        r.layout.rtMemheapRealloc hp hzero hlt (hfits.resolve_left hnull)
      refine ⟨_, hcall, ts', fs', ?_⟩
      rcases hres with ⟨rfl, rfl, rfl⟩ | ⟨q, k, rfl, hk, hfresh, hrep⟩
      · rw [reallocRecord, if_pos ⟨rfl, hzero⟩]
        exact ⟨⟨l', r.tracks, r.room⟩, id⟩
      · have hq : ¬ q + 24 = rtNull := by rw [rtNull]; omega
        rw [reallocRecord, if_neg (fun hne => hq hne.1), record, if_neg hq]
        have herase := r.tracks.erase data_injective p
        have hins := herase.insert data_injective (fun x hx => hfresh x hx.1 hx.2) (n := newsize)
          (k := k) fun hn => by
            have hle := le_alignedSize hn
            omega
        refine ⟨⟨l', hins.congr fun x => ?_, hsame.poolSize ▸ r.room⟩, fun hlarge x hx => ?_⟩
        · rw [Set.mem_ofPred_eq, hsame.startAddr, hrep]
          rfl
        · have hge := alignedSize_ge newsize
          rw [hsame.startAddr, hrep] at hx
          rcases hx with rfl | hx
          · exact Nat.le_trans (by omega) hk
          · exact hlarge x hx.1

lemma RunInv.write {base addr : ℕ} (hbase : (s.live base).isSome)
    (hlo : base ≤ addr) (hhi : addr < userEnd s.heap base) (v : UInt8) (seen : Headers) :
    RunInv { s with heap := s.heap.overwrite addr v seen } ts fs := by
  obtain ⟨p, n, hp, rfl⟩ := r.used hbase
  rw [userEnd_eq r.layout hp] at hhi
  refine ⟨r.layout.of_headers fun q hq => ?_, r.tracks, r.room⟩
  have hoff : ¬ (q ≤ addr ∧ addr < q + 24) := fun hhit => r.layout.not_isHeader hp hlo hhi hhit hq
  exact ⟨if_neg hoff, if_neg hoff, ⟨if_neg hoff, if_neg hoff⟩, if_neg hoff, if_neg hoff⟩

/-- Every allowed action returns, and keeps the invariant. -/
lemma RunInv.step {a : Act} (ha : Allowed s a) (hfits : GrowthFits s a) :
    ∃ s', call s a = .ok s' ∧ ∃ ts' fs', RunInv s' ts' fs' ∧
      (Large s.heap.startAddr ts → Large s'.heap.startAddr ts') := by
  cases a with
  | alloc size =>
    obtain ⟨x, halloc, hinv⟩ := r.alloc size.toNat size.toNat le_alignedSize
    exact ⟨_, map_eq_ok.mpr ⟨x, halloc, rfl⟩, hinv⟩
  | realloc ptr newsize =>
    obtain ⟨x, hrealloc, hinv⟩ := r.realloc ha newsize.toNat_lt hfits
    exact ⟨_, map_eq_ok.mpr ⟨x, hrealloc, rfl⟩, hinv⟩
  | free ptr =>
    obtain ⟨x, hfree, hinv⟩ := r.free ha
    exact ⟨_, map_eq_ok.mpr ⟨x, hfree, rfl⟩, hinv⟩
  | write base addr v seen =>
    obtain ⟨hbase, hlo, hhi⟩ := ha
    exact ⟨_, rfl, ts, fs, r.write hbase hlo hhi v seen, id⟩

end

lemma runInv_of_reach (hs : Reach GrowthFits s) :
    ∃ ts fs, RunInv s ts fs ∧ Large s.heap.startAddr ts := by
  refine hs.invariant (I := fun s => ∃ ts fs, RunInv s ts fs ∧ Large s.heap.startAddr ts)
    (fun s => runInv_init) ?_
  rintro s a s' ⟨ts, fs, r, hlarge⟩ ⟨hallowed, hfits⟩ hstep
  obtain ⟨s'', hcall, ts', fs', r', hkeeps⟩ := r.step hallowed hfits
  rw [MemHeap.step, hcall] at hstep
  obtain rfl := some.inj hstep
  exact ⟨ts', fs', r', hkeeps hlarge⟩

/-- In every state of a run in which the test for growing never wraps the heap is well formed, and
every allowed call returns. -/
theorem wellFormed_of_growthFits (hs : Reach GrowthFits s) :
    WellFormed s ∧ ∀ a, Allowed s a → GrowthFits s a → (step s a).isSome := by
  obtain ⟨ts, fs, r, -⟩ := runInv_of_reach hs
  refine ⟨r.wellFormed, fun a ha hfits => ?_⟩
  obtain ⟨s', hcall, -⟩ := r.step ha hfits
  rw [step, hcall]
  rfl

/-! ## Two runs -/

/-- A heap object before its initialization. -/
def blank : Heap where
  self := 0x100
  freeList := 0x120
  startAddr := 0
  poolSize := 0
  availableSize := 0
  maxUsedSize := 0
  magic := fun _ => 0
  poolPtr := fun _ => 0
  block := ⟨fun _ => 0, fun _ => 0⟩
  free := ⟨fun _ => 0, fun _ => 0⟩
  mem := fun _ => 0
  peak := 0

def smallPool : State := ⟨rtMemheapInit blank 0x1000 0x400, fun _ => none⟩

lemma init_smallPool : Init smallPool :=
  ⟨blank, 0x1000, 0x400, ⟨by decide +kernel, by decide +kernel, by decide +kernel⟩, rfl⟩

/-- Execute allowed actions whose steps pass a test. -/
def run (ok : State → Act → Prop) [∀ s a, Decidable (ok s a)] (acts : List Act) : Option State :=
  Transition.run step (fun s a => decide (Allowed s a ∧ ok s a)) smallPool acts

lemma reach_run {ok : State → Act → Prop} [∀ s a, Decidable (ok s a)] {acts : List Act}
    {s : State} (hrun : run ok acts = some s) : Reach ok s :=
  (Transition.Reach.init init_smallPool).run (fun _ _ hok => of_decide_eq_true hok) hrun

/-- A block is allocated and extended into the free block behind it. -/
theorem wellFormed_growing : ∃ s, run GrowthFits
    [.alloc 100, .realloc 0x1018 200, .alloc 50, .free 0x1018] = some s ∧ WellFormed s := by
  obtain ⟨s, hrun, -⟩ := (any_eq_true _ _).mp (show (run GrowthFits
    [.alloc 100, .realloc 0x1018 200, .alloc 50, .free 0x1018]).any (fun _ => true) = true by
      decide +kernel)
  exact ⟨s, hrun, (wellFormed_of_growthFits (reach_run hrun)).1⟩

/-- The new size and twelve wrap to four, and the block is said to fit: the next block is put sixteen
bytes behind the header. -/
theorem not_wellFormed_wrapped : ∃ s, Reach (fun _ _ => True) s ∧ ¬ WellFormed s := by
  obtain ⟨s, hrun, hfacts⟩ := (any_eq_true _ _).mp (show (run (fun _ _ => True)
    [.alloc 100, .realloc 0x1018 0xfffffff8]).any (fun s => decide (s.heap.startAddr = 0x1000 ∧
      s.heap.block.next 0x1000 = 0x1010)) = true by decide +kernel)
  obtain ⟨hstart, hnext⟩ := of_decide_eq_true hfacts
  refine ⟨s, reach_run hrun, fun hwf => ?_⟩
  obtain ⟨bs, hb, -⟩ := hwf.blocks
  have hfirst := hb.first_next
  rw [hstart, hnext] at hfirst
  omega

/-- When everything has been freed, the pool is one free block again. -/
theorem block_of_noneLive (hs : Reach GrowthFits s) (hnone : ∀ a, s.live a = none) :
    s.heap.block.next s.heap.startAddr = s.heap.tail ∧
      s.heap.availableSize = s.heap.poolSize - 48 := by
  obtain ⟨ts, fs, ⟨layout, tracks, room⟩, -⟩ := runInv_of_reach hs
  have hspan := layout.span
  have hne : ts ≠ [] := by
    rintro rfl
    simp at hspan
    omega
  obtain ⟨n, rfl⟩ := layout.coalesced.eq_singleton (tracks.notMem hnone) hne
  have hring := layout.ring
  have havail := layout.avail
  simp [freeBytes] at hspan hring havail
  refine ⟨hring.path.2.1, ?_⟩
  omega

/-- Two blocks are allocated and both are freed. -/
theorem block_of_noneLive_freed : ∃ s : State, s.heap.block.next 0x1000 = s.heap.tail ∧
    s.heap.availableSize = 0x3D0 := by
  obtain ⟨s, hrun, hend⟩ := (Option.any_eq_true _ _).mp (show
    (run GrowthFits [.alloc 100, .alloc 50, .free 0x1018, .free 0x1094]).any (fun s =>
      decide (s.heap.startAddr = 0x1000 ∧ s.heap.poolSize = 0x400 ∧
        ∀ i < 0x400, s.live (0x1000 + i) = none)) = true by decide +kernel)
  obtain ⟨hstart, hpool, hfreed⟩ := of_decide_eq_true hend
  have hs := reach_run hrun
  have hnone : ∀ a, s.live a = none := by
    intro a
    -- a live block would lie inside the pool
    by_contra hlive
    obtain ⟨ts, fs, r, -⟩ := runInv_of_reach hs
    obtain ⟨hle, hlt, hin⟩ := r.wellFormed.inside a (Option.isSome_iff_ne_none.mpr hlive)
    obtain ⟨i, rfl⟩ := Nat.exists_eq_add_of_le (show 0x1000 ≤ a by omega)
    exact hlive (hfreed i (by omega))
  have hblock := block_of_noneLive hs hnone
  rw [hstart, hpool] at hblock
  exact ⟨s, hblock⟩

end MemHeap
