import Mathlib.Tactic
import Mathlib.Order.CompletePartialOrder
import TempSns.Lib.LiveBlocks
import TempSns.SmallMem.Resize

/-!
# Runs of the allocator

A run starts from a region that `rt_system_heap_init` accepts and takes any sequence of calls; a
pointer passed to `rt_free` or `rt_realloc` is `RT_NULL` or a live one. Between the calls the
program stores into its allocations. `State.live` is the program's view: the address of each live
allocation with the number of bytes that were asked for.

* `WellFormed`: the blocks tile the region and are linked both ways, no two neighbours are free, and
  the live allocations are the used blocks, with disjoint data areas.
* `LfreeLowest`: `lfree` is the lowest free block, or the end block if there is none.

`rt_calloc` with a product that rounding up wraps to zero breaks the first, and shortening a block
below `lfree` breaks the second.
-/

namespace SmallMem

open ByteMem Tiling List

/-- The heap and the live allocations: the requested size for each address handed out. -/
structure State where
  heap : Heap
  /-- The size that was asked for, for each live address. -/
  live : ℕ → Option ℕ

/-- What the program does: a call of the allocator, or a store into an allocation. -/
inductive Call where
  | malloc (size : UInt32)
  | calloc (count size : UInt32)
  | realloc (rmem newsize : UInt32)
  | free (rmem : UInt32)
  /-- A byte store at `addr` through the live pointer `base`. -/
  | write (base addr : UInt32) (v : UInt8)
  deriving DecidableEq, Repr

/-- The end of the user area at the address `a`, where the next block starts. -/
def userEnd (h : Heap) (a : ℕ) : ℕ := h.heapPtr + (header h.mem (blockOf h a)).next

/-- Only live pointers are released, resized or stored through. -/
def Allowed (s : State) : Call → Prop
  | .malloc _ => True
  | .calloc _ _ => True
  | .realloc rmem _ => rmem.toNat = rtNull ∨ (s.live rmem.toNat).isSome
  | .free rmem => rmem.toNat = rtNull ∨ (s.live rmem.toNat).isSome
  | .write base addr _ => (s.live base.toNat).isSome ∧ base.toNat ≤ addr.toNat ∧
      addr.toNat < userEnd s.heap base.toNat

instance (s : State) (c : Call) : Decidable (Allowed s c) := by
  cases c <;> unfold Allowed <;> infer_instance

/-- A new allocation of `n` bytes at `r`, unless the call answered `RT_NULL`. -/
def record (live : ℕ → Option ℕ) (r n : ℕ) : ℕ → Option ℕ :=
  if r = rtNull then live else Function.update live r (some n)

/-- The state after `rt_realloc`. A result of `RT_NULL` means that the block was freed if the size
rounds to zero, else that it was kept. -/
def reallocRecord (s : State) (rmem newsize : ℕ) (x : ℕ × Heap) : State :=
  ⟨x.2, if x.1 = rtNull ∧ Word32.alignUp newsize rtAlignSize ≠ 0 then s.live
    else record (Function.update s.live rmem none) x.1 newsize⟩

/-- One action of the program. -/
def step (s : State) : Call → Except Fault State
  | .malloc size => (rtMalloc s.heap size.toNat).map fun x =>
      ⟨x.2, record s.live x.1 size.toNat⟩
  | .calloc count size => (rtCalloc s.heap count.toNat size.toNat).map fun x =>
      ⟨x.2, record s.live x.1 (count.toNat * size.toNat)⟩
  | .realloc rmem newsize =>
      (rtRealloc s.heap rmem.toNat newsize.toNat).map (reallocRecord s rmem.toNat newsize.toNat)
  | .free rmem => (rtFree s.heap rmem.toNat).map fun h =>
      ⟨h, Function.update s.live rmem.toNat none⟩
  | .write _ addr v =>
      .ok { s with heap := { s.heap with
        mem := store s.heap.mem (addr.toNat - s.heap.heapPtr) 1 v.toNat } }

section Reach

variable (ok : State → Call → Prop)

/-- The states of runs in which every action is allowed and satisfies `ok`. -/
inductive Reach : State → Prop
  | init {m : Mem} {beginAddr endAddr : UInt32} {h : Heap}
      (hinit : rtSystemHeapInit m beginAddr.toNat endAddr.toNat = some h)
      (hcap : 12 ≤ h.memSizeAligned) : Reach ⟨h, fun _ => none⟩
  | step {s s' : State} {c : Call} (hs : Reach s) (hallowed : Allowed s c) (hok : ok s c)
      (hstep : step s c = .ok s') : Reach s'

/-- Execute a list of calls, stopping at one that is not allowed or does not return. -/
def runCalls [∀ s c, Decidable (ok s c)] (s : State) : List Call → Option State
  | [] => some s
  | c :: cs =>
    if Allowed s c ∧ ok s c then
      match step s c with
      | .ok s' => runCalls s' cs
      | .error _ => none
    else none

/-- Initialise the heap and execute a list of calls. -/
def runFrom [∀ s c, Decidable (ok s c)] (m : Mem) (beginAddr endAddr : UInt32)
    (cs : List Call) : Option State :=
  match rtSystemHeapInit m beginAddr.toNat endAddr.toNat with
  | none => none
  | some h => if 12 ≤ h.memSizeAligned then runCalls ok ⟨h, fun _ => none⟩ cs else none

variable {ok} [∀ s c, Decidable (ok s c)]

lemma reach_runCalls {s s' : State} {cs : List Call} (hs : Reach ok s)
    (hrun : runCalls ok s cs = some s') : Reach ok s' := by
  induction cs generalizing s with
  | nil =>
    obtain rfl : s = s' := by simpa [runCalls] using hrun
    exact hs
  | cons c cs ih =>
    rw [runCalls] at hrun
    split at hrun
    case isFalse => cases hrun
    case isTrue hc =>
      split at hrun
      · exact ih (hs.step hc.1 hc.2 ‹_›) hrun
      · cases hrun

lemma reach_runFrom {m : Mem} {beginAddr endAddr : UInt32} {s : State} {cs : List Call}
    (hrun : runFrom ok m beginAddr endAddr cs = some s) : Reach ok s := by
  unfold runFrom at hrun
  split at hrun
  · cases hrun
  · split at hrun
    · exact reach_runCalls (.init ‹_› ‹_›) hrun
    · cases hrun

lemma reach_of_run (ok : State → Call → Prop) [∀ s c, Decidable (ok s c)] (m : Mem)
    (beginAddr endAddr : UInt32) (cs : List Call) (P : State → Prop) [DecidablePred P]
    (hrun : (runFrom ok m beginAddr endAddr cs).any (fun s => decide (P s)) = true) :
    ∃ s, Reach ok s ∧ P s := by
  obtain ⟨s, hs, hP⟩ := (Option.any_eq_true _ _).mp hrun
  exact ⟨s, reach_runFrom hs, of_decide_eq_true hP⟩

end Reach

/-! ## What well formed means -/

/-- The blocks met on the way from offset `0` to the end block along `next`. -/
structure Blocks (h : Heap) (blocks : List ℕ) : Prop where
  head : blocks.head? = some 0
  next : (blocks ++ [h.heapEnd]).IsChain fun p q => (header h.mem p).next = q ∧ p + 12 ≤ q

lemma Blocks.next_mem {h : Heap} {bs : List ℕ} {p : ℕ} (hb : Blocks h bs) (hp : p ∈ bs) :
    p + 12 ≤ (header h.mem p).next ∧
      ((header h.mem p).next ∈ bs ∨ (header h.mem p).next = h.heapEnd) := by
  obtain ⟨xs, ys, rfl⟩ := append_of_mem hp
  obtain ⟨q, zs, hq⟩ : ∃ q zs, ys ++ [h.heapEnd] = q :: zs := by
    cases ys with
    | nil => exact ⟨_, _, rfl⟩
    | cons y ys => exact ⟨_, _, rfl⟩
  have hchain := hb.next
  rw [append_assoc, cons_append, hq] at hchain
  obtain ⟨hnext, hle⟩ := (isChain_cons_cons.mp (isChain_append.mp hchain).2.1).1
  rw [hnext]
  have hmem : q ∈ ys ++ [h.heapEnd] := by simp [hq]
  rcases mem_append.mp hmem with hq' | hq'
  · exact ⟨hle, Or.inl (by simp [hq'])⟩
  · exact ⟨hle, Or.inr (by simpa using hq')⟩

lemma Blocks.zero_mem {h : Heap} {bs : List ℕ} (hb : Blocks h bs) : 0 ∈ bs :=
  mem_of_head? hb.head

/-- The heap and the program's view of it are consistent. -/
structure WellFormed (s : State) : Prop where
  /-- The blocks tile the region, `prev` goes back along them, free blocks are not neighbours, and
  the used blocks are the live allocations. -/
  blocks : ∃ bs, Blocks s.heap bs ∧
    (bs.IsChain fun p q => (header s.heap.mem q).prev = p) ∧
    (bs.IsChain fun p q => (header s.heap.mem p).used ≠ 0 ∨ (header s.heap.mem q).used ≠ 0) ∧
    ∀ a, (s.live a).isSome ↔
      ∃ p ∈ bs, (header s.heap.mem p).used ≠ 0 ∧ a = s.heap.heapPtr + p + 12
  /-- User areas lie inside the heap. -/
  inside : ∀ a, (s.live a).isSome →
    s.heap.heapPtr ≤ a ∧ a < userEnd s.heap a ∧ userEnd s.heap a ≤ s.heap.heapPtr + s.heap.heapEnd
  disjoint : ∀ a b, (s.live a).isSome → (s.live b).isSome → a ≠ b →
    Disjoint (Set.Ico a (userEnd s.heap a)) (Set.Ico b (userEnd s.heap b))
  /-- A user area has the size that was asked for, if that can be rounded up without wrapping. -/
  room : ∀ a n, s.live a = some n → n ≤ 0xfffffffc → a + n ≤ userEnd s.heap a

/-- `lfree` is the lowest free block, or the end block when no block is free. -/
def LfreeLowest (h : Heap) : Prop :=
  ∃ bs, Blocks h bs ∧
    ((h.lfree ∈ bs ∧ (header h.mem h.lfree).used = 0 ∧
        ∀ p ∈ bs, (header h.mem p).used = 0 → h.lfree ≤ p) ∨
      (h.lfree = h.heapEnd ∧ ∀ p ∈ bs, (header h.mem p).used ≠ 0))

/-! ## Reading the blocks off the tiling -/

section Blocks

variable {h : Heap} {m : Mem} {e prv off p : ℕ} {ts : List Tile}

lemma walk_next (w : Walk m e prv off ts) :
    (allStarts off ts ++ [e]).IsChain fun p q => (header m p).next = q ∧ p + 12 ≤ q := by
  induction ts generalizing prv off with
  | nil => simp
  | cons t ts ih =>
    obtain ⟨hblock, hrest⟩ := walk_cons.mp w
    have hmin := hblock.min_size
    have htail := ih hrest
    have hlink : (header m off).next = off + t.size ∧ off + 12 ≤ off + t.size := by
      rw [hblock.header_eq]
      exact ⟨rfl, by omega⟩
    cases ts with
    | nil =>
      have hreach : off + t.size = e := by simpa using w.reaches
      simpa [← hreach] using hlink
    | cons t' ts' => exact .cons_cons hlink htail

lemma seg_prev (s : Seg m prv off ts) :
    (allStarts off ts).IsChain fun p q => (header m q).prev = p := by
  induction ts generalizing prv off with
  | nil => exact .nil
  | cons t ts ih =>
    cases ts with
    | nil => exact .singleton _
    | cons t' ts' => exact .cons_cons (by rw [s.2.1.header_eq]) (ih s.2)

lemma seg_coalesced (s : Seg m prv off ts) (hc : Coalesced ts) :
    (allStarts off ts).IsChain fun p q => (header m p).used ≠ 0 ∨ (header m q).used ≠ 0 := by
  induction ts generalizing prv off with
  | nil => exact .nil
  | cons t ts ih =>
    cases ts with
    | nil => exact .singleton _
    | cons t' ts' =>
      obtain ⟨hpair, htail⟩ := isChain_cons_cons.mp hc
      refine .cons_cons ?_ (ih s.2 htail)
      rw [s.1.header_eq, s.2.1.header_eq]
      rcases hpair with hu | hu <;> simp [hu]

lemma seg_flag {pre post : List Tile} {t : Tile} (s : Seg m prv off (pre ++ t :: post)) :
    (header m (off + span pre)).used = t.used.toNat := by
  rw [(seg_append.mp s).2.1.header_eq]

lemma seg_used (s : Seg m prv off ts) :
    (p ∈ allStarts off ts ∧ (header m p).used ≠ 0) ↔ ∃ n, (p, n) ∈ extents off ts := by
  constructor
  · rintro ⟨hp, hused⟩
    obtain ⟨pre, ⟨n, u⟩, post, rfl, rfl⟩ := mem_allStarts.mp hp
    rw [seg_flag s] at hused
    cases u
    · simp at hused
    · exact ⟨n, mem_extents.mpr ⟨pre, post, rfl, rfl⟩⟩
  · rintro ⟨n, hp⟩
    obtain ⟨pre, post, rfl, rfl⟩ := mem_extents.mp hp
    refine ⟨mem_allStarts.mpr ⟨pre, _, post, rfl, rfl⟩, ?_⟩
    rw [seg_flag s]
    simp

lemma seg_free (s : Seg m prv off ts) :
    (p ∈ allStarts off ts ∧ (header m p).used = 0) ↔ p ∈ freeStarts off ts := by
  constructor
  · rintro ⟨hp, hfree⟩
    obtain ⟨pre, t, post, rfl, rfl⟩ := mem_allStarts.mp hp
    rw [seg_flag s] at hfree
    exact mem_freeStarts.mpr ⟨pre, t, post, rfl, by simpa using hfree, rfl⟩
  · intro hp
    obtain ⟨pre, t, post, rfl, ht, rfl⟩ := mem_freeStarts.mp hp
    refine ⟨mem_allStarts.mpr ⟨pre, t, post, rfl, rfl⟩, ?_⟩
    rw [seg_flag s, ht]
    rfl

lemma HeapInv.blocks (inv : HeapInv h ts) : Blocks h (allStarts 0 ts) where
  head := by
    cases ts with
    | nil =>
      have hreach := inv.walk.reaches
      have hend := inv.end_eq
      simp only [span_nil] at hreach
      omega
    | cons t ts => rfl
  next := walk_next inv.walk

/-- The cursor property in terms of the tiling is the one in terms of headers. -/
lemma HeapInv.lfreeLowest (inv : HeapInv h ts) (hlow : Lowest h ts) : LfreeLowest h := by
  refine ⟨allStarts 0 ts, inv.blocks, ?_⟩
  rcases inv.lfree_free with hmem | hend
  · obtain ⟨hstart, hfree⟩ := (seg_free inv.walk.seg).mpr hmem
    exact Or.inl ⟨hstart, hfree, fun p hp hpfree => hlow p ((seg_free inv.walk.seg).mp ⟨hp, hpfree⟩)⟩
  · refine Or.inr ⟨hend, fun p hp hpfree => ?_⟩
    -- a free block would be at or above the end block
    have hfree := (seg_free inv.walk.seg).mp ⟨hp, hpfree⟩
    have hle := hlow p hfree
    have hlt := (freeStarts_bounds inv.walk.tile_pos hfree).2
    have hreach := inv.walk.reaches
    omega

end Blocks

/-! ## Program's view -/

/-- The live addresses are the data addresses of the used blocks `E` of a heap at `base`, and a
block has room for what was asked for. -/
abbrev Tracks (base : ℕ) (E : Set (ℕ × ℕ)) (live : ℕ → Option ℕ) : Prop :=
  LiveBlocks.Tracks (fun p => base + p + 12) 12 E live

lemma data_injective (base : ℕ) : Function.Injective fun p => base + p + 12 := by
  intro p q hpq
  simp only at hpq
  omega

/-- The invariant of runs. -/
structure RunInv (s : State) (ts : List Tile) : Prop where
  inv : HeapInv s.heap ts
  tracks : Tracks s.heap.heapPtr {x | x ∈ extents 0 ts} s.live

section RunInv

variable {s : State} {ts : List Tile}

lemma userEnd_eq {h : Heap} {p n : ℕ} (inv : HeapInv h ts) (hp : (p, n) ∈ extents 0 ts) :
    userEnd h (h.heapPtr + p + 12) = h.heapPtr + p + n := by
  obtain ⟨pre, post, rfl, rfl⟩ := mem_extents.mp hp
  rw [Nat.zero_add, userEnd, (data_address inv.toShape).2.2.2]
  have hblock := inv.walk.block
  rw [Nat.zero_add] at hblock
  rw [hblock.header_eq, Nat.add_assoc]

lemma RunInv.wellFormed (r : RunInv s ts) : WellFormed s := by
  have hmin : ∀ p n, (p, n) ∈ extents 0 ts → 16 ≤ n := by
    intro p n hp
    obtain ⟨pre, post, rfl, -⟩ := mem_extents.mp hp
    exact r.inv.walk.seg.min_size ⟨n, true⟩ (by simp)
  refine ⟨⟨allStarts 0 ts, r.inv.blocks, seg_prev r.inv.walk.seg,
    seg_coalesced r.inv.walk.seg r.inv.coalesced, fun a => ?_⟩, fun a ha => ?_,
    fun a b ha hb hab => ?_, fun a n ha hn => ?_⟩
  · rw [r.tracks.live_iff]
    constructor
    · rintro ⟨p, k, hp, rfl⟩
      obtain ⟨hstart, hused⟩ := (seg_used r.inv.walk.seg).mpr ⟨k, hp⟩
      exact ⟨p, hstart, hused, rfl⟩
    · rintro ⟨p, hp, hused, rfl⟩
      obtain ⟨k, hk⟩ := (seg_used r.inv.walk.seg).mp ⟨hp, hused⟩
      exact ⟨p, k, hk, rfl⟩
  · obtain ⟨p, k, hp, rfl⟩ := (r.tracks.live_iff a).mp ha
    have hb := extents_bounds hp
    have hk := hmin p k hp
    have hreach := r.inv.walk.reaches
    rw [userEnd_eq r.inv hp]
    omega
  · obtain ⟨p, k, hp, rfl⟩ := (r.tracks.live_iff a).mp ha
    obtain ⟨q, l, hq, rfl⟩ := (r.tracks.live_iff b).mp hb
    rw [userEnd_eq r.inv hp, userEnd_eq r.inv hq, Set.disjoint_left]
    intro i hi hi'
    -- of two different used tiles one ends before the other starts
    have hpq : p + k ≤ q ∨ q + l ≤ p := extents_disjoint hp hq (by omega)
    simp only [Set.mem_Ico] at hi hi'
    omega
  · obtain ⟨p, k, hp, rfl⟩ := (r.tracks.live_iff a).mp (by simp [ha])
    have hroom := r.tracks.room p k n hp ha hn
    rw [userEnd_eq r.inv hp]
    omega

end RunInv

end SmallMem
