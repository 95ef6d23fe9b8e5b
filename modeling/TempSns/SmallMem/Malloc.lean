import TempSns.SmallMem.Layout

/-!
# Allocation

`rt_malloc` searches the blocks from `lfree` on for a free one that is large enough, splits it or
takes it whole, and moves `lfree` on if the block was the one it pointed to. On a heap that
satisfies `HeapInv` the search and the cursor loop end, the assertions hold, and the blocks change
by `Tiling.occupy` at one free tile (`rtMalloc_spec`).
-/

namespace SmallMem

open ByteMem Tiling Word32

variable {h : Heap} {t : Tile} {pre post ts : List Tile} {size : ℕ} {prv off fuel : ℕ} {n : ℕ}

lemma request_ge (size : ℕ) : 12 ≤ request size := by
  unfold request
  split <;> simp_all

lemma request_aligned (size : ℕ) : 4 ∣ request size := by
  unfold request
  split
  · simp
  · rw [alignUp_four]
    exact ⟨_, Nat.mul_comm _ _⟩

lemma alignUp_le_request (size : ℕ) : alignUp size rtAlignSize ≤ request size := by
  unfold request
  split <;> omega

lemma request_of_small {size : ℕ} (hsmall : alignUp size rtAlignSize ≤ 12) :
    request size = 12 := by
  rw [request, minSizeAligned_eq]
  split <;> omega

/-! ## Search -/

/-- The search ends. A block it finds is free, holds `size` bytes and starts below the bound; if it
finds none, there is no such block below the bound. -/
lemma mallocSearch_spec (w : Walk h.mem h.heapEnd prv off ts)
    (hend : h.heapEnd = h.memSizeAligned + 12) (htop : h.heapEnd < 2 ^ 32)
    (hsize : size ≤ h.memSizeAligned) (hfuel : ts.length < fuel) :
    ∃ r, mallocSearch h size fuel off = some r ∧
      (∀ p ∈ r, ∃ xs t ys, ts = xs ++ t :: ys ∧ t.used = false ∧ size + 12 ≤ t.size ∧
        p = off + span xs ∧ p + size < h.memSizeAligned) ∧
      (r = none → ∀ xs t ys, ts = xs ++ t :: ys → t.used = false → size + 12 ≤ t.size →
        h.memSizeAligned ≤ off + span xs + size) := by
  have hsub : sub h.memSizeAligned size = h.memSizeAligned - size := by
    simp only [sub]; omega
  induction ts generalizing prv off fuel with
  | nil =>
    obtain ⟨fuel, rfl⟩ : ∃ k, fuel = k + 1 := ⟨fuel - 1, by simp at hfuel; omega⟩
    have hreach : off = h.heapEnd := by simpa using w.reaches
    refine ⟨none, ?_, by simp, fun _ xs t ys hts => by simp at hts⟩
    rw [mallocSearch, hsub, if_neg (by omega)]
  | cons t ts ih =>
    obtain ⟨fuel, rfl⟩ : ∃ k, fuel = k + 1 := ⟨fuel - 1, by simp at hfuel; omega⟩
    obtain ⟨hblock, hrest⟩ := walk_cons.mp w
    have hmin := hblock.min_size
    have hreach := w.reaches
    simp only [span_cons, List.length_cons] at hreach hfuel
    have hdata : sub (off + t.size) (add off sizeofStructMem) = t.size - 12 := by
      simp only [sub, add, sizeofStructMem_eq]; omega
    rw [mallocSearch, hsub, hblock.header_eq]
    simp only [hdata]
    by_cases hin : off < h.memSizeAligned - size
    · rw [if_pos hin]
      by_cases hfit : t.used.toNat = 0 ∧ size ≤ t.size - 12
      · rw [if_pos hfit]
        refine ⟨some off, rfl, fun p hp => ⟨[], t, ts, rfl, ?_, ?_, ?_, ?_⟩, by simp⟩
        · simpa using hfit.1
        · omega
        · simpa using hp.symm
        · obtain rfl := Option.some.inj hp
          omega
      · rw [if_neg hfit]
        obtain ⟨r, hr, hfound, hnone⟩ := ih hrest (show ts.length < fuel by omega)
        refine ⟨r, hr, fun p hp => ?_, fun hr xs t' ys hts ht hroom => ?_⟩
        · obtain ⟨xs, t', ys, rfl, hfree, hlarge, rfl, hbound⟩ := hfound p hp
          exact ⟨t :: xs, t', ys, rfl, hfree, hlarge, by simp [Nat.add_assoc], hbound⟩
        · rcases List.cons_eq_append_iff.mp hts with ⟨rfl, heq⟩ | ⟨zs, rfl, rfl⟩
          · -- the block itself would have been taken
            obtain ⟨rfl, -⟩ := List.cons.inj heq
            exact absurd ⟨by rw [ht]; rfl, by omega⟩ hfit
          · have hle := hnone hr zs t' ys rfl ht hroom
            rw [span_cons]
            omega
    · rw [if_neg hin]
      exact ⟨none, rfl, by simp, fun _ xs t ys _ _ _ => by omega⟩

/-- The cursor loop ends at the first free block, or at the end block if there is none. -/
lemma lfreeAdvance_spec (w : Walk h.mem h.heapEnd prv off ts)
    (hfuel : ts.length < fuel) : lfreeAdvance h fuel off = some (firstFree off ts) := by
  induction ts generalizing prv off fuel with
  | nil =>
    obtain ⟨fuel, rfl⟩ : ∃ k, fuel = k + 1 := ⟨fuel - 1, by simp at hfuel; omega⟩
    have hreach : off = h.heapEnd := by simpa using w.reaches
    rw [lfreeAdvance, if_neg (by simp [hreach]), firstFree]
  | cons t ts ih =>
    obtain ⟨fuel, rfl⟩ : ∃ k, fuel = k + 1 := ⟨fuel - 1, by simp at hfuel; omega⟩
    obtain ⟨hblock, hrest⟩ := walk_cons.mp w
    have hmin := hblock.min_size
    have hreach := w.reaches
    simp only [span_cons, List.length_cons] at hreach hfuel
    rw [lfreeAdvance, hblock.header_eq, firstFree]
    cases hused : t.used
    · simp
    · simpa [show off ≠ h.heapEnd by omega] using ih hrest (by omega)

/-! ## Taking the block -/

lemma mallocTake_eq (s : Shape h (pre ++ t :: post)) (hfit : size + 12 ≤ t.size) :
    mallocTake h (span pre) size = if size + 12 + 24 ≤ t.size then
      (setMagic (linkMem2 h (setUsed (createMem2 h.mem (span pre) (span pre + (size + 12)))
        (span pre) 1) (span pre + (size + 12))) (span pre) heapMagic, size + 12)
    else (setMagic (setUsed h.mem (span pre) 1) (span pre) heapMagic, t.size) := by
  have hblock := s.walk.block
  have hcut := s.cut_le
  have htop := s.top
  simp only [Nat.zero_add, span_cons] at hblock hcut
  have hdata : sub (header h.mem (span pre)).next
      (add (span pre) sizeofStructMem) = t.size - 12 := by
    rw [hblock.header_eq]
    simp only [sub, add, sizeofStructMem_eq]
    omega
  have hneed : add (add size sizeofStructMem) minSizeAligned = size + 24 := by
    simp only [add, sizeofStructMem_eq, minSizeAligned_eq]
    omega
  have hptr2 : add (add (span pre) sizeofStructMem) size = span pre + (size + 12) := by
    simp only [add, sizeofStructMem_eq]
    omega
  have hsmall : add size sizeofStructMem = size + 12 := by
    simp only [add, sizeofStructMem_eq]
    omega
  have hwhole : sub (header (setUsed h.mem (span pre) 1) (span pre)).next (span pre) = t.size := by
    rw [header_setUsed (by norm_num), hblock.header_eq]
    simp only [sub]
    omega
  unfold mallocTake
  rw [hdata, hneed, hptr2]
  by_cases hsplit : size + 12 + 24 ≤ t.size
  · rw [if_pos hsplit, if_pos (by omega), hsmall]
  · rw [if_neg hsplit, if_neg (by omega)]
    dsimp only
    rw [hwhole]

lemma mallocTake_spec (s : Shape h (pre ++ t :: post)) (hlo : 12 ≤ size) (hal : 4 ∣ size)
    (hfit : size + 12 ≤ t.size) :
    Walk (mallocTake h (span pre) size).1 h.heapEnd 0 0 (pre ++ (occupy 24 (size + 12) t ++ post)) ∧
      HeadersOnly (cuts 0 (pre ++ (occupy 24 (size + 12) t ++ post))) h.mem
        (mallocTake h (span pre) size).1 ∧
      (mallocTake h (span pre) size).2 = usedSpan (occupy 24 (size + 12) t) := by
  rw [mallocTake_eq s hfit, usedSpan_occupy]
  unfold occupy
  by_cases hsplit : size + 12 + 24 ≤ t.size
  · simp only [if_pos hsplit]
    obtain ⟨-, hp, -⟩ := createMem2_spec s (s := size + 12) (by omega) (by omega)
    have hused : header (setUsed (createMem2 h.mem (span pre) (span pre + (size + 12)))
        (span pre) 1) (span pre) =
        ⟨heapMagic, true.toNat, span pre + (size + 12), lastStart 0 0 pre⟩ := by
      rw [header_setUsed (by norm_num), hp]
      rfl
    obtain ⟨hwalk, hheaders⟩ :=
      linkMem2_createMem2 s (by omega) (by omega) (by omega) setUsed_agreeOff hused
    have hblock := hwalk.block
    rw [Nat.zero_add] at hblock
    have hmem : span pre ∈ cuts 0 (pre ++ ⟨size + 12, true⟩ ::
        ⟨t.size - (size + 12), false⟩ :: post) := by simp
    refine ⟨hwalk.flag setMagic_agreeOff ?_,
      hheaders.trans (.of_agreeOff setMagic_agreeOff hmem), trivial⟩
    rw [header_setMagic (by decide), hblock.header_eq]
  · simp only [if_neg hsplit]
    have hblock := s.walk.block
    rw [Nat.zero_add] at hblock
    refine ⟨s.walk.flag (setUsed_agreeOff.trans setMagic_agreeOff) ?_,
      .of_agreeOff (setUsed_agreeOff.trans setMagic_agreeOff) (by simp), trivial⟩
    rw [header_setMagic (by decide), header_setUsed (by norm_num), hblock.header_eq]
    rfl

/-- Where `rt_malloc` leaves the cursor after taking `n` bytes of the tile `t`. -/
def lfreeAfter (lfree : ℕ) (pre : List Tile) (n : ℕ) (t : Tile) (post : List Tile) : ℕ :=
  if span pre = lfree then firstFree (span pre) (occupy 24 n t ++ post) else lfree

/-- The cursor after an allocation is on a free block or on the end block. -/
lemma lfreeAfter_free (s : Shape h (pre ++ t :: post)) :
    lfreeAfter h.lfree pre n t post ∈ freeStarts 0 (pre ++ (occupy 24 n t ++ post)) ∨
      lfreeAfter h.lfree pre n t post = h.heapEnd := by
  have hcut := s.cut_le
  simp only [span_cons] at hcut
  unfold lfreeAfter
  split
  case isTrue =>
    rcases firstFree_mem (span pre) (occupy 24 n t ++ post) with hmem | hend
    · left
      rw [freeStarts_append, List.mem_append, Nat.zero_add]
      exact .inr hmem
    · right
      rw [hend, span_append, span_occupy, hcut]
  case isFalse hne =>
    rcases s.lfree_free with hmem | hend
    · left
      simp only [freeStarts_append, List.mem_append, mem_freeStarts_cons, Nat.zero_add,
        span_occupy] at hmem ⊢
      rcases hmem with hpre | ⟨-, heq⟩ | hpost
      · exact .inl hpre
      · exact absurd heq.symm hne
      · exact .inr (.inr hpost)
    · exact .inr hend

lemma lfreeAfter_lowest (ht : t.used = false)
    (hpos : ∀ x ∈ pre ++ (occupy 24 n t ++ post), 0 < x.size) (hlow : Lowest h (pre ++ t :: post)) :
    ∀ q ∈ freeStarts 0 (pre ++ (occupy 24 n t ++ post)), lfreeAfter h.lfree pre n t post ≤ q := by
  intro q hq
  have hself : h.lfree ≤ span pre := hlow _ (by simp [ht])
  unfold lfreeAfter
  rw [freeStarts_append, List.mem_append, Nat.zero_add] at hq
  rcases hq with hpre | hrest
  · have hle : h.lfree ≤ q := hlow q (by rw [freeStarts_append, List.mem_append]; exact .inl hpre)
    have hlt := (freeStarts_bounds (fun x hx => hpos x (by simp [hx])) hpre).2
    rw [if_neg (by omega)]
    exact hle
  · have hpos' : ∀ x ∈ occupy 24 n t ++ post, 0 < x.size :=
      fun x hx => hpos x (List.mem_append_right _ hx)
    split
    case isTrue => exact firstFree_le hpos' hrest
    case isFalse =>
      have hge := (freeStarts_bounds hpos' hrest).1
      omega

/-- `rt_malloc` once a block has been taken: the cursor loop ends and the assertions hold. -/
lemma mallocFinish_spec {lf : ℕ} (hwalk : Walk h.mem h.heapEnd 0 0 (pre ++ ts))
    (hlf : lf ∈ freeStarts 0 (pre ++ ts) ∨ lf = h.heapEnd)
    (hcursor : lf = if span pre = h.lfree then firstFree (span pre) ts else h.lfree)
    (htop : h.heapPtr + h.heapEnd + 12 < 2 ^ 32) (hptr : 4 ∣ h.heapPtr)
    (hfit : size + 12 ≤ span ts) :
    mallocFinish h (span pre) size = .ok (h.heapPtr + span pre + 12, { h with lfree := lf }) := by
  have hreach := hwalk.reaches
  rw [span_append] at hreach
  obtain ⟨hpre, hrest⟩ := walk_append.mp hwalk
  have hal := hpre.aligned
  have hlen : ts.length < loopFuel := by
    have := hrest.seg.length_le
    rw [loopFuel]
    omega
  have hadv : (if span pre = h.lfree then lfreeAdvance h loopFuel h.lfree else some h.lfree) =
      some lf := by
    rw [hcursor]
    split
    case isTrue heq =>
      rw [← heq]
      simpa using lfreeAdvance_spec hrest hlen
    case isFalse => rfl
  unfold mallocFinish
  simp only
  rw [hadv]
  -- the assertions at the end of `rt_malloc`
  have hassert : (span pre = h.lfree → lf = h.heapEnd ∨ (header h.mem lf).used = 0) ∧
      h.heapPtr + span pre + sizeofStructMem + size ≤ h.heapPtr + h.heapEnd ∧
      (h.heapPtr + span pre + sizeofStructMem) % rtAlignSize = 0 ∧
      (h.heapPtr + span pre) % rtAlignSize = 0 := by
    simp only [sizeofStructMem_eq, rtAlignSize_eq]
    refine ⟨fun _ => ?_, by omega, by omega, by omega⟩
    rcases hlf with hmem | hend
    · right
      obtain ⟨xs, x, ys, heq, hfree, hpos⟩ := mem_freeStarts.mp hmem
      have hx := (heq ▸ hwalk).block
      rw [hpos, hx.header_eq, hfree]
      rfl
    · exact .inl hend
  simp only [if_pos hassert]
  rw [sizeofStructMem_eq]

/-- What an allocation of `n` bytes, header included, does: it returns the data address of a new
used block at `p` and leaves the other used blocks as they are. The maximum is raised if need be. -/
def Allocated (h : Heap) (ts : List Tile) (n : ℕ) (res : Except Fault (ℕ × Heap)) : Prop :=
  ∃ p k h' ts', res = .ok (h.heapPtr + p + 12, h') ∧ n ≤ k ∧
    (∀ x ∈ extents 0 ts, x.1 ≠ p) ∧ (∀ x, x ∈ extents 0 ts' ↔ x = (p, k) ∨ x ∈ extents 0 ts) ∧
    HeapInv h' ts' ∧ SameRegion h h' ∧ (Lowest h ts → Lowest h' ts') ∧ Counted h ts h' ts' ∧
    h'.maxMem = max h.maxMem h'.usedMem

/-- The heap after `size` bytes of the free block `t` have been taken. -/
def takenHeap (h : Heap) (pre : List Tile) (t : Tile) (post : List Tile) (size : ℕ) : Heap :=
  { h.addUsed (mallocTake h (span pre) size).2 with
    mem := (mallocTake h (span pre) size).1
    lfree := lfreeAfter h.lfree pre (size + 12) t post }

section

variable (inv : HeapInv h (pre ++ t :: post))

include inv

section

variable (ht : t.used = false)

include ht

/-- Taking a free block that was found keeps the invariant. -/
lemma takenHeap_inv (hlo : 12 ≤ size) (hal : 4 ∣ size) (hfit : size + 12 ≤ t.size) :
    HeapInv (takenHeap h pre t post size) (pre ++ (occupy 24 (size + 12) t ++ post)) :=
  ⟨⟨(mallocTake_spec inv.toShape hlo hal hfit).1, inv.end_eq, inv.capacity, inv.top, inv.ptr_aligned,
    lfreeAfter_free inv.toShape⟩, coalesced_occupy inv.coalesced ht⟩

lemma mallocFound_some (hlo : 12 ≤ size) (hal : 4 ∣ size) (hfit : size + 12 ≤ t.size) :
    mallocFound h size (some (some (span pre))) =
      .ok (h.heapPtr + span pre + 12, takenHeap h pre t post size) := by
  have hinv := takenHeap_inv inv ht hlo hal hfit
  have hspan : size + 12 ≤ span (occupy 24 (size + 12) t ++ post) := by
    rw [span_append, span_occupy]
    omega
  exact mallocFinish_spec (h := { h.addUsed (mallocTake h (span pre) size).2 with
      mem := (mallocTake h (span pre) size).1 }) hinv.walk hinv.lfree_free rfl inv.top
    inv.ptr_aligned hspan

/-- The bytes of the block are added. -/
lemma counted_takenHeap (hlo : 12 ≤ size) (hal : 4 ∣ size) (hfit : size + 12 ≤ t.size) :
    Counted h (pre ++ t :: post) (takenHeap h pre t post size)
      (pre ++ (occupy 24 (size + 12) t ++ post)) := by
  intro hused
  have htop := inv.top
  have hbound : _ ≤ h.heapEnd := (takenHeap_inv inv ht hlo hal hfit).usedSpan_le
  change add h.usedMem (mallocTake h (span pre) size).2 = _
  rw [(mallocTake_spec inv.toShape hlo hal hfit).2.2]
  simp only [usedSpan_append, usedSpan_cons, ht, Bool.false_eq_true, if_false] at hused hbound ⊢
  rw [add_of_lt (by omega)]
  omega

/-- What taking a block means for the used blocks. -/
lemma allocated_takenHeap (hlo : 12 ≤ size) (hal : 4 ∣ size) (hfit : size + 12 ≤ t.size) :
    Allocated h (pre ++ t :: post) (size + 12)
      (.ok (h.heapPtr + span pre + 12, takenHeap h pre t post size)) := by
  have hinv := takenHeap_inv inv ht hlo hal hfit
  obtain ⟨k, hk, hfresh, hext⟩ :=
    mem_extents_occupy 0 24 inv.walk.tile_pos hfit ht
  rw [Nat.zero_add] at hfresh hext
  refine ⟨span pre, k, _, _, rfl, hk, hfresh, hext, hinv, ⟨rfl, rfl, rfl⟩,
    fun hlow => lfreeAfter_lowest ht hinv.walk.tile_pos hlow, counted_takenHeap inv ht hlo hal hfit,
    ?_⟩
  change (if h.maxMem < (takenHeap h pre t post size).usedMem then _ else _) = _
  split
  case isTrue hlt => exact (max_eq_right hlt.le).symm
  case isFalse hge => exact (max_eq_left (not_lt.mp hge)).symm

end

end

section

variable (inv : HeapInv h ts)

include inv

lemma HeapInv.lfree_cut : ∃ xs ys, ts = xs ++ ys ∧ h.lfree = span xs := by
  rcases inv.lfree_free with hmem | hend
  · obtain ⟨pre, t, post, rfl, -, hp⟩ := mem_freeStarts.mp hmem
    exact ⟨pre, t :: post, rfl, by rw [hp, Nat.zero_add]⟩
  · exact ⟨ts, [], (List.append_nil ts).symm, by rw [hend, ← inv.walk.reaches, Nat.zero_add]⟩

/-- The search starts at `lfree`, which is a block of the heap, so it ends. It sees the blocks from
there on that start below the bound. -/
lemma mallocSearch_lfree (hsize : size ≤ h.memSizeAligned) :
    ∃ r, mallocSearch h size loopFuel h.lfree = some r ∧
      (∀ p ∈ r, ∃ pre t post, ts = pre ++ t :: post ∧ t.used = false ∧ size + 12 ≤ t.size ∧
        p = span pre ∧ h.lfree ≤ p ∧ p + size < h.memSizeAligned) ∧
      (r = none → ∀ pre t post, ts = pre ++ t :: post → t.used = false → size + 12 ≤ t.size →
        h.lfree ≤ span pre → h.memSizeAligned ≤ span pre + size) := by
  obtain ⟨xs, ys, rfl, hstart⟩ := inv.lfree_cut
  obtain ⟨-, hrest⟩ := walk_append.mp inv.walk
  have htop := inv.top
  have hcut := inv.cut_le
  have hlen : ys.length < loopFuel := by
    have := hrest.seg.length_le
    rw [loopFuel]
    omega
  rw [Nat.zero_add, ← hstart] at hrest
  obtain ⟨r, hr, hfound, hnone⟩ := mallocSearch_spec hrest inv.end_eq (by omega) hsize hlen
  refine ⟨r, hr, fun p hp => ?_, fun hr pre t post hts ht hfit hle => ?_⟩
  · obtain ⟨pre, t, post, rfl, ht, hfit, rfl, hbound⟩ := hfound p hp
    exact ⟨xs ++ pre, t, post, by simp, ht, hfit, by rw [span_append, hstart], by omega, hbound⟩
  · -- the block is one of those from the cursor on
    obtain ⟨zs, rfl, rfl⟩ : ∃ zs, pre = xs ++ zs ∧ ys = zs ++ t :: post := by
      rcases List.append_eq_append_iff.mp hts with ⟨zs, hpre, hys⟩ | ⟨zs, hxs, hys⟩
      · exact ⟨zs, hpre, hys⟩
      · cases zs with
        | nil => exact ⟨[], by rw [hxs, List.append_nil, List.append_nil], hys.symm⟩
        | cons z zs =>
          rw [hstart, hxs, span_append, span_cons] at hle
          have hz : 0 < z.size := inv.walk.tile_pos z (by rw [hxs]; simp)
          omega
    have hbound := hnone hr zs t post rfl ht hfit
    rwa [hstart, ← span_append] at hbound

lemma request_le_capacity (hsize : alignUp size rtAlignSize ≤ h.memSizeAligned) :
    request size ≤ h.memSizeAligned := by
  have hcap := inv.capacity
  unfold request
  rw [minSizeAligned_eq]
  split <;> omega

/-- `rt_malloc` returns. It answers `RT_NULL` and changes nothing, or takes one free block. -/
lemma rtMalloc_cases (size : ℕ) :
    rtMalloc h size = .ok (rtNull, h) ∨ ∃ pre t post, ts = pre ++ t :: post ∧ t.used = false ∧
      request size + 12 ≤ t.size ∧ rtMalloc h size =
        .ok (h.heapPtr + span pre + 12, takenHeap h pre t post (request size)) := by
  unfold rtMalloc
  by_cases hzero : size = 0
  · left; rw [if_pos hzero]
  rw [if_neg hzero]
  by_cases hbig : h.memSizeAligned < alignUp size rtAlignSize
  · left; rw [if_pos hbig]
  rw [if_neg hbig]
  obtain ⟨r, hr, hfound, -⟩ := mallocSearch_lfree inv (request_le_capacity inv (not_lt.mp hbig))
  rw [mallocLocked, hr]
  cases r with
  | none => exact .inl rfl
  | some p =>
    right
    obtain ⟨pre, t, post, rfl, ht, hfit, rfl, -⟩ := hfound p rfl
    exact ⟨pre, t, post, rfl, ht, hfit,
      mallocFound_some inv ht (request_ge size) (request_aligned size) hfit⟩

lemma rtMalloc_spec (size : ℕ) : rtMalloc h size = .ok (rtNull, h) ∨
      Allocated h ts (request size + 12) (rtMalloc h size) := by
  rcases rtMalloc_cases inv size with hnull | ⟨pre, t, post, rfl, ht, hfit, hok⟩
  · exact .inl hnull
  · right
    rw [hok]
    exact allocated_takenHeap inv ht (request_ge size) (request_aligned size) hfit

end

end SmallMem
