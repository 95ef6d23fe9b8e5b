import TempSns.SmallMem.Runs

/-!
# Safety of the allocator

Every action of a run returns and keeps `RunInv`, as long as no `rt_calloc` asks for a number of
bytes that rounding up wraps to zero (`step_inv`). By induction over runs the heap stays well
formed, and `lfree` stays on the lowest free block if every shortening in place leaves it there.
Without the two conditions the properties fail, as the two runs at the end of each section show.
-/

namespace SmallMem

open ByteMem Tiling Function Word32

variable {s : State} {ts : List Tile} {ok : State → Call → Prop} {rmem newsize : UInt32}
  {cursor : Prop} {h : Heap}

/-- The product of `rt_calloc` can be rounded up to the alignment without wrapping. -/
def NoWrap : Call → Prop
  | .calloc count size => mul count.toNat size.toNat ≤ 0xfffffffc
  | _ => True

instance (c : Call) : Decidable (NoWrap c) :=
  match c with
  | .calloc count size => inferInstanceAs (Decidable (mul count.toNat size.toNat ≤ 0xfffffffc))
  | .malloc _ | .realloc _ _ | .free _ | .write _ _ _ => .isTrue trivial

/-- If the action shortens a block in place, `lfree` is below the block or on the free block right
behind it. -/
def KeepsCursor (s : State) : Call → Prop
  | .realloc rmem newsize => rmem.toNat ≠ rtNull → reallocSplits s.heap rmem.toNat newsize.toNat →
      SplitKeepsCursor s.heap (blockOf s.heap rmem.toNat)
  | _ => True

instance (s : State) (c : Call) : Decidable (KeepsCursor s c) :=
  match c with
  | .realloc _ _ => inferInstanceAs (Decidable (_ → _ → _))
  | .malloc _ | .calloc _ _ | .free _ | .write _ _ _ => .isTrue trivial

/-- The values that `used_mem` has during a call: between the `rt_malloc` and the `rt_free` of
`rt_realloc`. -/
def usedDuring (h : Heap) : Call → List ℕ
  | .realloc rmem newsize =>
    if reallocMoves h rmem.toNat newsize.toNat then
      match rtMalloc h (alignUp newsize.toNat rtAlignSize) with
      | .ok x => [x.2.usedMem]
      | .error _ => []
    else []
  | _ => []

/-! ## Step lemma -/

/-- What a step guarantees: it returns, the invariant holds again, `lfree` stays lowest under
the condition `cursor`, and the statistics follow, where `during` are the values of `used_mem` on the
way. -/
def Kept (s : State) (ts : List Tile) (cursor : Prop) (during : List ℕ)
    (res : Except Fault State) : Prop :=
  ∃ s' ts', res = .ok s' ∧ RunInv s' ts' ∧
    (cursor → Lowest s.heap ts → Lowest s'.heap ts') ∧ Counted s.heap ts s'.heap ts' ∧
    (s.heap.usedMem = usedSpan ts → s.heap.usedMem ≤ s.heap.maxMem →
      s'.heap.maxMem = (during ++ [s'.heap.usedMem]).foldl max s.heap.maxMem)

/-- The maximum does not change if no used block was added. -/
lemma max_of_usedSpan_le {h h' : Heap} {ts' : List Tile} (hcount : Counted h ts h' ts')
    (hmax : h'.maxMem = h.maxMem) (hle : usedSpan ts' ≤ usedSpan ts) (hused : h.usedMem = usedSpan ts)
    (hpeak : h.usedMem ≤ h.maxMem) : h'.maxMem = max h.maxMem h'.usedMem := by
  rw [hmax, hcount hused]
  exact (max_eq_left (by omega)).symm

lemma Kept.of_unchanged (r : RunInv s ts) : Kept s ts cursor [] (.ok s) :=
  ⟨s, ts, rfl, r, fun _ hl => hl, fun hused => hused, fun _ hpeak => (max_eq_left hpeak).symm⟩

/-- Recording the result of an allocation that had room for the requested bytes. -/
lemma RunInv.alloc (r : RunInv s ts) {res : Except Fault (ℕ × Heap)} {n size : ℕ}
    (hres : res = .ok (rtNull, s.heap) ∨ Allocated s.heap ts n res)
    (hroom : size ≤ 0xfffffffc → size + 12 ≤ n) :
    Kept s ts cursor [] (res.map fun x => ⟨x.2, record s.live x.1 size⟩) := by
  rcases hres with rfl | ⟨p, k, h', ts', rfl, hk, hfresh, hext, hinv, hsame, hlow, hcount, hmax⟩
  · exact .of_unchanged r
  · have hnull : s.heap.heapPtr + p + 12 ≠ rtNull := by simp
    refine ⟨_, ts', rfl, ⟨hinv, ?_⟩, fun _ => hlow, hcount, fun _ _ => hmax⟩
    have hset : {x | x ∈ extents 0 ts'} = insert (p, k) {x | x ∈ extents 0 ts} := Set.ext hext
    simp only [record, if_neg hnull, hsame.heapPtr, hset]
    exact r.tracks.insert (data_injective _) hfresh fun hn => (hroom hn).trans hk

lemma le_request {size : ℕ} (hsize : size ≤ 0xfffffffc) : size + 12 ≤ request size + 12 :=
  Nat.add_le_add_right ((le_alignUp hsize).trans (alignUp_le_request size)) 12

lemma RunInv.live_block (r : RunInv s ts) {a : ℕ} (ha : (s.live a).isSome) :
    ∃ p n, (p, n) ∈ extents 0 ts ∧ a = s.heap.heapPtr + p + 12 :=
  (r.tracks.live_iff a).mp ha

lemma RunInv.live_null (r : RunInv s ts) : s.live rtNull = none := by
  by_contra hlive
  obtain ⟨p, n, -, heq⟩ := r.live_block (Option.isSome_iff_ne_none.mpr hlive)
  simp at heq

lemma RunInv.step_free (r : RunInv s ts) {rmem : ℕ}
    (hlive : rmem = rtNull ∨ (s.live rmem).isSome) :
    Kept s ts True [] ((rtFree s.heap rmem).map fun h => ⟨h, update s.live rmem none⟩) := by
  rcases hlive with rfl | hlive
  · have hsame : update s.live rtNull none = s.live := by
      rw [← r.live_null, update_eq_self]
    simpa only [rtFree, if_true, Except.map, hsame] using Kept.of_unchanged r
  · obtain ⟨p, n, hp, rfl⟩ := r.live_block hlive
    obtain ⟨pre, post, rfl, hpos⟩ := mem_extents.mp hp
    rw [Nat.zero_add] at hpos
    subst hpos
    obtain ⟨h', ts', hok, hinv, hext, hsame, hlow, -, hcount, hmax, hle⟩ := rtFree_spec r.inv
    rw [hok]
    refine ⟨_, ts', rfl, ⟨hinv, ?_⟩, fun _ => hlow, hcount, max_of_usedSpan_le hcount hmax hle⟩
    have hset : {x | x ∈ extents 0 ts'} =
        {x ∈ {x | x ∈ extents 0 (pre ++ ⟨n, true⟩ :: post)} | x.1 ≠ span pre} := Set.ext hext
    simp only [hsame.heapPtr, hset]
    exact r.tracks.erase (data_injective _) (span pre)

lemma usedDuring_realloc (hstays : ¬ reallocMoves h rmem.toNat newsize.toNat) :
    usedDuring h (.realloc rmem newsize) = [] :=
  if_neg hstays

lemma RunInv.step_realloc (r : RunInv s ts)
    (hlive : rmem.toNat = rtNull ∨ (s.live rmem.toNat).isSome) :
    Kept s ts (rmem.toNat ≠ rtNull → reallocSplits s.heap rmem.toNat newsize.toNat →
        SplitKeepsCursor s.heap (blockOf s.heap rmem.toNat))
      (usedDuring s.heap (.realloc rmem newsize)) ((rtRealloc s.heap rmem.toNat newsize.toNat).map
        (reallocRecord s rmem.toNat newsize.toNat)) := by
  have halign : newsize.toNat ≤ 0xfffffffc →
      newsize.toNat + 12 ≤ alignUp newsize.toNat rtAlignSize + 12 :=
    fun hn => Nat.add_le_add_right (le_alignUp hn) 12
  by_cases hzero : alignUp newsize.toNat rtAlignSize = 0
  · -- a release
    obtain ⟨s', ts', hok, hinv, hlow, hstats⟩ := r.step_free hlive
    rw [usedDuring_realloc fun hmoves => hmoves.2.1 hzero]
    refine ⟨s', ts', ?_, hinv, fun _ => hlow trivial, hstats⟩
    rw [rtRealloc_zero hzero, ← hok]
    cases rtFree s.heap rmem.toNat <;>
      simp only [Except.map, reallocRecord, record, hzero, ne_eq, not_true_eq_false, and_false,
        if_false, if_true]
  rcases hlive with hnull | hlive
  · -- an allocation
    rw [usedDuring_realloc fun hmoves => hmoves.2.2.1 hnull, hnull]
    have hsame : update s.live rtNull none = s.live := by
      rw [← r.live_null, update_eq_self]
    have hrec : reallocRecord s rtNull newsize.toNat =
        fun x => ⟨x.2, record s.live x.1 newsize.toNat⟩ := by
      funext x
      simp only [reallocRecord, hsame, record]
      split <;> simp_all
    rw [hrec]
    refine r.alloc ((rtRealloc_null r.inv newsize.toNat).imp_right And.right) fun hn => ?_
    have hreq := le_request_of_aligned (alignUp_aligned newsize.toNat)
      (show alignUp newsize.toNat rtAlignSize < 2 ^ 32 by rw [alignUp_four]; omega)
    have := halign hn
    omega
  · obtain ⟨p, n, hp, heq⟩ := r.live_block hlive
    rw [heq]
    have hp0 : s.heap.heapPtr + p + 12 ≠ rtNull := by simp
    rcases rtRealloc_spec r.inv hp hzero with ⟨hnull, hmalloc⟩ |
      ⟨q, k, h', ts', hok, hk, hfresh, hext, hinv, hsame, hlow, -, hcount, hpeak⟩
    · rw [hnull]
      refine ⟨s, ts, ?_, r, fun _ hl => hl, fun hused => hused, fun _ hpeak => ?_⟩
      · simp only [Except.map, reallocRecord, hzero, ne_eq, not_false_eq_true, and_true, if_true]
      · simp only [usedDuring, heq]
        split
        case isTrue hmoves =>
          rw [hmalloc hmoves]
          simp [hpeak]
        case isFalse => exact (max_eq_left hpeak).symm
    · have hq : s.heap.heapPtr + q + 12 ≠ rtNull := by simp
      obtain ⟨pre, post, rfl, hpos⟩ := mem_extents.mp hp
      rw [Nat.zero_add] at hpos
      subst hpos
      rw [hok]
      refine ⟨_, ts', rfl, ⟨hinv, ?_⟩, fun hcursor => hlow fun hsplit => ?_, hcount,
        fun hused hmax => ?_⟩
      · have hset : {x | x ∈ extents 0 ts'} = insert (q, k)
            {x ∈ {x | x ∈ extents 0 (pre ++ ⟨n, true⟩ :: post)} | x.1 ≠ span pre} := Set.ext hext
        simp only [reallocRecord, record, hq, false_and, if_false, hsame.heapPtr, hset]
        exact (r.tracks.erase (data_injective _) (span pre)).insert (data_injective _)
          (fun x hx => hfresh x hx.1 hx.2) fun hn => (halign hn).trans hk
      · have hkeep := hcursor hp0 hsplit
        rwa [(data_address r.inv.toShape).2.2.2] at hkeep
      · change h'.maxMem = (usedDuring s.heap _ ++ [h'.usedMem]).foldl max s.heap.maxMem
        simp only [usedDuring, heq]
        rcases hpeak with ⟨hmoves, r₁, h₁, hmalloc, hmax', hle⟩ | ⟨hstays, hmax', hle⟩
        · rw [if_pos hmoves, hmalloc]
          change _ = max (max s.heap.maxMem h₁.usedMem) h'.usedMem
          rw [hmax', max_eq_left ((hle hused).trans (le_max_right _ _))]
        · rw [if_neg hstays]
          exact max_of_usedSpan_le hcount hmax' hle hused hmax

lemma RunInv.step_write (r : RunInv s ts) {base addr : ℕ} (v : ℕ) (hlive : (s.live base).isSome)
    (hlo : base ≤ addr) (hhi : addr < userEnd s.heap base) :
    Kept s ts True [] (.ok { s with heap := { s.heap with
      mem := store s.heap.mem (addr - s.heap.heapPtr) 1 v } }) := by
  obtain ⟨p, n, hp, rfl⟩ := r.live_block hlive
  rw [userEnd_eq r.inv hp] at hhi
  exact ⟨_, ts, rfl, ⟨r.inv.write_data hp (store_agreeOff _ _ _ _) (by omega) (by omega), r.tracks⟩,
    fun _ hl => hl, fun hused => hused, fun _ hpeak => (max_eq_left hpeak).symm⟩

/-- One step: every allowed action that does not wrap returns and keeps the invariant. -/
lemma step_inv (r : RunInv s ts) {c : Call} (hallowed : Allowed s c) (hwrap : NoWrap c) :
    Kept s ts (KeepsCursor s c) (usedDuring s.heap c) (step s c) := by
  cases c with
  | malloc size => exact r.alloc (rtMalloc_spec r.inv _) le_request
  | calloc count size =>
    refine r.alloc (rtCalloc_spec r.inv hwrap) fun hn => ?_
    have hmul : mul count.toNat size.toNat = count.toNat * size.toNat := by
      rw [mul]
      exact Nat.mod_eq_of_lt (by omega)
    rw [hmul]
    exact le_request hn
  | realloc rmem newsize => exact r.step_realloc hallowed
  | free rmem => exact r.step_free hallowed
  | write base addr v => exact r.step_write v.toNat hallowed.1 hallowed.2.1 hallowed.2.2

/-! ## Runs -/

lemma RunInv.init {m : Mem} {beginAddr endAddr : UInt32}
    (hinit : rtSystemHeapInit m beginAddr.toNat endAddr.toNat = some h)
    (hcap : 12 ≤ h.memSizeAligned) :
    RunInv ⟨h, fun _ => none⟩ [⟨h.heapEnd, false⟩] ∧ Lowest h [⟨h.heapEnd, false⟩] := by
  obtain ⟨hinv, hlfree⟩ := rtSystemHeapInit_inv endAddr.toNat_lt hinit hcap
  refine ⟨⟨hinv, ⟨fun a => ?_, fun p k n hp => ?_⟩⟩, fun q _ => ?_⟩
  · simp [extents]
  · simp [extents] at hp
  · rw [hlfree]
    exact Nat.zero_le q

/-- The invariant holds along every run without a wrapping `rt_calloc`. -/
lemma reach_inv (hok : ∀ s c, ok s c → NoWrap c) (hs : Reach ok s) : ∃ ts, RunInv s ts := by
  induction hs with
  | init hinit hcap => exact ⟨_, (RunInv.init hinit hcap).1⟩
  | step _ hallowed hc hstep ih =>
    obtain ⟨ts, r⟩ := ih
    obtain ⟨s', ts', hok', r', -⟩ := step_inv r hallowed (hok _ _ hc)
    obtain rfl : _ = s' := Except.ok.inj (hstep.symm.trans hok')
    exact ⟨ts', r'⟩

/-- In addition `lfree` is lowest along every run whose shortenings keep it so. -/
lemma reach_lowest (hok : ∀ s c, ok s c → NoWrap c ∧ KeepsCursor s c) (hs : Reach ok s) :
    ∃ ts, RunInv s ts ∧ Lowest s.heap ts := by
  induction hs with
  | init hinit hcap => exact ⟨_, RunInv.init hinit hcap⟩
  | step _ hallowed hc hstep ih =>
    obtain ⟨ts, r, hl⟩ := ih
    obtain ⟨hwrap, hcursor⟩ := hok _ _ hc
    obtain ⟨s', ts', hok', r', hlow, -⟩ := step_inv r hallowed hwrap
    obtain rfl : _ = s' := Except.ok.inj (hstep.symm.trans hok')
    exact ⟨ts', r', hlow hcursor hl⟩

/-- In every run whose calls of `rt_calloc` do not wrap, every state reached is well formed, and
every further such action returns. -/
theorem wellFormed_of_noWrap (hs : Reach (fun _ c => NoWrap c) s) :
    WellFormed s ∧ ∀ c, Allowed s c → NoWrap c → ∃ s', step s c = .ok s' := by
  obtain ⟨ts, r⟩ := reach_inv (fun _ _ hc => hc) hs
  refine ⟨r.wellFormed, fun c hallowed hwrap => ?_⟩
  obtain ⟨s', -, hok, -⟩ := step_inv r hallowed hwrap
  exact ⟨s', hok⟩

theorem wellFormed_after_shrink_and_clear :
    ∃ s, Reach (fun _ c => NoWrap c) s ∧ WellFormed s ∧ s.live 0x2000001c = some 6 := by
  obtain ⟨s, hs, hlive⟩ := reach_of_run (fun _ c => NoWrap c) (fun _ => 0) 0x20000000 0x20000100
    [.malloc 100, .realloc 0x2000000c 4, .calloc 2 3, .free 0x2000000c]
    (fun s => s.live 0x2000001c = some 6) (by decide +kernel)
  exact ⟨s, hs, (wellFormed_of_noWrap hs).1, hlive⟩

/-- `rt_calloc(1, 0xffffffff)` gets a block of twelve bytes and clears the header behind it, so
that `next` no longer leads to the end block. -/
theorem calloc_wrap_not_wellFormed : ∃ s, Reach (fun _ _ => True) s ∧ ¬ WellFormed s := by
  obtain ⟨s, hs, h0, h24, hend⟩ := reach_of_run (fun _ _ => True) (fun _ => 0) 0x20000000
    0x20000100 [.calloc 1 0xffffffff]
    (fun s => (header s.heap.mem 0).next = 24 ∧ (header s.heap.mem 24).next = 0 ∧
      s.heap.heapEnd = 244) (by decide +kernel)
  refine ⟨s, hs, fun hw => ?_⟩
  obtain ⟨bs, hb, -⟩ := hw.blocks
  have hmem : 24 ∈ bs := by
    have hnext := (hb.next_mem hb.zero_mem).2
    rw [h0] at hnext
    exact hnext.resolve_right (by omega)
  have hlt := (hb.next_mem hmem).1
  omega

/-- When everything has been freed, the heap is one free block again. -/
theorem header_of_noneLive (hs : Reach (fun _ c => NoWrap c) s) (hnone : ∀ a, s.live a = none) :
    header s.heap.mem 0 = ⟨heapMagic, 0, s.heap.heapEnd, 0⟩ := by
  obtain ⟨ts, inv, tracks⟩ := reach_inv (fun _ _ hc => hc) hs
  have hreaches := inv.walk.reaches
  have hcapacity := inv.capacity
  have hend := inv.end_eq
  have hne : ts ≠ [] := by
    rintro rfl
    simp at hreaches
    omega
  obtain ⟨n, rfl⟩ := inv.coalesced.eq_singleton (tracks.notMem hnone) hne
  have hblock := (seg_cons.mp inv.walk.seg).1.header_eq
  simp at hreaches hblock
  rwa [hreaches] at hblock

/-- Two blocks are allocated and both are freed. -/
theorem header_of_noneLive_freed : ∃ s : State, header s.heap.mem 0 = ⟨heapMagic, 0, 244, 0⟩ := by
  obtain ⟨s, hs, hptr, hend, hfreed⟩ := reach_of_run (fun _ c => NoWrap c) (fun _ => 0) 0x20000000
    0x20000100 [.malloc 100, .malloc 50, .free 0x2000000c, .free 0x2000007c]
    (fun s => s.heap.heapPtr = 0x20000000 ∧ s.heap.heapEnd = 244 ∧
      ∀ i : Fin 244, s.live (0x20000000 + i) = none) (by decide +kernel)
  have hnone : ∀ a, s.live a = none := by
    intro a
    -- a live block would lie inside the heap
    by_contra hlive
    obtain ⟨ts, r⟩ := reach_inv (fun _ _ hc => hc) hs
    obtain ⟨hle, hlt, hin⟩ := r.wellFormed.inside a (Option.isSome_iff_ne_none.mpr hlive)
    obtain ⟨i, rfl⟩ := Nat.exists_eq_add_of_le (hptr ▸ hle)
    exact hlive (hfreed ⟨i, by omega⟩)
  exact ⟨s, hend ▸ header_of_noneLive hs hnone⟩

/-! ## Cursor -/

/-- In every run whose calls of `rt_calloc` do not wrap and whose shortenings in place find `lfree`
below the block or on the free block behind it, `lfree` is the lowest free block. -/
theorem lfreeLowest_of_keepsCursor (hs : Reach (fun s c => NoWrap c ∧ KeepsCursor s c) s) :
    LfreeLowest s.heap := by
  obtain ⟨ts, r, hlow⟩ := reach_lowest (fun _ _ hc => hc) hs
  exact r.inv.lfreeLowest hlow

theorem lfreeLowest_after_shrink :
    ∃ s, Reach (fun s c => NoWrap c ∧ KeepsCursor s c) s ∧ LfreeLowest s.heap ∧
      s.heap.lfree = 16 := by
  obtain ⟨s, hs, hlfree⟩ := reach_of_run (fun s c => NoWrap c ∧ KeepsCursor s c) (fun _ => 0)
    0x20000000 0x20000100 [.malloc 100, .realloc 0x2000000c 4] (fun s => s.heap.lfree = 16)
    (by decide +kernel)
  exact ⟨s, hs, lfreeLowest_of_keepsCursor hs, hlfree⟩

/-- Shortening the first of two blocks frees its tail below `lfree`, which stays above it. -/
theorem shrink_not_lfreeLowest : ∃ s, Reach (fun _ _ => True) s ∧ ¬ LfreeLowest s.heap := by
  obtain ⟨s, hs, h0, hfree, hlfree, hend⟩ := reach_of_run (fun _ _ => True) (fun _ => 0)
    0x20000000 0x20000100 [.malloc 100, .malloc 8, .realloc 0x2000000c 4]
    (fun s => (header s.heap.mem 0).next = 16 ∧ (header s.heap.mem 16).used = 0 ∧
      s.heap.lfree = 136 ∧ s.heap.heapEnd = 244) (by decide +kernel)
  refine ⟨s, hs, fun ⟨bs, hb, hcase⟩ => ?_⟩
  have hmem : 16 ∈ bs := by
    have hnext := (hb.next_mem hb.zero_mem).2
    rw [h0] at hnext
    exact hnext.resolve_right (by omega)
  rcases hcase with ⟨-, -, hlow⟩ | ⟨hlf, -⟩
  · have := hlow 16 hmem hfree
    omega
  · omega

end SmallMem
