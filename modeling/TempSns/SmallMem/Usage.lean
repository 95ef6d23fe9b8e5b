import TempSns.SmallMem.Contents

/-!
# The statistics

`used_mem` counts the bytes of the used blocks, headers included, and `max_mem` the largest value that
`used_mem` has ever had. The largest value is history, so the states of this file carry it (`Traced`):
it is taken at the end of every call, and for a block that `rt_realloc` moves also between the
allocation of the new block and the release of the old one.
-/

namespace SmallMem

open ByteMem Tiling

variable {ts : List Tile}

/-- A state with the largest value that `used_mem` has had. -/
structure Traced where
  state : State
  /-- The largest value of `used_mem` so far. -/
  peak : ℕ

/-- One action of the program, with the values of `used_mem` on the way and at its end. -/
def tracedStep (t : Traced) (c : Call) : Except Fault Traced :=
  (step t.state c).map fun s' =>
    ⟨s', (usedDuring t.state.heap c ++ [s'.heap.usedMem]).foldl max t.peak⟩

/-- The states of the runs whose actions are allowed and satisfy `ok`, from every region that is
accepted. -/
def TracedReach (ok : Call → Prop) : Traced → Prop :=
  Transition.Reach (fun t => Started t.state ∧ t.peak = t.state.heap.usedMem)
    (fun t c => (tracedStep t c).toOption) fun t c => Allowed t.state c ∧ ok c

/-- `used_mem` is the number of bytes in the used blocks, and `max_mem` the largest value it has had. -/
structure StatsOk (t : Traced) : Prop where
  used : ∃ bs, Blocks t.state.heap bs ∧ t.state.heap.usedMem =
    ((bs.filter fun p => (header t.state.heap.mem p).used ≠ 0).map fun p =>
      (header t.state.heap.mem p).next - p).sum
  peak : t.state.heap.maxMem = t.peak

/-- The bytes of the used blocks are those of the used tiles. -/
lemma sum_used {m : Mem} {prv off : ℕ} (w : Seg m prv off ts) :
    (((allStarts off ts).filter fun p => (header m p).used ≠ 0).map fun p =>
      (header m p).next - p).sum = usedSpan ts := by
  induction ts generalizing prv off with
  | nil => rfl
  | cons t ts ih =>
    obtain ⟨hblock, hrest⟩ := w
    have hsum := ih hrest
    rw [allStarts_cons, List.filter_cons, hblock.header_eq, usedSpan_cons]
    cases ht : t.used
    · simpa using hsum
    · simp only [Bool.toNat_true, ne_eq, one_ne_zero, not_false_eq_true, decide_true, if_true,
        List.map_cons, List.sum_cons, hblock.header_eq, Nat.add_sub_cancel_left]
      rw [← hsum]

lemma StatsOk.of_inv {t : Traced} (r : RunInv t.state ts)
    (hused : t.state.heap.usedMem = usedSpan ts) (hpeak : t.state.heap.maxMem = t.peak) : StatsOk t :=
  ⟨⟨_, r.inv.blocks, hused.trans (sum_used r.inv.walk.seg).symm⟩, hpeak⟩

/-! ## Runs -/

/-- The invariant of runs with their history. -/
def TracedInv (t : Traced) : Prop :=
  (∃ ts, RunInv t.state ts ∧ t.state.heap.usedMem = usedSpan ts ∧
      t.state.heap.usedMem ≤ t.state.heap.maxMem ∧ t.state.heap.maxMem = t.peak) ∨
    (TinyState t.state ∧ StatsOk t ∧ t.state.heap.usedMem = t.state.heap.maxMem)

lemma TracedInv.init {t : Traced} (hstart : Started t.state)
    (hpeak : t.peak = t.state.heap.usedMem) : TracedInv t := by
  obtain ⟨⟨heap, live⟩, peak⟩ := t
  obtain ⟨m, beginAddr, endAddr, hinit, rfl⟩ := hstart
  have f := rtSystemHeapInit_fresh endAddr.toNat_lt hinit
  obtain ⟨hused, hmax⟩ := f.stats
  have hsize := f.end_eq
  dsimp only at hused hmax hsize hpeak
  by_cases hcap : 12 ≤ heap.memSizeAligned
  · have r := (RunInv.init hinit hcap).1
    exact .inl ⟨_, r, by dsimp only; rw [hused]; rfl, by dsimp only; rw [hused, hmax],
      by dsimp only; rw [hmax, hpeak, hused]⟩
  · refine .inr ⟨⟨Tiny.of_init endAddr.toNat_lt hinit (by dsimp only; omega), rfl⟩,
      ⟨⟨[0], ⟨rfl, ?_⟩, ?_⟩, by dsimp only; rw [hmax, hpeak, hused]⟩,
      by dsimp only; rw [hmax, hused]⟩
    · refine .cons_cons ⟨?_, by dsimp only; omega⟩ (.singleton _)
      rw [f.start]
    · have hfree := congrArg HeapMem.used f.start
      dsimp only at hfree
      simp [hfree, hused]

lemma TracedInv.step {t t' : Traced} {c : Call} (hI : TracedInv t) (hallowed : Allowed t.state c)
    (hwrap : NoWrap c) (hok : tracedStep t c = .ok t') : TracedInv t' := by
  obtain ⟨s', hstep, rfl⟩ := map_eq_ok.mp hok
  rcases hI with ⟨ts, r, hused, hle, hpeak⟩ | ⟨ht, hstats, hmax⟩
  · obtain ⟨s₁, ts', hstep', r', -, hcount, hmax⟩ := step_inv r hallowed hwrap
    obtain rfl : s' = s₁ := Except.ok.inj (hstep.symm.trans hstep')
    have hmax' := hmax hused hle
    have hle' : s'.heap.usedMem ≤ s'.heap.maxMem := by
      rw [hmax', List.foldl_append]
      exact Nat.le_max_right _ _
    exact .inl ⟨ts', r', hcount hused, hle', by rw [hmax', hpeak]⟩
  · -- nothing happens in a heap without room for a block
    obtain rfl := ht.eq_of_step hallowed hstep
    have hduring : usedDuring t.state.heap c = [] := by
      cases c with
      | realloc rmem newsize =>
        refine if_neg fun hmoves => hmoves.2.2.1 (hallowed.resolve_right fun hlive => ?_)
        rw [ht.live] at hlive
        cases hlive
      | _ => rfl
    have hpeak : t.peak = max t.peak t.state.heap.usedMem := by
      rw [hmax, hstats.peak, max_self]
    rw [hduring]
    change TracedInv ⟨t.state, max t.peak t.state.heap.usedMem⟩
    rw [← hpeak]
    exact .inr ⟨ht, hstats, hmax⟩

/-- In every run whose calls of `rt_calloc` do not wrap, from every region that is accepted: `used_mem` is
the number of bytes in the used blocks, and `max_mem` the largest value it has had. -/
theorem statsOk_of_noWrap {t : Traced} (ht : TracedReach NoWrap t) : StatsOk t := by
  have hinv : TracedInv t := ht.invariant (fun t hstart => .init hstart.1 hstart.2)
    fun t c t' hI hc hstep => hI.step hc.1 hc.2 (toOption_eq_some.mp hstep)
  rcases hinv with ⟨ts, r, hused, -, hpeak⟩ | ⟨-, hstats, -⟩
  · exact .of_inv r hused hpeak
  · exact hstats

lemma TracedReach.of_run (ok : Call → Prop) [DecidablePred ok] (beginAddr endAddr : UInt32)
    (cs : List Call) (P : Traced → Prop) [DecidablePred P]
    (hrun : ((rtSystemHeapInit (fun _ => 0) beginAddr.toNat endAddr.toNat).bind fun h =>
      Transition.run (fun t c => (tracedStep t c).toOption)
        (fun t c => decide (Allowed t.state c ∧ ok c)) ⟨⟨h, fun _ => none⟩, h.usedMem⟩ cs).any
          (fun t => decide (P t)) = true) :
    ∃ t, TracedReach ok t ∧ P t := by
  obtain ⟨t, ht, hP⟩ := (Option.any_eq_true _ _).mp hrun
  obtain ⟨h, hinit, hcalls⟩ := Option.bind_eq_some_iff.mp ht
  have hstart : TracedReach ok ⟨⟨h, fun _ => none⟩, h.usedMem⟩ :=
    .init ⟨⟨_, _, _, hinit, rfl⟩, rfl⟩
  exact ⟨t, hstart.run (fun t c hc => of_decide_eq_true hc) hcalls, of_decide_eq_true hP⟩

/-- A block that moves: for a moment both blocks are counted. -/
theorem statsOk_after_move : ∃ t, TracedReach NoWrap t ∧ StatsOk t ∧
    t.state.heap.usedMem = 52 ∧ t.peak = 84 := by
  obtain ⟨t, ht, hused, hpeak⟩ := TracedReach.of_run NoWrap 0x20000000 0x20000100
    [.malloc 20, .realloc 0x2000000c 40] (fun t => t.state.heap.usedMem = 52 ∧ t.peak = 84)
    (by decide +kernel)
  exact ⟨t, ht, statsOk_of_noWrap ht, hused, hpeak⟩

/-- After `rt_calloc(1, 0xffffffff)` the blocks no longer lead to the end block. -/
theorem not_statsOk_wrapped : ∃ t, TracedReach (fun _ => True) t ∧ ¬ StatsOk t := by
  obtain ⟨t, ht, h0, h24, hend⟩ := TracedReach.of_run (fun _ => True) 0x20000000 0x20000100
    [.calloc 1 0xffffffff] (fun t => (header t.state.heap.mem 0).next = 24 ∧
      (header t.state.heap.mem 24).next = 0 ∧ t.state.heap.heapEnd = 244) (by decide +kernel)
  refine ⟨t, ht, fun hstats => ?_⟩
  obtain ⟨bs, hb, -⟩ := hstats.used
  have hmem : 24 ∈ bs := by
    have hnext := (hb.next_mem hb.zero_mem).2
    rw [h0] at hnext
    exact hnext.resolve_right (by omega)
  have hlt := (hb.next_mem hmem).1
  omega

end SmallMem
