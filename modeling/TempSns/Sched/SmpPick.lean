import TempSns.Sched.Smp

/-!
# The choice of the next thread on one of several cores

`_get_highest_priority_thread` of `src/scheduler.c` with `RT_USING_SMP`. It looks up the highest ready
priority of the global queue and of the queue of the core and takes the better one. If one of the
queues is empty, `__rt_ffs` of its group is 0, and `number` is `0 - 1`: the look-up in the row of this
number is outside the table.
-/

namespace Sched.Smp

open Links Word32

variable {T : Type} {prioMax cpus c : ℕ} {k : Kernel T} {lists : Head → List T} {t : T}

def ReadyMap.highestReadyPriority (prioMax : ℕ) (r : ReadyMap) : Except Fault ℕ :=
  let number := sub (rtFfs r.group) 1
  if 32 < prioMax then
    if number < 32 then
      .ok (sub (add (mul number 8) (rtFfs ((r.table number).setWidth 32))) 1)
    else .error .badIndex
  else .ok number

/-- `_get_highest_priority_thread` on the core `c`, whose current thread is `current`. -/
def getHighestPriorityThread (prioMax : ℕ) (k : Kernel T) (c : ℕ) (current : T) :
    Except Fault (T × ℕ) :=
  let pcpu := k.cpu c
  if 32 < prioMax ∧ k.ready.group = 0 ∧ pcpu.group = 0 then .ok (current, k.prio current)
  else do
    let highest ← k.ready.highestReadyPriority prioMax
    let localHighest ← pcpu.highestReadyPriority prioMax
    let (head, p) :=
      if highest < localHighest then (Head.ready highest, highest)
      else (Head.cpu c localHighest, localHighest)
    if p < prioMax then
      match k.links.next (.head head) with
      | .item t => .ok (t, p)
      | .head _ => .error .badPointer
    else .error .badIndex

/-- The thread is the first one of the best priority of both queues, and no index is out of range. -/
def PicksBest (prioMax : ℕ) (k : Kernel T) (c : ℕ) (current : T) : Prop :=
  ∃ t p, getHighestPriorityThread prioMax k c current = .ok (t, p) ∧
    (k.links.next (.head (.ready p)) = .item t ∨ k.links.next (.head (.cpu c p)) = .item t) ∧
    ∀ q, ¬ k.links.isEmpty (.head (.ready q)) ∨ ¬ k.links.isEmpty (.head (.cpu c q)) → p ≤ q

lemma Inv.bitmap_cpu (inv : Inv prioMax cpus k lists) (hexact : CoresExact prioMax cpus k)
    (h32 : 32 < prioMax) (hc : c < cpus) :
    Bitmap prioMax (k.cpu c).group (k.cpu c).table {p | lists (.cpu c p) ≠ []} := by
  have hbound : ∀ p ∈ {p | lists (.cpu c p) ≠ []}, p < prioMax ∧ p < 256 := fun p hp => by
    obtain ⟨u, hu⟩ := ne_nil_iff_exists_mem.mp hp
    have hhome := inv.home _ u hu
    unfold Kernel.home at hhome
    split at hhome
    · cases hhome
    · rw [(Head.cpu.inj hhome).2]
      exact ⟨(inv.legal u).prio, (k.thread u).currentPriority.toNat_lt⟩
  refine ⟨hbound, fun hle => absurd h32 (by omega), fun _ p hp => inv.row c hc p hp, fun _ n => ?_⟩
  by_cases hn : n < 32
  · rw [hexact.group c hc n hn]
    exact (and_iff_right hn).symm
  · rw [BitVec.getLsbD_of_ge _ n (by omega)]
    simp [hn]

lemma highestReadyPriority_of_bitmap {r : ReadyMap} {S : Set ℕ} (h32 : 32 < prioMax)
    (b : Bitmap prioMax r.group r.table S) :
    (S = ∅ ∧ r.group = 0 ∧ r.highestReadyPriority prioMax = .error .badIndex) ∨
      (r.group ≠ 0 ∧ ∃ p ∈ S, r.highestReadyPriority prioMax = .ok p ∧ ∀ q ∈ S, p ≤ q) := by
  by_cases hzero : r.group = 0
  · refine .inl ⟨b.group_eq_zero.mp hzero, hzero, ?_⟩
    -- `__rt_ffs(0) - 1` is the greatest number
    have hindex : ¬ sub (rtFfs 0) 1 < 32 := by decide +kernel
    rw [ReadyMap.highestReadyPriority, hzero, if_pos h32, if_neg hindex]
  · let k : Sched.Kernel Unit := ⟨fun _ => freshThread 0, ⟨id, id⟩, r.group, r.table, 0, none⟩
    obtain ⟨p, hp, hmem, hmin⟩ := highestReadyPriority_spec (k := k) b hzero
    exact .inr ⟨hzero, p, hmem, hp, hmin⟩

lemma Inv.ne_nil_iff (inv : Inv prioMax cpus k lists) {j : Head} :
    lists j ≠ [] ↔ ¬ k.links.isEmpty (.head j) := by
  rw [inv.rep.isEmpty_iff]

lemma Inv.next_head (inv : Inv prioMax cpus k lists) {j : Head} (hj : lists j ≠ []) :
    ∃ t, k.links.next (.head j) = .item t := by
  obtain ⟨t, ts, hts⟩ := List.exists_cons_of_ne_nil hj
  exact ⟨t, inv.rep.next_head hts⟩

/-- With an empty queue the look-up fails. -/
lemma getHighestPriorityThread_error {e : Fault} {current : T}
    (hne : ¬ (k.ready.group = 0 ∧ (k.cpu c).group = 0))
    (herr : k.ready.highestReadyPriority prioMax = .error e ∨
      (∃ p, k.ready.highestReadyPriority prioMax = .ok p) ∧
        (k.cpu c).highestReadyPriority prioMax = .error e) :
    getHighestPriorityThread prioMax k c current = .error e := by
  rw [getHighestPriorityThread, if_neg fun h => hne h.2]
  rcases herr with herr | ⟨⟨p, hp⟩, herr⟩
  · rw [herr]
    rfl
  · rw [hp, ok_bind, herr]
    rfl

/-- In every state with exact bitmaps and a ready thread: the choice is right and within the tables
exactly if neither queue is empty. -/
theorem picksBest_iff (h32 : 32 < prioMax) (hc : c < cpus) (inv : Inv prioMax cpus k lists)
    (hexact : CoresExact prioMax cpus k) (current : T)
    (hready : (∃ p, ¬ k.links.isEmpty (.head (.ready p))) ∨
      ∃ p, ¬ k.links.isEmpty (.head (.cpu c p))) :
    PicksBest prioMax k c current ↔
      (∃ p, ¬ k.links.isEmpty (.head (.ready p))) ∧ ∃ p, ¬ k.links.isEmpty (.head (.cpu c p)) := by
  have hbitmap := inv.bitmap_cpu hexact h32 hc
  simp only [← inv.ne_nil_iff] at hready ⊢
  have hglobal := highestReadyPriority_of_bitmap h32 inv.ready
  have hlocal := highestReadyPriority_of_bitmap h32 hbitmap
  rcases hglobal with ⟨hempty, hzero, herr⟩ | ⟨hgroup, p, hp, hok, hmin⟩
  · -- no thread that is not bound is ready
    have hnone : ¬ ∃ p, lists (.ready p) ≠ [] := fun ⟨p, hp⟩ => by
      have hmem : p ∈ ({p | lists (.ready p) ≠ []} : Set ℕ) := hp
      rw [hempty] at hmem
      exact hmem
    obtain ⟨q, hq⟩ := hready.resolve_left hnone
    have hne : (k.cpu c).group ≠ 0 := fun heq => by
      have hmem : q ∈ ({p | lists (.cpu c p) ≠ []} : Set ℕ) := hq
      rw [hbitmap.group_eq_zero.mp heq] at hmem
      exact hmem
    refine ⟨fun ⟨t, p, hget, _⟩ => ?_, fun h => absurd h.1 hnone⟩
    rw [getHighestPriorityThread_error (fun h => hne h.2) (.inl herr)] at hget
    cases hget
  have hready' : ∃ p, lists (.ready p) ≠ [] := ⟨p, hp⟩
  rcases hlocal with ⟨hempty, hzero, herr⟩ | ⟨hgroup', q, hq, hok', hmin'⟩
  · -- no thread of the core is ready
    refine ⟨fun ⟨t, p, hget, _⟩ => ?_, fun ⟨_, q, hq⟩ => ?_⟩
    · rw [getHighestPriorityThread_error (fun h => hgroup h.1) (.inr ⟨⟨_, hok⟩, herr⟩)] at hget
      cases hget
    · have hmem : q ∈ ({p | lists (.cpu c p) ≠ []} : Set ℕ) := hq
      rw [hempty] at hmem
      exact hmem.elim
  · refine ⟨fun _ => ⟨hready', q, hq⟩, fun _ => ?_⟩
    obtain ⟨t, ht⟩ := inv.next_head hp
    obtain ⟨u, hu⟩ := inv.next_head hq
    unfold PicksBest getHighestPriorityThread
    rw [if_neg fun h => hgroup h.2.1, hok, ok_bind, hok', ok_bind]
    simp only [← inv.ne_nil_iff]
    by_cases hlt : p < q
    · rw [if_pos hlt]
      simp only [(inv.ready.bound p hp).1, if_true, ht]
      refine ⟨t, p, rfl, .inl ht, fun r hr => ?_⟩
      rcases hr with hr | hr
      · exact hmin r hr
      · exact hlt.le.trans (hmin' r hr)
    · rw [if_neg hlt]
      simp only [(hbitmap.bound q hq).1, if_true, hu]
      refine ⟨u, q, rfl, .inr hu, fun r hr => ?_⟩
      rcases hr with hr | hr
      · exact (not_lt.mp hlt).trans (hmin r hr)
      · exact hmin' r hr

/-- A thread of the priority 9 that is not bound, and one of the priority 8 for core 0. -/
def pairThread (t : Bool) : SmpThread where
  toThread := (freshThread 0).setPriority 64 (if t then 9 else 8)
  bindCpu := if t then 2 else 0
  oncpu := 2

lemma legal_pairThread (t : Bool) : Legal 64 2 (pairThread t) := by
  refine ⟨by cases t <;> decide, ?_, attrs_setPriority _ _⟩
  rw [pairThread, setPriority_currentPriority]
  cases t <;> decide

/-- The steps that insert a thread which is in no list. -/
def insertsNew (k : Kernel Bool) : Op Bool → Bool
  | .insert _ t => decide (k.links.next (.item t) = .item t)
  | _ => false

lemma exists_inserts (ops : List (Op Bool)) {F : Kernel Bool → Prop} [DecidablePred F]
    (hrun : (Transition.run (fun k op => (step 64 2 k op).toOption) insertsNew
      (rtSystemSchedulerInit pairThread) ops).any (fun k => decide (F k)) = true) :
    ∃ k, Reach 64 2 k ∧ F k := by
  refine Transition.exists_of_run (fun k op hop => ?_) ⟨pairThread, rfl, legal_pairThread⟩ ops hrun
  cases op with
  | insert cpuId t => exact ⟨fun j => not_inList_of_self (of_decide_eq_true hop), trivial⟩
  | remove t => cases hop
  | change t x => cases hop

/-- Both threads are ready. -/
theorem picksBest_pair : ∃ (k : Kernel Bool) (lists : Head → List Bool), Inv 64 2 k lists ∧
    CoresExact 64 2 k ∧ (∃ p, ¬ k.links.isEmpty (.head (.ready p))) ∧ PicksBest 64 k 0 true := by
  obtain ⟨k, hreach, hglobal, hlocal⟩ : ∃ k, Reach 64 2 k ∧
      ¬ k.links.isEmpty (.head (.ready 9)) ∧ ¬ k.links.isEmpty (.head (.cpu 0 8)) :=
    exists_inserts [.insert 1 false, .insert 1 true] (by decide +kernel)
  obtain ⟨⟨lists, inv⟩, hexact⟩ := hreach.inv (by decide)
  exact ⟨k, lists, inv, hexact, ⟨9, hglobal⟩, (picksBest_iff (by decide) (by decide) inv hexact true
    (.inl ⟨9, hglobal⟩)).mpr ⟨⟨9, hglobal⟩, 8, hlocal⟩⟩

/-- Only the thread that is not bound is ready: the row of the core is read at `0 - 1`. -/
theorem not_picksBest_unbound : ∃ k : Kernel Bool, Reach 64 2 k ∧
    ¬ k.links.isEmpty (.head (.ready 9)) ∧
    getHighestPriorityThread 64 k 0 false = .error .badIndex ∧ ¬ PicksBest 64 k 0 false := by
  obtain ⟨k, hreach, hready, herr⟩ : ∃ k, Reach 64 2 k ∧ ¬ k.links.isEmpty (.head (.ready 9)) ∧
      getHighestPriorityThread 64 k 0 false = .error .badIndex :=
    exists_inserts [.insert 1 true] (by decide +kernel)
  refine ⟨k, hreach, hready, herr, fun ⟨t, p, hget, _⟩ => ?_⟩
  rw [herr] at hget
  cases hget
end Sched.Smp
