import TempSns.Sched.Runs

/-!
# What `rt_schedule` selects

After a call of `rt_schedule` with the scheduler unlocked the current thread is runnable and no
ready thread is better, and the set of runnable threads is the one before the call
(`Scheduled.best`, `Scheduled.runnable_iff`), provided that a thread is runnable at all. Repeated
yields rotate the threads of the best priority (`Rotation.step`).

The source relies on the idle thread for the provision: `rt_schedule` does nothing when the ready
bitmap is empty, so without a runnable thread the current one stays in its suspended state.
-/

namespace Sched

open Links Kernel List Option

variable {T : Type} [DecidableEq T] {prioMax : ℕ} {k k' : Kernel T}
  {lists lists' : ListHead → List T} {c t u : T} {ts : List T} {p : ℕ}

/-- A thread that runs or waits for the processor. -/
def Runnable (k : Kernel T) (u : T) : Prop := k.stat u = .running ∨ k.stat u = .ready

/-! ## One call -/

omit [DecidableEq T] in
lemma Inv.readySet_iff (inv : Inv prioMax k lists) :
    p ∈ readySet lists ↔ ∃ u, k.stat u = .ready ∧ k.prio u = p := by
  show lists (.ready p) ≠ [] ↔ _
  rw [ne_nil_iff_exists_cons]
  constructor
  · rintro ⟨u, us, heq⟩
    exact ⟨u, (inv.ready_iff u p).mp (by simp [heq])⟩
  · rintro ⟨u, hu⟩
    exact exists_cons_of_ne_nil (ne_nil_of_mem ((inv.ready_iff u p).mpr hu))

lemma removeThread_returns (hlegal : k.prio t < prioMax) :
    ∃ k', rtScheduleRemoveThread prioMax k t = .ok k' :=
  ⟨_, if_pos hlegal⟩

lemma insertThread_returns (hlegal : k.prio t < prioMax) :
    ∃ k', rtScheduleInsertThread prioMax k t = .ok k' ∧ ∀ u, k'.prio u = k.prio u := by
  have hprio : ∀ s u, (k.setStat t s).prio u = k.prio u := fun s u => by
    by_cases hu : u = t <;> simp [setStat, setThread, prio, hu]
  unfold rtScheduleInsertThread
  rw [if_pos hlegal]
  split
  · exact ⟨_, rfl, hprio .running⟩
  · exact ⟨_, rfl, hprio .ready⟩

lemma rtSchedule_returns (inv : Inv prioMax k lists) (hcur : k.current = some c)
    (hlegal : k.prio c < prioMax) : ∃ k', rtSchedule prioMax k = .ok k' := by
  unfold rtSchedule
  split
  case isFalse => exact ⟨k, rfl⟩
  case isTrue hgo =>
    obtain ⟨p, t, ts, hget, hlist, -⟩ := getHighestPriorityThread_spec inv.queues hgo.2
    have hready := (inv.ready_iff t p).mp (by simp [hlist])
    have hp : k.prio t < prioMax := by
      rw [hready.2]
      exact (inv.queues.bitmap.bound p (by simp [readySet, hlist])).1
    simp only [hget, hcur, bind_eq_ok]
    obtain ⟨k1, hrem⟩ := removeThread_returns hlegal
    by_cases hkeep : (k.thread c).stat = .running ∧ k.prio c < p
    · refine ⟨k1.setStat c .running, _, rfl, ?_⟩
      rw [if_pos hkeep, if_neg (by simp), bind_eq_ok]
      exact ⟨k1, hrem, rfl⟩
    · have hct : t ≠ c := fun heq => (inv.current c hcur).1 (heq ▸ hready.1)
      have hins : ∃ k2, requeue prioMax { k with current := some t } c
          ((k.thread c).stat = .running ∧ ¬ k.prio c < p) = .ok k2 ∧ k2.prio t = k.prio t := by
        unfold requeue
        split
        · obtain ⟨k2, hok, hprio⟩ :=
            insertThread_returns (k := { k with current := some t }) hlegal
          exact ⟨k2, hok, hprio t⟩
        · exact ⟨_, rfl, rfl⟩
      obtain ⟨k2, hins, hprio⟩ := hins
      obtain ⟨k3, hrem⟩ := removeThread_returns (k := k2) (t := t) (hprio ▸ hp)
      refine ⟨k3.setStat t .running, _, rfl, ?_⟩
      rw [if_neg hkeep, if_pos hct, switchTo, bind_eq_ok]
      exact ⟨k2, hins, bind_eq_ok.mpr ⟨k3, hrem, rfl⟩⟩

lemma Scheduled.prio_eq (hsched : Scheduled k lists k' lists') (u : T) :
    k'.prio u = k.prio u := by
  cases hsched with
  | idle hidle heq => rw [heq]
  | keep hcur hrun hbest hsame => rw [prio, hsame.thread, prio]
  | switch hlock hcur hlist hbest hgive hthread hcur' hlock' =>
    rw [prio, hthread, switched_currentPriority, prio]

lemma Inv.switch_stat (inv : Inv prioMax k lists)
    (hcur : k.current = some c) (hlist : lists (.ready p) = t :: ts)
    (hthread : k'.thread = switched k c t (k.stat c = .running)) (u : T) :
    k'.stat u = if u = t then .running
      else if u = c ∧ k.stat c = .running then .ready else k.stat u := by
  have hready := (inv.ready_iff t p).mp (by simp [hlist])
  have hct : c ≠ t := fun heq => (inv.current c hcur).1 (heq ▸ hready.1)
  rw [stat, hthread]
  exact switched_stat hct u

/-- A call of `rt_schedule` neither loses nor adds a runnable thread. -/
lemma Scheduled.runnable_iff (inv : Inv prioMax k lists)
    (hsched : Scheduled k lists k' lists') (u : T) : Runnable k' u ↔ Runnable k u := by
  cases hsched with
  | idle hidle heq => rw [heq]
  | keep hcur hrun hbest hsame => simp [Runnable, stat, hsame.thread]
  | @switch c t p ts hlock hcur hlist hbest hgive hthread hcur' hlock' =>
    have hready := (inv.ready_iff t p).mp (by simp [hlist])
    unfold Runnable
    rw [inv.switch_stat hcur hlist hthread]
    by_cases hut : u = t
    · simp [hut, hready.1]
    · by_cases huc : u = c ∧ k.stat c = .running
      · rw [if_neg hut, if_pos huc, huc.1]
        simp [huc.2]
      · rw [if_neg hut, if_neg huc]

/-- After a call of `rt_schedule` with the scheduler unlocked, the current thread is runnable and no
ready thread is better, if any thread is runnable. -/
lemma Scheduled.best (inv : Inv prioMax k lists) (hsched : Scheduled k lists k' lists')
    (hlock : k.lockNest = 0) (hrunnable : ∃ u, Runnable k u) :
    ∃ c, k'.current = some c ∧ k'.stat c = .running ∧
      ∀ u, k'.stat u = .ready → k'.prio c ≤ k'.prio u := by
  have hprio := hsched.prio_eq
  cases hsched with
  | idle hidle heq =>
    rw [heq]
    -- no thread is ready, so the runnable one is running
    have hempty : ∀ u, k.stat u ≠ .ready := fun u hu => by
      have hnil := hidle.resolve_left (not_not.mpr hlock) (k.prio u)
      simpa [hnil] using (inv.ready_iff u (k.prio u)).mpr ⟨hu, rfl⟩
    obtain ⟨u, hu⟩ := hrunnable
    have hrun := hu.resolve_right (hempty u)
    exact ⟨u, inv.running u hrun, hrun, fun v hv => absurd hv (hempty v)⟩
  | @keep c hcur hrun hbest hsame =>
    have hstat : k'.stat = k.stat := by funext u; simp [stat, hsame.thread]
    refine ⟨c, hsame.current.trans hcur, by rw [hstat, hrun], fun u hu => ?_⟩
    rw [hprio, hprio]
    rw [hstat] at hu
    exact (hbest _ (inv.readySet_iff.mpr ⟨u, hu, rfl⟩)).le
  | @switch c t p ts hlock hcur hlist hbest hgive hthread hcur' hlock' =>
    have hready := (inv.ready_iff t p).mp (by simp [hlist])
    have hstat := inv.switch_stat hcur hlist hthread
    refine ⟨t, hcur', by rw [hstat, if_pos rfl], fun u hu => ?_⟩
    rw [hprio, hprio, hready.2]
    rw [hstat] at hu
    by_cases hut : u = t
    · rw [hut, hready.2]
    · by_cases huc : u = c ∧ k.stat c = .running
      · obtain ⟨rfl, hrun⟩ := huc
        exact hgive hrun
      · rw [if_neg hut, if_neg huc] at hu
        exact hbest _ (inv.readySet_iff.mpr ⟨u, hu, rfl⟩)

/-! ## Repeated yields -/

/-- `n` calls of `rt_thread_yield`. -/
def yields (prioMax : ℕ) : ℕ → Kernel T → Except Fault (Kernel T)
  | 0, k => .ok k
  | n + 1, k => do
    let k ← rtThreadYield prioMax k
    yields prioMax n k

/-- The current thread has the best priority `p`, and the threads `ts` of this priority wait. -/
structure Rotation (k : Kernel T) (lists : ListHead → List T) (p : ℕ) (c : T) (ts : List T) :
    Prop where
  current : k.current = some c
  running : k.stat c = .running
  prio : k.prio c = p
  list : lists (.ready p) = ts
  best : ∀ q ∈ readySet lists, p ≤ q

/-- One yield moves the current thread to the end of the threads of its priority. -/
lemma Rotation.step (inv : Inv prioMax k lists)
    (hrot : Rotation k lists p c ts) (hlock : k.lockNest = 0)
    (hsched : Scheduled k lists k' lists') (inv' : Inv prioMax k' lists') :
    k'.lockNest = 0 ∧ ∃ c' ts', Rotation k' lists' p c' ts' ∧ c' :: ts' = (c :: ts).rotate 1 := by
  have hprio := hsched.prio_eq
  have hbest' := hsched.best inv hlock ⟨c, Or.inl hrot.running⟩
  cases hsched with
  | idle hidle heq =>
    subst heq
    have hnil : ts = [] := hrot.list ▸ hidle.resolve_left (not_not.mpr hlock) p
    exact ⟨hlock, c, [], hnil ▸ hrot, by simp [hnil]⟩
  | @keep c1 hcur hrun hbest hsame =>
    obtain rfl := some.inj (hcur.symm.trans hrot.current)
    have hnil : ts = [] := by
      by_contra hne
      have hlt := hbest p (by simp [readySet, hrot.list, hne])
      exact absurd hlt (by simp [hrot.prio])
    have hstat : k'.stat = k.stat := by funext u; simp [stat, hsame.thread]
    refine ⟨hsame.lockNest.trans hlock, c1, [], ?_, by simp [hnil]⟩
    exact ⟨hsame.current.trans hcur, by rw [hstat, hrun], by rw [hprio, hrot.prio],
      hnil ▸ hrot.list, hrot.best⟩
  | @switch c1 t q us _ hcur hlist hbest hgive hthread hcur' hlock' =>
    obtain rfl := some.inj (hcur.symm.trans hrot.current)
    have hq : q = p := by
      apply Nat.le_antisymm
      · rw [← hrot.prio]
        exact hgive hrot.running
      · exact hrot.best q (by simp [readySet, hlist])
    subst hq
    have hts : ts = t :: us := hrot.list ▸ hlist
    have hready := (inv.ready_iff t q).mp (by simp [hlist])
    have hnew : switchedLists k lists c1 t (k.stat c1 = .running) (.ready q) = us ++ [c1] := by
      simp [switchedLists, dequeue, enqueue, hrot.running, hrot.prio, hlist]
    refine ⟨hlock'.trans hlock, t, us ++ [c1], ⟨hcur', ?_, ?_, hnew, fun q' hq' => ?_⟩, ?_⟩
    · rw [inv.switch_stat hcur hlist hthread, if_pos rfl]
    · rw [hprio, hready.2]
    · obtain ⟨c', hc', -, hmin⟩ := hbest'
      obtain rfl := some.inj (hc'.symm.trans hcur')
      obtain ⟨u, hu, rfl⟩ := inv'.readySet_iff.mp hq'
      have := hmin u hu
      rwa [hprio c', hready.2] at this
    · simp [hts]

lemma Rotation.yields (n : ℕ) (inv : Inv prioMax k lists)
    (hrot : Rotation k lists p c ts) (hlock : k.lockNest = 0)
    (hok : yields prioMax n k = .ok k') :
    ∃ lists' c' ts', Inv prioMax k' lists' ∧ Rotation k' lists' p c' ts' ∧
      c' :: ts' = (c :: ts).rotate n := by
  induction n generalizing k lists c ts with
  | zero =>
    obtain rfl := Except.ok.inj hok
    exact ⟨lists, c, ts, inv, hrot, by simp⟩
  | succ n ih =>
    obtain ⟨k1, hyield, hok⟩ := bind_eq_ok.mp hok
    obtain ⟨lists1, inv1, hsched⟩ := rtSchedule_spec inv hyield
    obtain ⟨hlock1, c1, ts1, hrot1, heq⟩ := hrot.step inv hlock hsched inv1
    obtain ⟨lists', c', ts', inv', hrot', heq'⟩ := ih inv1 hrot1 hlock1 hok
    refine ⟨lists', c', ts', inv', hrot', ?_⟩
    rw [heq', heq, rotate_rotate, Nat.add_comm]

lemma Rotation.yields_returns (n : ℕ) (inv : Inv prioMax k lists)
    (hrot : Rotation k lists p c ts) (hlock : k.lockNest = 0) (hlegal : p < prioMax) :
    ∃ k', Sched.yields prioMax n k = .ok k' := by
  induction n generalizing k lists c ts with
  | zero => exact ⟨k, rfl⟩
  | succ n ih =>
    obtain ⟨k1, hyield⟩ := rtSchedule_returns inv hrot.current (hrot.prio ▸ hlegal)
    obtain ⟨lists1, inv1, hsched⟩ := rtSchedule_spec inv hyield
    obtain ⟨hlock1, c1, ts1, hrot1, -⟩ := hrot.step inv hlock hsched inv1
    obtain ⟨k', hok⟩ := ih inv1 hrot1 hlock1
    exact ⟨k', bind_eq_ok.mpr ⟨k1, hyield, hok⟩⟩

/-! ## Reachable states -/

/-- What a call of `rt_schedule` from `k` to `k'` achieves. -/
structure SelectsBest (k k' : Kernel T) : Prop where
  /-- The current thread is runnable, and no ready thread is better. -/
  best : ∃ c, k'.current = some c ∧ Runnable k' c ∧
    ∀ u, k'.stat u = .ready → k'.prio c ≤ k'.prio u
  /-- No runnable thread is lost or added. -/
  runnable : ∀ u, Runnable k' u ↔ Runnable k u

/-- The threads of the priority of the current thread `c` take turns with every yield. -/
def RotatesFrom (prioMax : ℕ) (k : Kernel T) (c : T) : Prop :=
  ∃ ts : List T, k.links.Ring (.head (.ready (k.prio c))) (ts.map .item) ∧ (c :: ts).Nodup ∧
    ∀ n, (k.prio c < prioMax → ∃ k', yields prioMax n k = .ok k') ∧
      ∀ k', yields prioMax n k = .ok k' → ∃ c' ts', k'.current = some c' ∧
        k'.links.Ring (.head (.ready (k.prio c))) (ts'.map .item) ∧
        c' :: ts' = (c :: ts).rotate n

/-- In every reachable state with a runnable thread, `rt_schedule` returns and selects a best
thread, and repeated yields of a best thread rotate the threads of its priority. -/
theorem rtSchedule_selectsBest (hk : Reach prioMax k) (hlock : k.lockNest = 0)
    (hcur : k.current = some c) (hrunnable : ∃ u, Runnable k u) :
    (k.prio c < prioMax → ∃ k', rtSchedule prioMax k = .ok k') ∧
    (∀ k', rtSchedule prioMax k = .ok k' → SelectsBest k k') ∧
    (k.stat c = .running → (∀ u, k.stat u = .ready → k.prio c ≤ k.prio u) →
      RotatesFrom prioMax k c) := by
  obtain ⟨lists, inv⟩ := hk.inv
  refine ⟨rtSchedule_returns inv hcur, fun k' hok => ?_, fun hrun hmin => ?_⟩
  · obtain ⟨lists', inv', hsched⟩ := rtSchedule_spec inv hok
    obtain ⟨c', hcur', hrun', hbest⟩ := hsched.best inv hlock hrunnable
    exact ⟨⟨c', hcur', Or.inl hrun', hbest⟩, hsched.runnable_iff inv⟩
  · have hrot : Rotation k lists (k.prio c) c (lists (.ready (k.prio c))) := by
      refine ⟨hcur, hrun, rfl, rfl, fun q hq => ?_⟩
      obtain ⟨u, hu, rfl⟩ := inv.readySet_iff.mp hq
      exact hmin u hu
    have hnodup : (c :: lists (.ready (k.prio c))).Nodup :=
      nodup_cons.mpr ⟨inv.not_mem_ready (by simp [hrun]) _, inv.queues.rep.nodup _⟩
    refine ⟨_, inv.queues.rep.ring _, hnodup, fun n =>
      ⟨hrot.yields_returns n inv hlock, fun k' hok => ?_⟩⟩
    obtain ⟨lists', c', ts', inv', hrot', heq⟩ := hrot.yields n inv hlock hok
    exact ⟨c', ts', hrot'.current, hrot'.list ▸ inv'.queues.rep.ring _, heq⟩

/-- Three threads of priority 20; the first one is running. -/
theorem rtSchedule_selectsBest_three : ∃ k : Kernel (Fin 3),
    run 32 (rtSystemSchedulerInit fun _ => freshThread 20)
      [.startup 0, .startup 1, .startup 2, .start] = .ok k ∧
    (∃ k', rtSchedule 32 k = .ok k' ∧ SelectsBest k k') ∧ RotatesFrom 32 k 0 := by
  obtain ⟨k, hok, hlock, hcur, hrun, hmin, hlegal⟩ := exists_of_okWith
    (P := fun k : Kernel (Fin 3) => k.lockNest = 0 ∧ k.current = some 0 ∧
      (k.thread 0).stat = .running ∧ (∀ u, (k.thread u).stat = .ready → k.prio 0 ≤ k.prio u) ∧
      k.prio 0 < 32)
    (x := run 32 (rtSystemSchedulerInit fun _ => freshThread 20)
      [.startup 0, .startup 1, .startup 2, .start]) (by decide +kernel)
  obtain ⟨hret, hsel, hrot⟩ := rtSchedule_selectsBest
    ((Reach.init fun t => ⟨20, false, false, by rfl⟩).run hok) hlock hcur ⟨0, Or.inl hrun⟩
  obtain ⟨k', hk'⟩ := hret hlegal
  exact ⟨k, hok, ⟨k', hk', hsel k' hk'⟩, hrot hrun hmin⟩

/-- The idle thread is suspended and then the only other thread suspends itself: `rt_schedule`
finds no ready thread and leaves a suspended thread as the current one. -/
theorem schedule_without_runnable : ∃ k k' : Kernel Bool, Reach 32 k ∧ k.lockNest = 0 ∧
    rtSchedule 32 k = .ok k' ∧ k'.current = some true ∧ ¬ Runnable k' true := by
  obtain ⟨k, hok, hlock, hnext⟩ := exists_of_okWith
    (P := fun k : Kernel Bool => k.lockNest = 0 ∧ okWith (fun k' : Kernel Bool =>
      k'.current = some true ∧ (k'.thread true).stat = .suspend) (rtSchedule 32 k) = true)
    (x := run 32 (rtSystemSchedulerInit fun t => freshThread (if t then 20 else 31))
      [.startup false, .startup true, .start, .suspend false, .suspend true]) (by decide +kernel)
  obtain ⟨k', hsched, hcur, hstat⟩ := exists_of_okWith hnext
  refine ⟨k, k', (Reach.init fun t => ?_).run hok, hlock, hsched, hcur, ?_⟩
  · cases t
    · exact ⟨31, false, false, by rfl⟩
    · exact ⟨20, false, false, by rfl⟩
  · simp [Runnable, stat, hstat]

end Sched
