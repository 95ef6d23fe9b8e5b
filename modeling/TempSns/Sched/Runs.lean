import TempSns.Sched.Invariant

/-!
# The ready queues along every run

Every kernel call keeps the scheduler invariant (`Inv.step`), so it holds in every reachable state
(`Reach.inv`). `ReadyExact` reads it back at the level of the source: the bits of the ready bitmap,
the pointers of the priority table and the states of the threads.
-/

namespace Sched

open Links Kernel Except

variable {T : Type} [DecidableEq T] {prioMax : ℕ} {k k' : Kernel T} {lists : ListHead → List T}
  {t u : T} {p : UInt8} {e : RtErr}

/-! ## Initial state -/

lemma rtThreadInit_ok {isSystem cleanup : Bool} {x : Thread}
    (hok : rtThreadInit prioMax p isSystem cleanup = .ok x) : x.stat = .init ∧ Blank x := by
  obtain ⟨-, hok⟩ := ite_eq_ok.mp hok
  obtain rfl := ok.inj hok
  exact ⟨rfl, rfl, rfl⟩

omit [DecidableEq T] in
lemma Inv.init {thread : T → Thread}
    (hinit : ∀ t, ∃ p isSystem cleanup, rtThreadInit prioMax p isSystem cleanup = .ok (thread t)) :
    Inv prioMax (rtSystemSchedulerInit thread) (fun _ => []) := by
  have hfresh : ∀ t, (thread t).stat = .init ∧ Blank (thread t) := fun t => by
    obtain ⟨_, _, _, hok⟩ := hinit t
    exact rtThreadInit_ok hok
  have hset : readySet (fun _ : ListHead => ([] : List T)) = ∅ := by simp [readySet]
  refine ⟨⟨⟨fun i => ring_nil.mpr ⟨rfl, rfl⟩, by simp, fun t _ => ring_nil.mpr ⟨rfl, rfl⟩⟩, ?_⟩,
    fun u p => ?_, by simp, fun u => Or.inr (hfresh u).2, fun u hu => absurd (hfresh u).1 hu,
    fun u hu => ?_, fun u hu => ?_⟩
  · rw [hset]
    exact ⟨by simp, by simp [rtSystemSchedulerInit], by simp [rtSystemSchedulerInit],
      by simp [rtSystemSchedulerInit]⟩
  · simp [rtSystemSchedulerInit, stat, (hfresh u).1]
  · simp [rtSystemSchedulerInit, stat, (hfresh u).1] at hu
  · simp [rtSystemSchedulerInit] at hu

/-! ## Step lemmas -/

section

variable (inv : Inv prioMax k lists)

include inv

omit [DecidableEq T] in
lemma Inv.transit (hready : k.stat t ≠ .ready)
    (hclose : k.stat t ≠ .close) : InvBut prioMax k lists t where
  queues := inv.queues
  unlinked := inv.unlinked hready hclose
  ready_iff u _ := inv.ready_iff u
  defunct := inv.defunct
  attrs := inv.attrs
  started u _ := inv.started u
  running u _ := inv.running u
  current u _ := inv.current u

lemma Inv.schedule (hok : rtSchedule prioMax k = .ok k') : ∃ lists', Inv prioMax k' lists' :=
  (rtSchedule_spec inv hok).imp fun _ h => h.1

lemma Inv.start (hcur : k.current = none)
    (hok : rtSystemSchedulerStart prioMax k = .ok k') : ∃ lists', Inv prioMax k' lists' := by
  unfold rtSystemSchedulerStart at hok
  simp only [bind_eq_ok] at hok
  obtain ⟨⟨t, p⟩, hget, k1, hrem, hok⟩ := hok
  obtain rfl := ok.inj hok
  obtain ⟨p', t', ts, hget', hlist, -⟩ :=
    getHighestPriorityThread_spec inv.queues (readyGroup_ne_zero_of_get hget)
  obtain ⟨rfl, rfl⟩ := Prod.mk.inj (ok.inj (hget'.symm.trans hget))
  have hready := (inv.ready_iff t' p').mp (by simp [hlist])
  have ha := inv.started t' (by simp [hready.1]) (by simp [hready.1])
  have hq : Queues prioMax { k with current := some t' } lists :=
    ⟨inv.queues.rep, inv.queues.bitmap⟩
  obtain ⟨hsame, hq1⟩ := removeThread_spec hq ha (fun p => inv.prio_of_mem) hrem
  -- no other thread is running, so the only current thread is the one in transit
  have hidle : ∀ u, k.stat u ≠ .running := fun u hu => by
    simpa [hcur] using inv.running u hu
  have hbut : InvBut prioMax { k1 with current := none } (dequeue lists t') t' :=
    inv.unlink ⟨hsame.thread, hcur.symm, hsame.lockNest⟩ ⟨hq1.rep, hq1.bitmap⟩
  have hbut' : InvBut prioMax k1 (dequeue lists t') t' := by
    refine ⟨hq1, hbut.unlinked, hbut.ready_iff, hbut.defunct, hbut.attrs, hbut.started,
      fun u _ hu => ?_, fun u hut hu => ?_⟩
    · have hstat : k1.stat u = k.stat u := by simp [stat, hsame.thread]
      exact absurd (hstat ▸ hu) (hidle u)
    · exact absurd (Option.some.inj (hsame.current.symm.trans hu)).symm hut
  refine ⟨_, (hbut'.setStat .running).settle ?_ (fun _ => hsame.current) ?_ fun _ _ => ?_⟩
  · simp [setStat]
  · simp [setStat]
  · simpa [setStat, setThread, hsame.thread] using ha.setStat .running

lemma Inv.resume (hok : rtThreadResume prioMax k t = .ok (e, k')) :
    ∃ lists', Inv prioMax k' lists' := by
  unfold rtThreadResume at hok
  obtain ⟨-, hok⟩ := ite_eq_ok.mp hok
  split at hok
  · obtain ⟨-, rfl⟩ := Prod.mk.inj (ok.inj hok)
    exact ⟨lists, inv⟩
  case isFalse hsusp =>
    have hstat : k.stat t = .suspend := not_not.mp hsusp
    obtain ⟨k1, hins, hok⟩ := bind_eq_ok.mp hok
    obtain ⟨-, rfl⟩ := Prod.mk.inj (ok.inj hok)
    exact (inv.listRemove hstat).insert (inv.started t (by simp [hstat]) (by simp [hstat])) hins

lemma Inv.startup (hok : rtThreadStartup prioMax k t = .ok k') :
    ∃ lists', Inv prioMax k' lists' := by
  unfold rtThreadStartup at hok
  simp only at hok
  obtain ⟨⟨hstat, -⟩, hok⟩ := ite_eq_ok.mp hok
  obtain ⟨⟨e, k1⟩, hres, hok⟩ := bind_eq_ok.mp hok
  -- the thread is now suspended, with the attributes of its initial priority
  have ha : Attrs prioMax { (k.thread t).setPriority prioMax (k.thread t).initPriority with
      stat := .suspend } := (attrs_setPriority _ _).setStat .suspend
  have hbut := (inv.transit (t := t) (by simp [stat, hstat])
    (by simp [stat, hstat])).setThread (Or.inl ha)
  have hsusp := hbut.settle (by simp) (by simp) (by simp) (fun _ _ => by simpa [setThread] using ha)
  obtain ⟨lists1, inv1⟩ := hsusp.resume hres
  simp only at hok
  split at hok
  · exact inv1.schedule hok
  · obtain rfl := ok.inj hok
    exact ⟨lists1, inv1⟩

lemma Inv.suspend
    (hok : rtThreadSuspend prioMax k t = .ok (e, k')) : ∃ lists', Inv prioMax k' lists' := by
  unfold rtThreadSuspend at hok
  simp only at hok
  obtain ⟨-, hok⟩ := ite_eq_ok.mp hok
  split at hok
  · obtain ⟨-, rfl⟩ := Prod.mk.inj (ok.inj hok)
    exact ⟨lists, inv⟩
  case isFalse hactive =>
    split at hok
    · cases hok
    · obtain ⟨k1, hrem, hok⟩ := bind_eq_ok.mp hok
      obtain ⟨-, rfl⟩ := Prod.mk.inj (ok.inj hok)
      obtain ⟨hbut, hsame⟩ := inv.remove hrem
      have hstat : k.stat t = .ready ∨ k.stat t = .running := by
        by_contra hnone
        exact hactive (not_or.mp hnone)
      have ha : Attrs prioMax (k.thread t) := by
        apply inv.started <;> rcases hstat with hstat | hstat <;> simp [hstat]
      refine ⟨_, (hbut.setStat .suspend).settle ?_ ?_ ?_ fun _ _ => ?_⟩
      · simp [setStat]
      · simp [setStat]
      · simp [setStat]
      · simpa [setStat, setThread, hsame.thread] using ha.setStat .suspend

lemma Inv.setPriority (hready : k.stat t ≠ .ready) (p : UInt8) :
    Inv prioMax (k.setThread t ((k.thread t).setPriority prioMax p)) lists := by
  have hstat : ∀ u, (k.setThread t ((k.thread t).setPriority prioMax p)).stat u = k.stat u := by
    intro u
    by_cases hu : u = t
    · subst hu
      simp [stat, setThread]
    · exact stat_setThread_of_ne _ hu
  have ha : ∀ u, u = t → Attrs prioMax
      ((k.setThread t ((k.thread t).setPriority prioMax p)).thread u) := by
    rintro u rfl
    simpa [setThread] using attrs_setPriority (k.thread u) p
  have hother : ∀ u ≠ t, (k.setThread t ((k.thread t).setPriority prioMax p)).thread u =
      k.thread u := fun u hu => by simp [setThread, hu]
  refine ⟨⟨inv.queues.rep, inv.queues.bitmap⟩, fun u q => ?_, fun u hu => ?_, fun u => ?_,
    fun u hinit hclose => ?_, fun u hu => ?_, fun u hu => ?_⟩
  · rw [hstat, inv.ready_iff]
    by_cases hu : u = t
    · simp [hu, hready]
    · rw [prio_setThread_of_ne _ hu]
  · rw [hstat]
    exact inv.defunct u hu
  · by_cases hu : u = t
    · exact Or.inl (ha u hu)
    · rw [hother u hu]
      exact inv.attrs u
  · rw [hstat] at hinit hclose
    by_cases hu : u = t
    · exact ha u hu
    · rw [hother u hu]
      exact inv.started u hinit hclose
  · rw [hstat] at hu
    exact inv.running u hu
  · rw [hstat]
    exact inv.current u hu

lemma Inv.changePriority
    (hok : rtThreadChangePriority prioMax k t p = .ok k') : ∃ lists', Inv prioMax k' lists' := by
  unfold rtThreadChangePriority at hok
  obtain ⟨-, hok⟩ := ite_eq_ok.mp hok
  split at hok
  · -- a ready thread leaves its list with the old attributes and enters one with the new ones
    obtain ⟨k1, hrem, hok⟩ := bind_eq_ok.mp hok
    obtain ⟨hbut, -⟩ := inv.remove hrem
    have ha : Attrs prioMax ((k1.thread t).setPriority prioMax p) := attrs_setPriority _ p
    exact (hbut.setThread (Or.inl ha)).insert (by simpa [setThread] using ha) hok
  case isFalse hready =>
    obtain rfl := ok.inj hok
    exact ⟨lists, inv.setPriority hready p⟩

lemma Inv.sleep (hok : rtThreadSleep prioMax k = .ok k') : ∃ lists', Inv prioMax k' lists' := by
  unfold rtThreadSleep at hok
  split at hok
  · cases hok
  · obtain ⟨⟨e, k1⟩, hsusp, hok⟩ := bind_eq_ok.mp hok
    obtain ⟨lists1, inv1⟩ := inv.suspend hsusp
    exact inv1.schedule hok

lemma Inv.timeout (hok : rtThreadTimeout prioMax k t = .ok k') :
    ∃ lists', Inv prioMax k' lists' := by
  unfold rtThreadTimeout at hok
  obtain ⟨⟨hstat, -⟩, hok⟩ := ite_eq_ok.mp hok
  obtain ⟨k1, hins, hok⟩ := bind_eq_ok.mp hok
  have hsusp : k.stat t = .suspend := hstat
  obtain ⟨lists1, inv1⟩ := (inv.listRemove hsusp).insert
    (inv.started t (by simp [hsusp]) (by simp [hsusp])) hins
  exact inv1.schedule hok

lemma Inv.exit (hok : rtThreadExit prioMax k = .ok k') : ∃ lists', Inv prioMax k' lists' := by
  unfold rtThreadExit at hok
  split at hok
  · cases hok
  · obtain ⟨k1, hrem, hok⟩ := bind_eq_ok.mp hok
    obtain ⟨hbut, -⟩ := inv.remove hrem
    obtain ⟨lists1, inv1⟩ := (hbut.setStat .close).retire (by simp [setStat])
    exact inv1.schedule hok

/-- The common start of `rt_thread_detach` and `rt_thread_delete`. -/
lemma Inv.close (hok : closeThread prioMax k t = .ok k') :
    (∃ lists', InvBut prioMax k' lists' t) ∧ k'.stat t = .close := by
  unfold closeThread at hok
  split at hok
  · obtain ⟨k1, hrem, hok⟩ := bind_eq_ok.mp hok
    obtain rfl := ok.inj hok
    obtain ⟨hbut, -⟩ := inv.remove hrem
    exact ⟨⟨_, hbut.setStat .close⟩, by simp [setStat]⟩
  case isFalse hinit =>
    -- a thread that was never started is in no list
    have hstat : k.stat t = .init := not_not.mp hinit
    obtain rfl := ok.inj hok
    have hbut := inv.transit (t := t) (by simp [hstat]) (by simp [hstat])
    exact ⟨⟨_, hbut.setStat .close⟩, by simp [setStat]⟩

lemma Inv.detach (hok : rtThreadDetach prioMax k t = .ok k') :
    ∃ lists', Inv prioMax k' lists' := by
  unfold rtThreadDetach at hok
  obtain ⟨-, hok⟩ := ite_eq_ok.mp hok
  obtain ⟨k1, hclose, hok⟩ := bind_eq_ok.mp hok
  obtain rfl := ok.inj hok
  obtain ⟨⟨lists1, hbut⟩, hstat⟩ := inv.close hclose
  exact hbut.retire hstat

lemma Inv.delete (hok : rtThreadDelete prioMax k t = .ok k') :
    ∃ lists', Inv prioMax k' lists' := by
  unfold rtThreadDelete at hok
  obtain ⟨-, hok⟩ := ite_eq_ok.mp hok
  obtain ⟨k1, hclose, hok⟩ := bind_eq_ok.mp hok
  obtain rfl := ok.inj hok
  obtain ⟨⟨lists1, hbut⟩, hstat⟩ := inv.close hclose
  exact hbut.pushDefunct hstat

end

omit [DecidableEq T] in
lemma Inv.setLock (inv : Inv prioMax k lists) (n : Int16) :
    Inv prioMax { k with lockNest := n } lists :=
  ⟨⟨inv.queues.rep, inv.queues.bitmap⟩, inv.ready_iff, inv.defunct, inv.attrs, inv.started,
    inv.running, inv.current⟩

/-- Every call that returns keeps the invariant. -/
lemma Inv.step (inv : Inv prioMax k lists) {op : Op T} (hok : step prioMax k op = .ok k') :
    ∃ lists', Inv prioMax k' lists' := by
  cases op with
  | start =>
    obtain ⟨hcur, hok⟩ := ite_eq_ok.mp hok
    exact inv.start hcur hok
  | startup t => exact inv.startup hok
  | suspend t =>
    obtain ⟨⟨e, k1⟩, hsusp, rfl⟩ := map_eq_ok.mp hok
    exact inv.suspend hsusp
  | resume t =>
    obtain ⟨⟨e, k1⟩, hres, rfl⟩ := map_eq_ok.mp hok
    exact inv.resume hres
  | changePriority t p => exact inv.changePriority hok
  | sleep => exact inv.sleep hok
  | yield => exact inv.schedule hok
  | timeout t => exact inv.timeout hok
  | exit => exact inv.exit hok
  | detach t => exact inv.detach hok
  | delete t => exact inv.delete hok
  | schedule => exact inv.schedule hok
  | enterCritical =>
    obtain rfl := ok.inj hok
    exact ⟨lists, inv.setLock _⟩
  | exitCritical =>
    replace hok : rtExitCritical prioMax k = .ok k' := hok
    unfold rtExitCritical at hok
    simp only at hok
    split at hok
    · exact (inv.setLock 0).schedule hok
    · obtain rfl := ok.inj hok
      exact ⟨lists, inv.setLock _⟩

/-- The invariant holds in every reachable state. -/
lemma Reach.inv (hk : Reach prioMax k) : ∃ lists, Inv prioMax k lists := by
  induction hk with
  | init hinit => exact ⟨_, .init hinit⟩
  | step _ hstep ih =>
    obtain ⟨lists, inv⟩ := ih
    exact inv.step hstep

/-- A sequence of calls. -/
def run (prioMax : ℕ) (k : Kernel T) : List (Op T) → Except Fault (Kernel T)
  | [] => .ok k
  | op :: ops => do
    let k ← step prioMax k op
    run prioMax k ops

lemma Reach.run (hk : Reach prioMax k) {ops : List (Op T)}
    (hok : run prioMax k ops = .ok k') : Reach prioMax k' := by
  induction ops generalizing k with
  | nil =>
    obtain rfl := ok.inj hok
    exact hk
  | cons op ops ih =>
    obtain ⟨k1, hstep, hok⟩ := bind_eq_ok.mp hok
    exact ih (hk.step hstep) hok

/-! ## Ready queues -/

def InList (k : Kernel T) (j : ListHead) (t : T) : Prop :=
  ∃ xs, k.links.Ring (.head j) xs ∧ .item t ∈ xs

def readyBit (prioMax : ℕ) (k : Kernel T) (p : ℕ) : Bool :=
  if 32 < prioMax then (k.readyTable (p / 8)).getLsbD (p % 8) else k.readyGroup.getLsbD p

/-- The bitmap, the priority table and the thread states agree. -/
structure ReadyExact (prioMax : ℕ) (k : Kernel T) : Prop where
  /-- Each list of the priority table is a ring of different threads. -/
  ring : ∀ p, ∃ ts : List T, k.links.Ring (.head (.ready p)) (ts.map .item)
  /-- Bit `p` is set exactly when the list of priority `p` is not empty. -/
  bit : ∀ p < prioMax, p < 256 →
    (readyBit prioMax k p = true ↔ ¬ k.links.isEmpty (.head (.ready p)))
  /-- In the two-level build the group has a bit for each row that is not zero. -/
  group : 32 < prioMax → ∀ n < 32, k.readyGroup.getLsbD n = true ↔ k.readyTable n ≠ 0
  /-- A ready thread is in the list of its current priority and in no other one. -/
  ready : ∀ t, k.stat t = .ready → ∀ p, InList k (.ready p) t ↔ p = k.prio t
  /-- A suspended or closed thread is in no ready list. -/
  unlinked : ∀ t, k.stat t = .suspend ∨ k.stat t = .close → ∀ p, ¬ InList k (.ready p) t

omit [DecidableEq T] in
lemma Inv.inList_iff (inv : Inv prioMax k lists) {j : ListHead} : InList k j t ↔ t ∈ lists j := by
  have hring := inv.queues.rep.ring j
  constructor
  · rintro ⟨xs, hxs, hmem⟩
    rw [hxs.unique hring] at hmem
    simpa using hmem
  · exact fun hmem => ⟨_, hring, by simpa using hmem⟩

/-- In every reachable state the ready bitmap, the priority table and the thread states agree. -/
theorem readyExact_of_reach (hk : Reach prioMax k) : ReadyExact prioMax k := by
  obtain ⟨lists, inv⟩ := hk.inv
  refine ⟨fun p => ⟨_, inv.queues.rep.ring (.ready p)⟩, fun p _ hp => ?_, fun htwo n hn => ?_,
    fun t ht p => ?_, fun t ht p => ?_⟩
  · rw [inv.queues.rep.isEmpty_iff, ← ne_eq]
    unfold readyBit
    rcases Nat.lt_or_ge 32 prioMax with htwo | hone
    · rw [if_pos htwo, inv.queues.bitmap.row htwo p hp]
      rfl
    · rw [if_neg (by omega), inv.queues.bitmap.one hone p]
      rfl
  · rw [inv.queues.bitmap.group htwo]
    simp [hn]
  · rw [inv.inList_iff, inv.ready_iff]
    simp [ht, eq_comm]
  · rw [inv.inList_iff, inv.ready_iff]
    rcases ht with ht | ht <;> simp [ht]

/-- A dynamic thread of priority `p`, as `rt_thread_create` leaves it. -/
def freshThread (p : UInt8) : Thread where
  stat := .init
  initPriority := p
  currentPriority := p
  number := 0
  numberMask := 0
  highMask := 0
  isThread := true
  isSystem := false
  cleanup := false

/-- Two threads of priorities 10 and 20: the second one gets priority 3 and runs, the first one
sleeps until its timer expires, and the second one is deleted while it is suspended. -/
theorem readyExact_after_delete : ∃ k : Kernel Bool,
    run 32 (rtSystemSchedulerInit fun t => freshThread (if t then 20 else 10))
      [.startup false, .startup true, .start, .changePriority true 3, .sleep, .timeout false,
        .suspend true, .schedule, .delete true] = .ok k ∧ ReadyExact 32 k := by
  obtain ⟨k, hok, -⟩ := exists_of_okWith (P := fun _ => True) (x := run 32
    (rtSystemSchedulerInit fun t : Bool => freshThread (if t then 20 else 10))
    [.startup false, .startup true, .start, .changePriority true 3, .sleep, .timeout false,
      .suspend true, .schedule, .delete true]) (by decide +kernel)
  refine ⟨k, hok, readyExact_of_reach ((Reach.init fun t => ?_).run hok)⟩
  cases t
  · exact ⟨10, false, false, by rfl⟩
  · exact ⟨20, false, false, by rfl⟩

end Sched
