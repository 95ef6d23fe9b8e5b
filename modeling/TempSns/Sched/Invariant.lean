import TempSns.Sched.Queues

/-!
# The scheduler invariant

`Inv prioMax k lists` relates the thread states to the queues: the ready lists hold exactly the
ready threads, each in the list of its current priority, and only the current thread is running.

While a thread is taken out of one list and before it is put into the next one, the invariant holds
for all other threads (`InvBut`). Each kernel call is such a sequence: `Inv.remove`,
`InvBut.setThread`, and then `InvBut.insert`, `InvBut.settle` or `InvBut.retire`.
-/

namespace Sched

open Links Function Kernel List Option Except

variable {T : Type} [DecidableEq T] {prioMax : ℕ} {k k' : Kernel T} {lists : ListHead → List T}
  {t u : T} {p : ℕ} {ts : List T}

/-- `thread->stat`. -/
def Kernel.stat (k : Kernel T) (t : T) : ThreadStat := (k.thread t).stat

/-- The invariant between kernel calls. -/
structure Inv (prioMax : ℕ) (k : Kernel T) (lists : ListHead → List T) : Prop where
  queues : Queues prioMax k lists
  ready_iff : ∀ u p, u ∈ lists (.ready p) ↔ k.stat u = .ready ∧ k.prio u = p
  defunct : ∀ u ∈ lists .defunct, k.stat u = .close
  attrs : ∀ u, Attrs prioMax (k.thread u) ∨ Blank (k.thread u)
  started : ∀ u, k.stat u ≠ .init → k.stat u ≠ .close → Attrs prioMax (k.thread u)
  running : ∀ u, k.stat u = .running → k.current = some u
  current : ∀ u, k.current = some u → k.stat u ≠ .ready ∧ k.stat u ≠ .init

/-- The invariant while the thread `t` is in no list and its state is in transit. -/
structure InvBut (prioMax : ℕ) (k : Kernel T) (lists : ListHead → List T) (t : T) : Prop where
  queues : Queues prioMax k lists
  unlinked : ∀ j, t ∉ lists j
  ready_iff : ∀ u ≠ t, ∀ p, u ∈ lists (.ready p) ↔ k.stat u = .ready ∧ k.prio u = p
  defunct : ∀ u ∈ lists .defunct, k.stat u = .close
  attrs : ∀ u, Attrs prioMax (k.thread u) ∨ Blank (k.thread u)
  started : ∀ u ≠ t, k.stat u ≠ .init → k.stat u ≠ .close → Attrs prioMax (k.thread u)
  running : ∀ u ≠ t, k.stat u = .running → k.current = some u
  current : ∀ u ≠ t, k.current = some u → k.stat u ≠ .ready ∧ k.stat u ≠ .init

/-! ## Leaving a list -/

lemma Inv.unlink (inv : Inv prioMax k lists) (hsame : SameThreads k k')
    (hq : Queues prioMax k' (dequeue lists t)) :
    InvBut prioMax k' (dequeue lists t) t := by
  have hstat : k'.stat = k.stat := by funext u; simp [stat, hsame.thread]
  have hprio : k'.prio = k.prio := by funext u; simp [prio, hsame.thread]
  refine ⟨hq, fun j hj => ?_, fun u hu p => ?_, fun u hu => ?_, fun u => ?_,
    fun u _ hinit hclose => ?_, fun u _ hu => ?_, fun u _ hu => ?_⟩
  · exact (inv.queues.mem_dequeue.mp hj).1 rfl
  · rw [inv.queues.mem_dequeue, inv.ready_iff, hstat, hprio]
    simp [hu]
  · rw [hstat]
    exact inv.defunct u (inv.queues.mem_dequeue.mp hu).2
  · rw [hsame.thread]
    exact inv.attrs u
  · rw [hsame.thread]
    rw [hstat] at hinit hclose
    exact inv.started u hinit hclose
  · rw [hsame.current]
    rw [hstat] at hu
    exact inv.running u hu
  · rw [hstat]
    rw [hsame.current] at hu
    exact inv.current u hu

section

omit [DecidableEq T]

lemma Inv.prio_of_mem (inv : Inv prioMax k lists) (hmem : t ∈ lists (.ready p)) : p = k.prio t :=
  ((inv.ready_iff t p).mp hmem).2.symm

lemma Inv.not_mem_ready (inv : Inv prioMax k lists) (hstat : k.stat t ≠ .ready) (p : ℕ) :
    t ∉ lists (.ready p) :=
  fun hmem => hstat ((inv.ready_iff t p).mp hmem).1

lemma Inv.unlinked (inv : Inv prioMax k lists) (hready : k.stat t ≠ .ready)
    (hclose : k.stat t ≠ .close) (j : ListHead) : t ∉ lists j := by
  cases j with
  | ready p => exact inv.not_mem_ready hready p
  | defunct => exact fun hmem => hclose (inv.defunct t hmem)

end

lemma Inv.remove (inv : Inv prioMax k lists) (hok : rtScheduleRemoveThread prioMax k t = .ok k') :
    InvBut prioMax k' (dequeue lists t) t ∧ SameThreads k k' := by
  rcases inv.attrs t with ha | hblank
  · obtain ⟨hsame, hq⟩ := removeThread_spec inv.queues ha (fun p => inv.prio_of_mem) hok
    exact ⟨inv.unlink hsame hq, hsame⟩
  · by_cases hready : k.stat t = .ready
    · have ha := inv.started t (by simp [hready]) (by simp [hready])
      obtain ⟨hsame, hq⟩ := removeThread_spec inv.queues ha (fun p => inv.prio_of_mem) hok
      exact ⟨inv.unlink hsame hq, hsame⟩
    · obtain ⟨hsame, hq⟩ :=
        removeThread_blank inv.queues hblank (inv.not_mem_ready hready) hok
      exact ⟨inv.unlink hsame hq, hsame⟩

lemma Inv.listRemove (inv : Inv prioMax k lists) (hstat : k.stat t = .suspend) :
    InvBut prioMax { k with links := k.links.remove (.item t) } (dequeue lists t) t := by
  have hset : readySet (dequeue lists t) = readySet lists := by
    ext p
    show (lists (.ready p)).erase t ≠ [] ↔ lists (.ready p) ≠ []
    rw [erase_of_not_mem (inv.not_mem_ready (by simp [hstat]) p)]
  refine inv.unlink ⟨rfl, rfl, rfl⟩ ⟨inv.queues.rep.remove t, ?_⟩
  rw [hset]
  exact inv.queues.bitmap

/-! ## In transit -/

@[simp] lemma stat_setThread_self (x : Thread) : (k.setThread t x).stat t = x.stat := by
  simp [stat, setThread]

lemma stat_setThread_of_ne (x : Thread) (hu : u ≠ t) : (k.setThread t x).stat u = k.stat u := by
  simp [stat, setThread, hu]

lemma prio_setThread_of_ne (x : Thread) (hu : u ≠ t) : (k.setThread t x).prio u = k.prio u := by
  simp [prio, setThread, hu]

section

variable (inv : InvBut prioMax k lists t)

include inv

/-- The thread in transit may change in any way that keeps its priority attributes. -/
lemma InvBut.setThread {x : Thread} (hx : Attrs prioMax x ∨ Blank x) :
    InvBut prioMax (k.setThread t x) lists t where
  queues := ⟨inv.queues.rep, inv.queues.bitmap⟩
  unlinked := inv.unlinked
  ready_iff u hu p := by
    rw [stat_setThread_of_ne x hu, prio_setThread_of_ne x hu]
    exact inv.ready_iff u hu p
  defunct u hu := by
    have hut : u ≠ t := fun heq => inv.unlinked _ (heq ▸ hu)
    rw [stat_setThread_of_ne x hut]
    exact inv.defunct u hu
  attrs u := by
    by_cases hu : u = t
    · subst hu
      simpa [Kernel.setThread] using hx
    · simpa [Kernel.setThread, hu] using inv.attrs u
  started u hu hinit hclose := by
    rw [stat_setThread_of_ne x hu] at hinit hclose
    simpa [Kernel.setThread, hu] using inv.started u hu hinit hclose
  running u hu hstat := by
    rw [stat_setThread_of_ne x hu] at hstat
    exact inv.running u hu hstat
  current u hu hcur := by
    rw [stat_setThread_of_ne x hu]
    exact inv.current u hu hcur

lemma InvBut.setStat (s : ThreadStat) : InvBut prioMax (k.setStat t s) lists t :=
  inv.setThread ((inv.attrs t).imp (·.congr rfl rfl rfl rfl) fun h => ⟨h.numberMask, h.highMask⟩)

/-! ## Entering a list or a state -/

lemma InvBut.settle (hready : k.stat t ≠ .ready) (hrun : k.stat t = .running → k.current = some t)
    (hinit : k.current = some t → k.stat t ≠ .init)
    (hstart : k.stat t ≠ .init → k.stat t ≠ .close → Attrs prioMax (k.thread t)) :
    Inv prioMax k lists where
  queues := inv.queues
  ready_iff u p := by
    by_cases hu : u = t
    · subst hu
      simp [inv.unlinked, hready]
    · exact inv.ready_iff u hu p
  defunct := inv.defunct
  attrs := inv.attrs
  started u hu hclose := by
    by_cases hut : u = t
    · subst hut
      exact hstart hu hclose
    · exact inv.started u hut hu hclose
  running u hu := by
    by_cases hut : u = t
    · subst hut
      exact hrun hu
    · exact inv.running u hut hu
  current u hu := by
    by_cases hut : u = t
    · subst hut
      exact ⟨hready, hinit hu⟩
    · exact inv.current u hut hu

lemma InvBut.insert (ha : Attrs prioMax (k.thread t))
    (hok : rtScheduleInsertThread prioMax k t = .ok k') : ∃ lists', Inv prioMax k' lists' := by
  rcases insertThread_spec inv.queues ha inv.unlinked hok with
    ⟨hcur, rfl⟩ | ⟨hcur, hsame, -, hq⟩
  · refine ⟨lists, (inv.setStat .running).settle ?_ (fun _ => hcur) ?_ (fun _ _ => ?_)⟩
    · simp [Kernel.setStat]
    · simp [Kernel.setStat]
    · simpa [Kernel.setStat, Kernel.setThread] using ha.setStat .running
  · -- the thread is now the last one in the list of its priority
    refine ⟨enqueue lists (k.prio t) t, ?_⟩
    have hself : k'.stat t = .ready := by simp [Kernel.stat, hsame.thread, Kernel.setStat, Kernel.setThread]
    have hother : ∀ u ≠ t, k'.stat u = k.stat u ∧ k'.prio u = k.prio u ∧
        k'.thread u = k.thread u := fun u hu => by
      simp [Kernel.stat, Kernel.prio, hsame.thread, Kernel.setStat, Kernel.setThread, hu]
    have hprio : k'.prio t = k.prio t := by
      simp [Kernel.prio, hsame.thread, Kernel.setStat, Kernel.setThread]
    have hcur' : k'.current = k.current := hsame.current
    have hself' : Attrs prioMax (k'.thread t) := by
      rw [hsame.thread]
      simpa [Kernel.setStat, Kernel.setThread] using ha.setStat .ready
    refine ⟨hq, fun u p => ?_, fun u hu => ?_, fun u => ?_, fun u hinit hclose => ?_,
      fun u hu => ?_, fun u hu => ?_⟩
    · rw [mem_enqueue]
      by_cases hu : u = t
      · subst hu
        simp [inv.unlinked, hself, hprio, eq_comm]
      · rw [(hother u hu).1, (hother u hu).2.1, inv.ready_iff u hu]
        simp [hu]
    · have hmem : u ∈ lists .defunct := by simpa [mem_enqueue] using hu
      have hut : u ≠ t := fun heq => inv.unlinked _ (heq ▸ hmem)
      rw [(hother u hut).1]
      exact inv.defunct u hmem
    · by_cases hut : u = t
      · exact Or.inl (hut ▸ hself')
      · rw [(hother u hut).2.2]
        exact inv.attrs u
    · by_cases hut : u = t
      · exact hut ▸ hself'
      · rw [(hother u hut).2.2]
        rw [(hother u hut).1] at hinit hclose
        exact inv.started u hut hinit hclose
    · have hut : u ≠ t := fun heq => by simp [heq, hself] at hu
      rw [(hother u hut).1] at hu
      rw [hcur']
      exact inv.running u hut hu
    · rw [hcur'] at hu
      have hut : u ≠ t := fun heq => hcur (heq ▸ hu)
      rw [(hother u hut).1]
      exact inv.current u hut hu

lemma InvBut.pushDefunct (hstat : k.stat t = .close) :
    ∃ lists', Inv prioMax { k with links := k.links.insertAfter (.head .defunct) (.item t) } lists' := by
  have hinv := inv.settle (by simp [hstat]) (by simp [hstat]) (by simp [hstat]) (by simp [hstat])
  have hmem : ∀ p, update lists .defunct (t :: lists .defunct) (.ready p) =
      lists (.ready p) := fun p => by simp
  refine ⟨update lists .defunct (t :: lists .defunct),
    ⟨inv.queues.rep.pushFront inv.unlinked, ?_⟩, fun u p => ?_, fun u hu => ?_, hinv.attrs,
    hinv.started, hinv.running, hinv.current⟩
  · have hset : readySet (update lists .defunct (t :: lists .defunct)) = readySet lists := by
      ext p
      simp [readySet]
    rw [hset]
    exact inv.queues.bitmap
  · rw [hmem]
    exact hinv.ready_iff u p
  · rw [update_self, mem_cons] at hu
    rcases hu with rfl | hu
    · exact hstat
    · exact inv.defunct u hu

/-- The end of `rt_thread_exit` and `rt_thread_detach`. -/
lemma InvBut.retire (hstat : k.stat t = .close) : ∃ lists', Inv prioMax (retire k t) lists' := by
  unfold Sched.retire
  simp only
  split
  · have hset := inv.setThread (x := { k.thread t with isThread := false, isSystem := false })
      ((inv.attrs t).imp (·.congr rfl rfl rfl rfl) fun h => ⟨h.numberMask, h.highMask⟩)
    refine ⟨lists, hset.settle ?_ ?_ ?_ ?_⟩ <;> simp [show (k.thread t).stat = .close from hstat]
  · exact inv.pushDefunct hstat

end

/-! ## `rt_schedule` -/

def switched (k : Kernel T) (c t : T) (requeue : Prop) [Decidable requeue] : T → Thread :=
  ((if requeue then k.setStat c .ready else k).setStat t .running).thread

def switchedLists (k : Kernel T) (lists : ListHead → List T) (c t : T) (requeue : Prop)
    [Decidable requeue] : ListHead → List T :=
  dequeue (if requeue then enqueue lists (k.prio c) c else lists) t

/-- What a call of `rt_schedule` did: nothing, it kept the current thread, or it switched to the
first thread of the best ready list. -/
inductive Scheduled (k : Kernel T) (lists : ListHead → List T) (k' : Kernel T) :
    (ListHead → List T) → Prop
  | idle (hidle : k.lockNest ≠ 0 ∨ ∀ p, lists (.ready p) = []) (heq : k' = k) :
      Scheduled k lists k' lists
  | keep {c : T} (hcur : k.current = some c) (hrun : k.stat c = .running)
      (hbest : ∀ p ∈ readySet lists, k.prio c < p) (hsame : SameThreads k k') :
      Scheduled k lists k' lists
  | switch {c t : T} {p : ℕ} {ts : List T} (hlock : k.lockNest = 0) (hcur : k.current = some c)
      (hlist : lists (.ready p) = t :: ts) (hbest : ∀ p' ∈ readySet lists, p ≤ p')
      (hgive : k.stat c = .running → p ≤ k.prio c)
      (hthread : k'.thread = switched k c t (k.stat c = .running))
      (hcur' : k'.current = some t) (hlock' : k'.lockNest = k.lockNest) :
      Scheduled k lists k' (switchedLists k lists c t (k.stat c = .running))

section Switch

variable {c : T} {run : Prop} [Decidable run]

lemma switched_stat (hct : c ≠ t) (u : T) : (switched k c t run u).stat =
    if u = t then .running else if u = c ∧ run then .ready else k.stat u := by
  unfold switched
  by_cases hut : u = t
  · simp [hut, setStat, setThread]
  · by_cases huc : u = c <;> by_cases hrun : run <;>
      simp [hut, huc, hrun, hct, setStat, setThread, stat]

lemma switched_currentPriority (u : T) :
    (switched k c t run u).currentPriority = (k.thread u).currentPriority := by
  unfold switched
  by_cases hrun : run <;> by_cases hut : u = t <;> by_cases huc : u = c <;>
    by_cases htc : t = c <;> simp_all [setStat, setThread]

lemma switched_fields (u : T) : (switched k c t run u).number = (k.thread u).number ∧
    (switched k c t run u).numberMask = (k.thread u).numberMask ∧
    (switched k c t run u).highMask = (k.thread u).highMask := by
  unfold switched
  by_cases hrun : run <;> by_cases hut : u = t <;> by_cases huc : u = c <;>
    by_cases htc : t = c <;> simp_all [setStat, setThread]

lemma switched_attrs {u : T} (ha : Attrs prioMax (k.thread u)) :
    Attrs prioMax (switched k c t run u) :=
  ha.congr (switched_currentPriority u) (switched_fields u).1 (switched_fields u).2.1
    (switched_fields u).2.2

lemma switched_blank {u : T} (ha : Blank (k.thread u)) : Blank (switched k c t run u) :=
  ⟨(switched_fields u).2.1.trans ha.numberMask, (switched_fields u).2.2.trans ha.highMask⟩

end Switch

section

variable (inv : Inv prioMax k lists)

include inv

lemma Inv.switchTo_queues {c : T} (hcur : k.current = some c) (hlist : lists (.ready p) = t :: ts)
    (hok : switchTo prioMax k c t (k.stat c = .running) = .ok k') :
    k'.thread = switched k c t (k.stat c = .running) ∧ k'.current = some t ∧
      k'.lockNest = k.lockNest ∧
      Queues prioMax k' (switchedLists k lists c t (k.stat c = .running)) := by
  have hready := (inv.ready_iff t p).mp (by simp [hlist])
  have hct : c ≠ t := fun heq => (inv.current c hcur).1 (heq ▸ hready.1)
  have hunlinked : k.stat c = .running → ∀ j, c ∉ lists j := fun hrun =>
    inv.unlinked (by simp [hrun]) (by simp [hrun])
  unfold switchTo at hok
  simp only [bind_eq_ok] at hok
  obtain ⟨k2, hins, k3, hrem, hok⟩ := hok
  obtain rfl := ok.inj hok
  -- after the optional insertion of the thread that leaves the processor
  have hk2 : k2.thread = (if k.stat c = .running then k.setStat c .ready else k).thread ∧
      k2.current = some t ∧ k2.lockNest = k.lockNest ∧ Queues prioMax k2
        (if k.stat c = .running then enqueue lists (k.prio c) c else lists) := by
    by_cases hrun : k.stat c = .running
    · simp only [requeue, hrun, decide_true, if_true] at hins ⊢
      have hq : Queues prioMax { k with current := some t } lists :=
        ⟨inv.queues.rep, inv.queues.bitmap⟩
      rcases insertThread_spec hq (inv.started c (by simp [hrun]) (by simp [hrun])) (hunlinked hrun) hins with
        ⟨hcur', -⟩ | ⟨-, hsame, -, hq'⟩
      · exact absurd (some.inj hcur').symm hct
      · exact ⟨hsame.thread, hsame.current, hsame.lockNest, hq'⟩
    · simp only [requeue, hrun, decide_false, Bool.false_eq_true, if_false] at hins ⊢
      obtain rfl := ok.inj hins
      exact ⟨rfl, rfl, rfl, inv.queues.rep, inv.queues.bitmap⟩
  obtain ⟨hthread, hcur2, hlock2, hq2⟩ := hk2
  have htthread : k2.thread t = k.thread t := by
    rw [hthread]
    by_cases hrun : k.stat c = .running <;> simp [hrun, setStat, setThread, hct.symm]
  have hp2 : ∀ q, t ∈ (if k.stat c = .running then enqueue lists (k.prio c) c else lists)
      (.ready q) → q = k2.prio t := by
    intro q hmem
    have hold : t ∈ lists (.ready q) := by
      by_cases hrun : k.stat c = .running
      · simp only [hrun, if_true, mem_enqueue] at hmem
        exact hmem.resolve_right fun h => hct h.2.symm
      · simpa [hrun] using hmem
    rw [prio, htthread]
    exact ((inv.ready_iff t q).mp hold).2.symm
  obtain ⟨hsame3, hq3⟩ := removeThread_spec hq2
    (by rw [htthread]; exact inv.started t (by simp [hready.1]) (by simp [hready.1])) hp2 hrem
  refine ⟨?_, hsame3.current.trans hcur2, hsame3.lockNest.trans hlock2, hq3.rep, hq3.bitmap⟩
  simp [switched, setStat, setThread, hsame3.thread, hthread]

lemma Inv.mem_switchedLists {c : T}
    (hcur : k.current = some c) (hlist : lists (.ready p) = t :: ts) {j : ListHead} :
    u ∈ switchedLists k lists c t (k.stat c = .running) j ↔
      u ≠ t ∧ (u ∈ lists j ∨ (k.stat c = .running ∧ j = .ready (k.prio c) ∧ u = c)) := by
  have hready := (inv.ready_iff t p).mp (by simp [hlist])
  unfold switchedLists dequeue
  by_cases hrun : k.stat c = .running
  · -- the thread that leaves is appended to its list, which stays free of duplicates
    have hnot : c ∉ lists (.ready (k.prio c)) := fun hmem => by
      simpa [hrun] using ((inv.ready_iff c _).mp hmem).1
    have hnodup : (enqueue lists (k.prio c) c j).Nodup := by
      unfold enqueue
      by_cases hj : j = .ready (k.prio c)
      · subst hj
        simp only [update_self]
        exact nodup_append.mpr ⟨inv.queues.rep.nodup _, by simp, by
          intro a ha b hb heq
          rw [mem_singleton] at hb
          subst heq hb
          exact hnot ha⟩
      · simpa [hj] using inv.queues.rep.nodup j
    simp only [hrun, if_true, true_and]
    rw [hnodup.mem_erase_iff, mem_enqueue]
  · simp only [hrun, if_false, false_and, or_false]
    rw [(inv.queues.rep.nodup j).mem_erase_iff]

lemma Inv.switchTo {c : T} (hcur : k.current = some c) (hlist : lists (.ready p) = t :: ts)
    (hthread : k'.thread = switched k c t (k.stat c = .running)) (hcur' : k'.current = some t)
    (hq : Queues prioMax k' (switchedLists k lists c t (k.stat c = .running))) :
    Inv prioMax k' (switchedLists k lists c t (k.stat c = .running)) := by
  have hready := (inv.ready_iff t p).mp (by simp [hlist])
  have hct : c ≠ t := fun heq => (inv.current c hcur).1 (heq ▸ hready.1)
  have hstat : ∀ u, k'.stat u = if u = t then .running
      else if u = c ∧ k.stat c = .running then .ready else k.stat u := fun u => by
    rw [stat, hthread]
    exact switched_stat hct u
  have hprio : ∀ u, k'.prio u = k.prio u := fun u => by
    rw [prio, hthread, switched_currentPriority, prio]
  refine ⟨hq, fun u q => ?_, fun u hu => ?_, fun u => ?_, fun u hinit hclose => ?_,
    fun u hu => ?_, fun u hu => ?_⟩
  · rw [inv.mem_switchedLists hcur hlist, inv.ready_iff, hstat, hprio]
    by_cases hut : u = t
    · simp [hut]
    · by_cases huc : u = c ∧ k.stat c = .running
      · obtain ⟨rfl, hrun⟩ := huc
        simp [hut, hrun, eq_comm]
      · rw [if_neg hut, if_neg huc]
        constructor
        · rintro ⟨-, h | ⟨hrun, -, rfl⟩⟩
          · exact h
          · exact absurd ⟨rfl, hrun⟩ huc
        · exact fun h => ⟨hut, Or.inl h⟩
  · obtain ⟨hut, hmem | ⟨-, hj, -⟩⟩ := (inv.mem_switchedLists hcur hlist).mp hu
    · have hclose := inv.defunct u hmem
      have huc : ¬ (u = c ∧ k.stat c = .running) := by
        rintro ⟨rfl, hrun⟩
        simp [hclose] at hrun
      rw [hstat, if_neg hut, if_neg huc]
      exact hclose
    · cases hj
  · rw [hthread]
    exact (inv.attrs u).imp switched_attrs switched_blank
  · -- a thread with a new state was started before
    rw [hthread]
    apply switched_attrs
    rw [hstat] at hinit hclose
    by_cases hut : u = t
    · exact inv.started u (by simp [hut, hready.1]) (by simp [hut, hready.1])
    · by_cases huc : u = c ∧ k.stat c = .running
      · obtain ⟨rfl, hrun⟩ := huc
        exact inv.started u (by simp [hrun]) (by simp [hrun])
      · rw [if_neg hut, if_neg huc] at hinit hclose
        exact inv.started u hinit hclose
  · rw [hstat] at hu
    by_cases hut : u = t
    · rw [hut, hcur']
    · by_cases huc : u = c ∧ k.stat c = .running
      · rw [if_neg hut, if_pos huc] at hu
        cases hu
      · rw [if_neg hut, if_neg huc] at hu
        have huc' : c = u := some.inj (hcur.symm.trans (inv.running u hu))
        exact absurd ⟨huc'.symm, huc' ▸ hu⟩ huc
  · obtain rfl : t = u := some.inj (hcur'.symm.trans hu)
    rw [hstat]
    simp

/-- The current thread stays when it is running and better than every ready one. -/
lemma Inv.keepCurrent {c : T} {k1 : Kernel T}
    (hcur : k.current = some c) (hrun : k.stat c = .running)
    (hrem : rtScheduleRemoveThread prioMax k c = .ok k1) :
    Inv prioMax (k1.setStat c .running) lists ∧ SameThreads k (k1.setStat c .running) := by
  obtain ⟨hbut, hsame⟩ := inv.remove hrem
  have hcur1 : k1.current = some c := hsame.current.trans hcur
  have hinv : Inv prioMax (k1.setStat c .running) (dequeue lists c) := by
    apply (hbut.setStat .running).settle
    · simp [setStat]
    · exact fun _ => hcur1
    · simp [setStat]
    · have ha := inv.started c (by simp [hrun]) (by simp [hrun])
      rw [← hsame.thread] at ha
      exact fun _ _ => by simpa [setStat, setThread] using ha.setStat .running
  -- a running thread is in no list, so nothing was taken out
  have hlists : dequeue lists c = lists :=
    funext fun j => erase_of_not_mem (inv.unlinked (by simp [hrun]) (by simp [hrun]) j)
  rw [hlists] at hinv
  refine ⟨hinv, ?_, hsame.current, hsame.lockNest⟩
  have hself : { k.thread c with stat := .running } = k.thread c := by
    rw [← show (k.thread c).stat = .running from hrun]
  simp [setStat, setThread, hsame.thread, hself]

lemma rtSchedule_spec (hok : rtSchedule prioMax k = .ok k') :
    ∃ lists', Inv prioMax k' lists' ∧ Scheduled k lists k' lists' := by
  unfold rtSchedule at hok
  by_cases hgo : k.lockNest = 0 ∧ k.readyGroup ≠ 0
  · rw [if_pos hgo] at hok
    obtain ⟨hlock, hne⟩ := hgo
    obtain ⟨p, t, ts, hget, hlist, hbest⟩ := getHighestPriorityThread_spec inv.queues hne
    simp only [hget, bind_eq_ok] at hok
    obtain ⟨_, heq, hok⟩ := hok
    obtain rfl := ok.inj heq
    cases hcur : k.current with
    | none => simp [hcur] at hok
    | some c =>
      have hready := (inv.ready_iff t p).mp (by simp [hlist])
      have htc : t ≠ c := fun heq => (inv.current c hcur).1 (heq ▸ hready.1)
      simp only [hcur] at hok
      by_cases hkeep : (k.thread c).stat = .running ∧ k.prio c < p
      · simp only [hkeep, and_self, if_true, ne_eq, not_true_eq_false, if_false, bind_eq_ok] at hok
        obtain ⟨k1, hrem, hok⟩ := hok
        obtain rfl := ok.inj hok
        obtain ⟨hinv, hsame⟩ := inv.keepCurrent hcur hkeep.1 hrem
        exact ⟨lists, hinv, .keep hcur hkeep.1
          (fun q hq => lt_of_lt_of_le hkeep.2 (hbest q hq)) hsame⟩
      · -- the flag of the source is set exactly for a running thread here
        have hflag : ((k.thread c).stat = .running ∧ ¬ k.prio c < p) ↔ k.stat c = .running :=
          ⟨fun h => h.1, fun h => ⟨h, fun hlt => hkeep ⟨h, hlt⟩⟩⟩
        rw [if_neg hkeep, if_pos htc] at hok
        simp only [hflag] at hok
        obtain ⟨hthread, hcur', hlock', hq⟩ := inv.switchTo_queues hcur hlist hok
        exact ⟨_, inv.switchTo hcur hlist hthread hcur' hq, .switch hlock hcur hlist hbest
          (fun hrun => not_lt.mp fun hlt => hkeep ⟨hrun, hlt⟩) hthread hcur' hlock'⟩
  · rw [if_neg hgo] at hok
    obtain rfl := ok.inj hok
    refine ⟨lists, inv, .idle ?_ rfl⟩
    rw [← inv.queues.readyGroup_eq_zero]
    by_cases hlock : k.lockNest = 0
    · exact Or.inr (not_not.mp fun hne => hgo ⟨hlock, hne⟩)
    · exact Or.inl hlock

end

end Sched
