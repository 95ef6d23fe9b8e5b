import TempSns.Sched.Bitmap

/-!
# The ready queues

`Queues prioMax k lists`: the list pointers of `k` are those of the lists `lists`, and the ready
bitmap stands for the priorities whose list is not empty. Each operation of the scheduler on the
queues is described once, as an operation on lists: `insertThread_spec`, `removeThread_spec` and
`getHighestPriorityThread_spec`.
-/

namespace Sched

open Links List Except

variable {T : Type} [DecidableEq T] {prioMax : ℕ} {k k' : Kernel T} {lists : ListHead → List T}
  {t u : T} {p : ℕ}

def readySet (lists : ListHead → List T) : Set ℕ := {p | lists (.ready p) ≠ []}

/-- The pointers and the bitmap of `k` stand for `lists`. -/
structure Queues (prioMax : ℕ) (k : Kernel T) (lists : ListHead → List T) : Prop where
  rep : k.links.Represents lists
  bitmap : Bitmap prioMax k.readyGroup k.readyTable (readySet lists)

/-- Everything that the queue operations do not touch. -/
structure SameThreads (k k' : Kernel T) : Prop where
  thread : k'.thread = k.thread
  current : k'.current = k.current
  lockNest : k'.lockNest = k.lockNest

omit [DecidableEq T] in
lemma clearReady_same (prioMax : ℕ) (k : Kernel T) (x : Thread) :
    SameThreads k (clearReady prioMax k x) ∧ (clearReady prioMax k x).links = k.links := by
  unfold clearReady
  split <;> exact ⟨⟨rfl, rfl, rfl⟩, rfl⟩

/-- Appending a thread to the list of its priority. -/
def enqueue (lists : ListHead → List T) (p : ℕ) (t : T) : ListHead → List T :=
  Function.update lists (.ready p) (lists (.ready p) ++ [t])

omit [DecidableEq T] in
lemma mem_enqueue {j : ListHead} :
    u ∈ enqueue lists p t j ↔ u ∈ lists j ∨ (j = .ready p ∧ u = t) := by
  unfold enqueue
  by_cases hj : j = .ready p
  · subst hj
    simp
  · simp [hj]

omit [DecidableEq T] in
lemma readySet_enqueue : readySet (enqueue lists p t) = insert p (readySet lists) := by
  ext q
  by_cases hq : q = p
  · subst hq
    simp [readySet, enqueue]
  · simp [readySet, enqueue, hq]

/-- `rt_schedule_insert_thread` of a thread that is in no list: the current thread is marked
running, any other one becomes ready and goes to the end of the list of its priority. -/
lemma insertThread_spec (q : Queues prioMax k lists) (ha : Attrs prioMax (k.thread t))
    (ht : ∀ j, t ∉ lists j) (hok : rtScheduleInsertThread prioMax k t = .ok k') :
    (k.current = some t ∧ k' = k.setStat t .running) ∨
    (k.current ≠ some t ∧ SameThreads (k.setStat t .ready) k' ∧ k.prio t < prioMax ∧
      Queues prioMax k' (enqueue lists (k.prio t) t)) := by
  unfold rtScheduleInsertThread at hok
  by_cases hcur : k.current = some t
  · rw [if_pos hcur] at hok
    exact Or.inl ⟨hcur, (ok.inj hok).symm⟩
  · rw [if_neg hcur, ite_eq_ok] at hok
    obtain ⟨hlt, hok⟩ := hok
    obtain rfl := ok.inj hok
    refine Or.inr ⟨hcur, ⟨rfl, rfl, rfl⟩, hlt, q.rep.pushBack ht, ?_⟩
    rw [readySet_enqueue]
    exact q.bitmap.insert ha hlt

/-- Taking a thread out of the list it is in. -/
def dequeue (lists : ListHead → List T) (t : T) : ListHead → List T := fun j => (lists j).erase t

lemma Queues.mem_dequeue (q : Queues prioMax k lists) {j : ListHead} :
    u ∈ dequeue lists t j ↔ u ≠ t ∧ u ∈ lists j :=
  (q.rep.nodup j).mem_erase_iff

/-- Removing from the list of priority `p` makes no other list empty. -/
lemma readySet_dequeue (hp : ∀ p', t ∈ lists (.ready p') → p' = p) : readySet (dequeue lists t) =
      if dequeue lists t (.ready p) = [] then readySet lists \ {p} else readySet lists := by
  ext p'
  by_cases hpp : p' = p
  · subst hpp
    split
    case isTrue hemp => simp [readySet, hemp]
    case isFalse hne =>
      simp only [readySet, Set.mem_ofPred_eq, hne, not_false_eq_true, ne_eq, true_iff]
      intro hnil
      simp [dequeue, hnil] at hne
  · have hsame : dequeue lists t (.ready p') = lists (.ready p') :=
      erase_of_not_mem fun hmem => hpp (hp p' hmem)
    split <;> simp [readySet, hsame, hpp]

/-- `rt_schedule_remove_thread` takes the thread out of its list and keeps the bitmap exact, if the
thread is in no ready list but that of its current priority. -/
lemma removeThread_spec (q : Queues prioMax k lists) (ha : Attrs prioMax (k.thread t))
    (hp : ∀ p, t ∈ lists (.ready p) → p = k.prio t)
    (hok : rtScheduleRemoveThread prioMax k t = .ok k') :
    SameThreads k k' ∧ Queues prioMax k' (dequeue lists t) := by
  unfold rtScheduleRemoveThread at hok
  simp only at hok
  obtain ⟨hlt, hok⟩ := ite_eq_ok.mp hok
  obtain rfl := ok.inj hok
  have hrep := q.rep.remove t
  have hemp := hrep.isEmpty_iff (i := .ready (k.prio t))
  have hset := readySet_dequeue hp
  have hprio : Kernel.prio { k with links := k.links.remove (.item t) } t = k.prio t := rfl
  rw [hprio]
  by_cases hnil : dequeue lists t (.ready (k.prio t)) = []
  · rw [if_pos (hemp.mpr hnil)]
    obtain ⟨hsame, hlinks⟩ :=
      clearReady_same prioMax { k with links := k.links.remove (.item t) } (k.thread t)
    refine ⟨⟨hsame.thread, hsame.current, hsame.lockNest⟩, ?_, ?_⟩
    · rw [hlinks]
      exact hrep
    · rw [hset, if_pos hnil]
      exact Bitmap.clearReady (k := { k with links := k.links.remove (.item t) }) q.bitmap ha
  · rw [if_neg (fun h => hnil (hemp.mp h))]
    refine ⟨⟨rfl, rfl, rfl⟩, hrep, ?_⟩
    rw [hset, if_neg hnil]
    exact q.bitmap

lemma removeThread_blank (q : Queues prioMax k lists) (hx : Blank (k.thread t))
    (ht : ∀ p, t ∉ lists (.ready p)) (hok : rtScheduleRemoveThread prioMax k t = .ok k') :
    SameThreads k k' ∧ Queues prioMax k' (dequeue lists t) := by
  have hset : readySet (dequeue lists t) = readySet lists := by
    ext p
    show (lists (.ready p)).erase t ≠ [] ↔ lists (.ready p) ≠ []
    rw [erase_of_not_mem (ht p)]
  unfold rtScheduleRemoveThread at hok
  simp only [hx.clearReady, ite_self] at hok
  obtain ⟨-, hok⟩ := ite_eq_ok.mp hok
  obtain rfl := ok.inj hok
  refine ⟨⟨rfl, rfl, rfl⟩, q.rep.remove t, ?_⟩
  rw [hset]
  exact q.bitmap

section

omit [DecidableEq T]

lemma getHighestPriorityThread_spec (q : Queues prioMax k lists) (hne : k.readyGroup ≠ 0) :
    ∃ p t ts, getHighestPriorityThread prioMax k = .ok (t, p) ∧ lists (.ready p) = t :: ts ∧
      ∀ p' ∈ readySet lists, p ≤ p' := by
  obtain ⟨p, hok, hp, hmin⟩ := highestReadyPriority_spec q.bitmap hne
  have hlt := (q.bitmap.bound p hp).1
  obtain ⟨t, ts, hlist⟩ := exists_cons_of_ne_nil hp
  refine ⟨p, t, ts, ?_, hlist, hmin⟩
  unfold getHighestPriorityThread
  rw [bind_eq_ok]
  refine ⟨p, hok, ?_⟩
  rw [if_pos hlt, q.rep.next_head hlist]

/-- With an empty bitmap `_get_highest_priority_thread` indexes outside its tables. -/
lemma readyGroup_ne_zero_of_get
    (hok : getHighestPriorityThread prioMax k = .ok (t, p)) : k.readyGroup ≠ 0 := by
  intro hzero
  have hnumber : Word32.sub (rtFfs k.readyGroup) 1 = 2 ^ 32 - 1 := by
    rw [hzero]
    decide +kernel
  unfold getHighestPriorityThread highestReadyPriority at hok
  simp only [hnumber, bind_eq_ok] at hok
  obtain ⟨q, hq, hok⟩ := hok
  rcases Nat.lt_or_ge 32 prioMax with htwo | hone
  · rw [if_pos htwo, if_neg (by norm_num)] at hq
    cases hq
  · rw [if_neg (by omega)] at hq
    obtain rfl := ok.inj hq
    rw [if_neg (by omega)] at hok
    cases hok

/-- There is no ready thread if the bitmap is empty. -/
lemma Queues.readyGroup_eq_zero (q : Queues prioMax k lists) :
    k.readyGroup = 0 ↔ ∀ p, lists (.ready p) = [] := by
  rw [q.bitmap.group_eq_zero, Set.eq_empty_iff_forall_notMem]
  simp [readySet]

end

end Sched
