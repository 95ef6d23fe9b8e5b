import TempSns.Ipc.Ownership

/-!
# The order of the suspend lists

A list with `RT_IPC_FLAG_PRIO` should be sorted by priority, and threads with equal priorities by the
time at which they started to wait. `rt_ipc_list_suspend` puts a thread at the right place
(`Sorted.suspendThread`). A later change of the priority of a waiting thread leaves it where it is,
so the order remains only if the new priority fits that place (`KeepsPlace`).
-/

namespace Ipc

open SortedInsert Function Transition

variable {T O : Type} [DecidableEq T] [DecidableEq O]

/-- The order of two waiting threads. -/
def Before (priority : T → UInt8) (arrival : T → ℕ) (a b : T) : Prop :=
  priority a < priority b ∨ priority a = priority b ∧ arrival a < arrival b

instance {priority : T → UInt8} {arrival : T → ℕ} {a b : T} :
    Decidable (Before priority arrival a b) := by
  unfold Before
  infer_instance

namespace Before

variable {priority : T → UInt8} {arrival : T → ℕ} {a b t : T}

omit [DecidableEq T] in
/-- The threads before one that the search passes are passed as well. -/
lemma le_trans (hab : Before priority arrival a b) (hb : priority b ≤ priority t) :
    priority a ≤ priority t := by
  rcases hab with hlt | ⟨heq, -⟩
  · exact UInt8.le_trans (UInt8.le_of_lt hlt) hb
  · rwa [heq]

omit [DecidableEq T] in
/-- A thread that starts to wait comes after all threads with its priority. -/
lemma of_le (hle : priority a ≤ priority t) (harr : arrival a < arrival t) :
    Before priority arrival a t := by
  by_cases hlt : priority a < priority t
  · exact Or.inl hlt
  · exact Or.inr ⟨UInt8.le_antisymm hle (UInt8.not_lt.mp hlt), harr⟩

end Before

/-- The priority lists are sorted, and every waiting thread has come before the next one that will
wait. -/
structure Sorted (w : Waits T O) (arrival : T → ℕ) (arrivals : ℕ) : Prop where
  sorted : ∀ o, w.flag o = .prio → (w.suspend o).Pairwise (Before w.priority arrival)
  arrived : ∀ o, ∀ t ∈ w.suspend o, arrival t < arrivals

/-- A waiting thread with the priority `p` is still before and after the same threads. -/
def KeepsPlace (w : Waits T O) (arrival : T → ℕ) (t : T) (p : UInt8) : Prop :=
  ∀ o, w.flag o = .prio → t ∈ w.suspend o → ∀ x ∈ w.suspend o, x ≠ t →
    (Before w.priority arrival x t → Before (update w.priority t p) arrival x t) ∧
    (Before w.priority arrival t x → Before (update w.priority t p) arrival t x)

namespace Sorted

variable {w w' : Waits T O} {arrival : T → ℕ} {arrivals : ℕ} {t : T} {o : O}

variable (h : Sorted w arrival arrivals)

include h

omit [DecidableEq T] [DecidableEq O] in
/-- A step after which the priorities are the same and nobody new waits. -/
lemma of_sublist (hprio : w'.priority = w.priority)
    (hflag : w'.flag = w.flag) (hsub : ∀ o, (w'.suspend o).Sublist (w.suspend o)) :
    Sorted w' arrival arrivals := by
  refine ⟨fun o ho => ?_, fun o t ht => h.arrived o t ((hsub o).subset ht)⟩
  rw [hprio]
  exact (h.sorted o (hflag ▸ ho)).sublist (hsub o)

omit [DecidableEq O] in
lemma setError (e : RtErr) : Sorted (w.setError t e) arrival arrivals :=
  h.of_sublist Waits.priority_setError rfl fun _ => List.Sublist.refl _

lemma takeOut : Sorted (w.takeOut o t) arrival arrivals := by
  refine h.of_sublist Waits.priority_takeOut rfl fun o' => ?_
  by_cases hoo : o' = o
  · subst hoo
    rw [Waits.suspend_takeOut_self]
    exact List.erase_sublist
  · rw [Waits.suspend_takeOut_of_ne hoo]

section

omit [DecidableEq O]

lemma wake : Sorted (w.wake t) arrival arrivals :=
  h.of_sublist Waits.priority_wake rfl fun _ => List.Sublist.refl _

lemma setPriority (hwf : w.WF) {p : UInt8}
    (hplace : KeepsPlace w arrival t p) : Sorted (w.setPriority t p) arrival arrivals := by
  refine ⟨fun o ho => ?_, h.arrived⟩
  rw [Waits.priority_setPriority]
  -- the list is the same, and each pair of it is in the same order as before
  have hpair := (h.sorted o ho).and (hwf.nodup o)
  refine hpair.imp_of_mem fun {a b} ha hb hab => ?_
  obtain ⟨hbefore, hne⟩ := hab
  by_cases hat : a = t
  · subst hat
    exact (hplace o ho ha b hb (Ne.symm hne)).2 hbefore
  by_cases hbt : b = t
  · subst hbt
    exact (hplace o ho hb a ha hat).1 hbefore
  unfold Before at hbefore ⊢
  rwa [update_of_ne hat, update_of_ne hbt]

lemma setPriority_of_not_mem (hwf : w.WF) {p : UInt8}
    (ht : ∀ o, t ∉ w.suspend o) : Sorted (w.setPriority t p) arrival arrivals :=
  h.setPriority hwf fun o _ hmem => absurd hmem (ht o)

end

/-- `rt_ipc_list_suspend` keeps the order: a thread that starts to wait is the last one of its
priority. -/
lemma suspendThread (ht : ∀ o, t ∉ w.suspend o) (time : ℤ) :
    Sorted (w.suspendThread o t time) (update arrival t arrivals) (arrivals + 1) := by
  have hne : ∀ o, ∀ x ∈ w.suspend o, x ≠ t := by
    rintro o x hx rfl
    exact ht o hx
  have harr : ∀ o, ∀ x ∈ w.suspend o, update arrival t arrivals x = arrival x :=
    fun o x hx => update_of_ne (hne o x hx) _ _
  -- the new arrival time is not that of a thread in a list
  have hold : ∀ o, w.flag o = .prio →
      (w.suspend o).Pairwise (Before w.priority (update arrival t arrivals)) := by
    intro o' ho
    refine (h.sorted o' ho).imp_of_mem fun {a b} ha hb hab => ?_
    unfold Before at hab ⊢
    rwa [harr o' a ha, harr o' b hb]
  refine ⟨fun o' ho => ?_, fun o' x hx => ?_⟩
  · rw [Waits.priority_suspendThread]
    by_cases hoo : o' = o
    · subst hoo
      have hflag : w.flag o' = .prio := ho
      rw [Waits.suspend_suspendThread_self, hflag]
      simp only [ipcListSuspend, insertByPriority_eq]
      apply pairwise_insertBy (hold o' ho)
      · intro a _ b _ hab hb
        exact decide_eq_true (hab.le_trans (of_decide_eq_true hb))
      · intro a ha hle
        refine Before.of_le (of_decide_eq_true hle) ?_
        rw [harr o' a ha, update_self]
        exact h.arrived o' a ha
      · intro a _ hle
        exact Or.inl (UInt8.not_le.mp (of_decide_eq_false hle))
    · rw [Waits.suspend_suspendThread_of_ne hoo]
      exact hold o' ho
  · rcases Waits.mem_suspend_suspendThread.mp hx with ⟨rfl, -⟩ | hx
    · rw [update_self]
      exact Nat.lt_succ_self arrivals
    · rw [harr o' x hx]
      exact (h.arrived o' x hx).trans (Nat.lt_succ_self arrivals)

end Sorted

namespace Mutex

variable {M : Type} [DecidableEq M] {m m' : Machine T M O}

/-- Every priority list is sorted by priority, and by arrival for equal priorities. -/
def SortedWaits (m : Machine T M O) : Prop :=
  ∀ o, m.sys.waits.flag o = .prio →
    (m.sys.waits.suspend o).Pairwise (Before m.sys.waits.priority m.arrival)

/-- A priority that changes while the thread waits fits the place of the thread. The priority may be
changed by the application, or by a thread that starts to wait for a mutex of the thread. -/
def KeepsPlaces (m : Machine T M O) : Act T M O → Prop
  | .take t μ time => ∀ v, (m.sys.mutex μ).owner = some v → time ≠ 0 →
      m.sys.waits.priority t < m.sys.waits.priority v →
      KeepsPlace m.sys.waits m.arrival v (m.sys.waits.priority t)
  | .setPriority t p => KeepsPlace m.sys.waits m.arrival t p
  | _ => True

omit [DecidableEq O] [DecidableEq M] in
lemma Sorted.inherit {w : Waits T (M ⊕ O)} {arrival : T → ℕ} {arrivals : ℕ} {t v : T}
    (h : Sorted w arrival arrivals) (hwf : w.WF)
    (hplace : w.priority t < w.priority v → KeepsPlace w arrival v (w.priority t)) :
    Sorted (inherit w t v) arrival arrivals := by
  unfold Mutex.inherit
  split
  case isTrue hlt => exact h.setPriority hwf (hplace hlt)
  case isFalse => exact h

def AllSorted (m : Machine T M O) : Prop := Sorted m.sys.waits m.arrival m.arrivals

lemma AllSorted.change (h : AllSorted m) (hwf : m.sys.waits.WF) {a : Act T M O}
    (ha : KeepsPlaces m a) (hc : Change m a m') : AllSorted m' := by
  -- a thread that runs is in no list
  have hnot : ∀ {t}, (m.sys.waits.thread t).phase = .running → ∀ o, t ∉ m.sys.waits.suspend o :=
    fun hrun => hwf.not_mem fun o timed => by simp [hrun]
  cases hc with
  | takeNested => exact h.setError .eok
  | takeFree => exact h.setError .eok
  | takeFail => exact h.setError .etimeout
  | @takeWait t v μ time hrun howner hne htime =>
    have hraised : Sorted (Mutex.inherit (m.sys.waits.setError t .eok) t v) m.arrival m.arrivals := by
      apply Sorted.inherit (h.setError .eok) (hwf.setError t .eok)
      rw [KeepsPlace, Waits.priority_setError]
      exact ha v howner htime
    refine hraised.suspendThread (fun o => ?_) time
    rw [(sameBut_inherit _ t v).suspend]
    exact hnot hrun o
  | releaseFail => exact h.setError .error
  | releaseNested => exact h
  | releaseFree hrun => exact h.setPriority_of_not_mem hwf (hnot hrun)
  | releaseHand hrun => exact (h.setPriority_of_not_mem hwf (hnot hrun)).takeOut
  | timeout => exact (h.setError .etimeout).takeOut
  | finishTake => exact h.wake
  | finishOther => exact h.wake
  | @block t o time hrun => exact (h.setError .eok).suspendThread (hnot hrun) time
  | wake => exact (h.setError _).takeOut
  | setPriority => exact h.setPriority hwf ha

/-- In every run in which the priority of a waiting thread changes only within its place, every
priority list is sorted. -/
theorem sortedWaits_of_keepsPlaces (hm : Reach Initial step KeepsPlaces m) : SortedWaits m := by
  have hsorted : AllSorted m := by
    apply hm.invariant_of (J := fun m => Inv m.sys) (I := AllSorted)
    · exact fun m hm => inv_of_reach hm
    · intro m hinit
      refine ⟨fun o _ => ?_, fun o t ht => ?_⟩
      · rw [hinit.suspend]
        exact List.Pairwise.nil
      · rw [hinit.suspend] at ht
        cases ht
    · intro m a m' inv h ha hok
      exact h.change inv.wf ha (change_of_step inv.wf hok)
  exact hsorted.sorted

def threePriorities (t : Fin 3) : UInt8 := if t = 0 then 20 else if t = 1 then 10 else 5

/-- A test for `KeepsPlaces`: no thread in a list changes its priority. -/
def waitingUnchanged (m : Machine (Fin 3) Unit Bool) : Act (Fin 3) Unit Bool → Bool
  | .take _ μ _ => decide (∀ v, (m.sys.mutex μ).owner = some v →
      v ∉ m.sys.waits.suspend (.inl ()) ∧ ∀ o, v ∉ m.sys.waits.suspend (.inr o))
  | .setPriority _ _ => false
  | _ => true

lemma keepsPlaces_of_test {m : Machine (Fin 3) Unit Bool} {a : Act (Fin 3) Unit Bool}
    (h : waitingUnchanged m a = true) : KeepsPlaces m a := by
  cases a with
  | take t μ time =>
    intro v hv _ _ o _ hmem
    obtain ⟨hmutex, hother⟩ := of_decide_eq_true h v hv
    cases o with
    | inl μ' => exact absurd hmem hmutex
    | inr o => exact absurd hmem (hother o)
  | setPriority t p => cases h
  | _ => exact trivial

/-- The threads with the priorities 20 and 10 wait, in this order, for the same object. -/
theorem sortedWaits_two_waiting : ∃ m : Machine (Fin 3) Unit Bool,
    m.sys.waits.flag (.inr false) = .prio ∧ m.sys.waits.suspend (.inr false) = [1, 0] ∧
      SortedWaits m := by
  obtain ⟨m, hreach, hflag, hlist⟩ : ∃ m : Machine (Fin 3) Unit Bool,
      Reach Initial step KeepsPlaces m ∧ m.sys.waits.flag (.inr false) = .prio ∧
        m.sys.waits.suspend (.inr false) = [1, 0] :=
    exists_of_run (fun _ _ => keepsPlaces_of_test) (initial_start threePriorities fun _ => .prio)
      [.take 2 () 0, .block 0 false 100, .block 1 false (-1), .release 2 ()] (by decide +kernel)
  exact ⟨m, hflag, hlist, sortedWaits_of_keepsPlaces hreach⟩

/-- The thread with the priority 20 has a mutex and waits for another object behind the one with the
priority 10. A third thread that wants the mutex raises it to 5, and it stays where it is. -/
theorem raised_behind_waiting : ∃ m : Machine (Fin 3) Unit Bool,
    Reach Initial step (fun _ _ => True) m ∧ ¬ SortedWaits m := by
  obtain ⟨m, hreach, hflag, hlist, hnot⟩ : ∃ m : Machine (Fin 3) Unit Bool,
      Reach Initial step (fun _ _ => True) m ∧ m.sys.waits.flag (.inr false) = .prio ∧
        m.sys.waits.suspend (.inr false) = [1, 0] ∧
        ¬ Before m.sys.waits.priority m.arrival 1 0 :=
    exists_of_free_run (initial_start threePriorities fun _ => .prio)
      [.take 0 () 0, .block 1 false 100, .block 0 false 100, .take 2 () 100] (by decide +kernel)
  refine ⟨m, hreach, fun hsorted => hnot ?_⟩
  have hpair := hsorted (.inr false) hflag
  rw [hlist] at hpair
  exact List.rel_of_pairwise_cons hpair List.mem_cons_self

end Mutex

end Ipc
