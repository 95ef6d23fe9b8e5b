import TempSns.Ipc.Waits
import TempSns.Lib.Transition

/-!
# Semaphores

Embedding of `rt_sem_take` and `rt_sem_release`, and the machine of one semaphore: any number of
threads take it, wait and time out, and releases come from threads and interrupt handlers. A step of
the machine is one critical section.

A release hands its token to the first waiting thread without changing the value. Between that and
the return of the thread from `rt_sem_take` the token is in flight.
-/

namespace Ipc

open Waits List Option Transition

/-- `struct rt_semaphore`, with the threads. -/
structure Semaphore (T : Type) where
  value : UInt16
  waits : Waits T Unit

variable {T : Type} [DecidableEq T] {w : Waits T Unit} {e : RtErr}

/-- The critical section of `rt_sem_take` of the thread `t`. The result is `none` if the thread
waits. -/
def rtSemTake (s : Semaphore T) (t : T) (time : ℤ) : Semaphore T × Option RtErr :=
  if 0 < s.value then ({ s with value := s.value - 1 }, some .eok)
  -- no waiting, return with timeout
  else if time = 0 then (s, some .etimeout)
  else ({ s with waits := (s.waits.setError t .eok).suspendThread () t time }, none)

def rtSemRelease (s : Semaphore T) : Semaphore T :=
  match s.waits.suspend () with
  | t :: _ => { s with waits := s.waits.resume t }
  | [] => { s with value := s.value + 1 }

namespace Semaphore

/-- A semaphore with its history. -/
structure Machine (T : Type) where
  sem : Semaphore T
  /-- The threads that got a token, one entry for each token. -/
  takers : List T
  /-- The calls of `rt_sem_take` that returned, with their results. -/
  returns : List (T × RtErr)
  releases : ℕ

inductive Act (T : Type) where
  /-- A thread calls `rt_sem_take`. -/
  | take (t : T) (time : ℤ)
  /-- `rt_sem_release` is called. -/
  | release
  /-- The timer of a waiting thread expires. -/
  | timeout (t : T)
  /-- A thread that was resumed goes on and returns from `rt_sem_take`. -/
  | finish (t : T)
  /-- The priority of a thread changes. -/
  | setPriority (t : T) (p : UInt8)

/-- The call of `t` returned `e`. -/
def Machine.record (m : Machine T) (t : T) (e : RtErr) : Machine T :=
  { m with returns := m.returns ++ [(t, e)] }

def step (m : Machine T) : Act T → Option (Machine T)
  | .take t time =>
    if (m.sem.waits.thread t).phase = .running then
      match rtSemTake m.sem t time with
      | (sem, some .eok) => some ({ m with sem := sem, takers := m.takers ++ [t] }.record t .eok)
      | (sem, some e) => some ({ m with sem := sem }.record t e)
      | (sem, none) => some { m with sem := sem }
    else none
  | .release => some { m with
      sem := rtSemRelease m.sem
      takers := m.takers ++ (m.sem.waits.suspend ()).take 1
      releases := m.releases + 1 }
  | .timeout t => (m.sem.waits.timeout t).map fun w => { m with sem := { m.sem with waits := w } }
  | .finish t =>
    if (m.sem.waits.thread t).phase = .resumed () then
      some ({ m with sem := { m.sem with waits := m.sem.waits.wake t } }.record t
        (m.sem.waits.thread t).error)
    else none
  | .setPriority t p =>
    some { m with sem := { m.sem with waits := m.sem.waits.setPriority t p } }

/-- A semaphore after `rt_sem_init`, with no history, and threads that do not wait. -/
def Initial (value : UInt16) (m : Machine T) : Prop :=
  m.sem.value = value ∧ (∀ t, (m.sem.waits.thread t).phase = .running) ∧
    m.sem.waits.suspend () = [] ∧ m.takers = [] ∧ m.returns = [] ∧ m.releases = 0

/-- The value stays within 16 bits. -/
def NoWrap (m : Machine T) : Act T → Prop
  | .release => m.sem.waits.suspend () = [] → m.sem.value.toNat + 1 < 2 ^ 16
  | _ => True

/-! ## Conservation of the tokens -/

variable {m m' : Machine T} {value : UInt16} {t : T}

/-- The threads whose call returned `RT_EOK`, one entry for each call. -/
def Machine.succeeded (m : Machine T) : List T :=
  (m.returns.filter fun r => decide (r.2 = .eok)).map Prod.fst

omit [DecidableEq T] in
lemma succeeded_record_eok : (m.record t .eok).succeeded = m.succeeded ++ [t] := by
  simp [Machine.record, Machine.succeeded]

omit [DecidableEq T] in
lemma succeeded_record_of_ne (he : e ≠ .eok) : (m.record t e).succeeded = m.succeeded := by
  simp [Machine.record, Machine.succeeded, he]

/-- The token of a thread that was resumed by a release is in flight until the thread returns. -/
def InFlight (m : Machine T) (t : T) : Prop :=
  (m.sem.waits.thread t).phase = .resumed () ∧ (m.sem.waits.thread t).error = .eok

/-- The invariant of the machine; `flying` are the threads whose tokens are in flight. -/
structure Inv (value : UInt16) (m : Machine T) (flying : List T) : Prop where
  wf : m.sem.waits.WF
  count : m.sem.value.toNat + m.takers.length = value.toNat + m.releases
  takers : m.takers.Perm (m.succeeded ++ flying)
  flying_iff : ∀ t, t ∈ flying ↔ InFlight m t
  nodup : flying.Nodup
  zero : m.sem.waits.suspend () ≠ [] → m.sem.value = 0
  error : ∀ t ∈ m.sem.waits.suspend (), (m.sem.waits.thread t).error = .eok

variable {flying : List T}

namespace Inv

omit [DecidableEq T] in
lemma init (h : Initial value m) : Inv value m [] := by
  obtain ⟨hvalue, hrun, hnil, htakers, hreturns, hreleases⟩ := h
  refine ⟨⟨fun o t => ?_, fun o => ?_⟩, ?_, ?_, fun t => ?_, nodup_nil, ?_, ?_⟩
  · simp [hrun, hnil]
  · simp [hnil]
  · simp [hvalue, htakers, hreleases]
  · simp [htakers, hreturns, Machine.succeeded]
  · simp [InFlight, hrun]
  · simp [hnil]
  · simp [hnil]

section

variable (h : Inv value m flying)

include h

section

omit [DecidableEq T]

lemma takeValue (hpos : 0 < m.sem.value) : Inv value ({ m with
      sem := { m.sem with value := m.sem.value - 1 }
      takers := m.takers ++ [t] }.record t .eok) flying := by
  have hnil : m.sem.waits.suspend () = [] := by
    by_contra hne
    simp [h.zero hne] at hpos
  refine ⟨h.wf, ?_, ?_, h.flying_iff, h.nodup, fun hne => absurd hnil hne, h.error⟩
  · -- one token less in the value, one more with the takers
    have hcount := h.count
    have hsub : (m.sem.value - 1).toNat = m.sem.value.toNat - 1 :=
      UInt16.toNat_sub_of_le _ _ (UInt16.le_iff_toNat_le.mpr (UInt16.lt_iff_toNat_lt.mp hpos))
    have hpos' := UInt16.lt_iff_toNat_lt.mp hpos
    simp only [Machine.record, length_append, length_singleton, hsub]
    simp at hpos'
    omega
  · rw [succeeded_record_eok]
    refine (h.takers.append_right [t]).trans ?_
    simp only [append_assoc, Machine.succeeded]
    exact List.Perm.append_left _ perm_append_comm

/-- `rt_sem_take` without a token, and without waiting. -/
lemma takeFail (he : e ≠ .eok) : Inv value (m.record t e) flying := by
  refine ⟨h.wf, h.count, ?_, h.flying_iff, h.nodup, h.zero, h.error⟩
  rw [succeeded_record_of_ne he]
  exact h.takers

lemma setWaits (hwf : w.WF)
    (hflight : ∀ t, (w.thread t).phase = .resumed () ∧ (w.thread t).error = .eok ↔ InFlight m t)
    (hzero : w.suspend () ≠ [] → m.sem.value = 0)
    (herror : ∀ t ∈ w.suspend (), (w.thread t).error = .eok) :
    Inv value { m with sem := { m.sem with waits := w } } flying :=
  ⟨hwf, h.count, h.takers, fun t => (h.flying_iff t).trans (hflight t).symm, h.nodup, hzero, herror⟩

end

lemma takeWait (ht : (m.sem.waits.thread t).phase = .running)
    (hvalue : ¬ 0 < m.sem.value) (time : ℤ) :
    Inv value { m with sem := { m.sem with
      waits := (m.sem.waits.setError t .eok).suspendThread () t time } } flying := by
  have hrun : ∀ o timed, ((m.sem.waits.setError t .eok).thread t).phase ≠ .waiting o timed := by
    simp [ht]
  apply h.setWaits ((h.wf.setError t .eok).suspendThread hrun () time)
  · intro t'
    by_cases htt : t' = t
    · subst htt
      simp [InFlight, ht]
    · rw [thread_suspendThread_of_ne htt, thread_setError_of_ne htt]
      rfl
  · intro _
    simpa using hvalue
  · intro t' ht'
    by_cases htt : t' = t
    · subst htt
      simp
    · rw [thread_suspendThread_of_ne htt, thread_setError_of_ne htt]
      refine h.error t' ?_
      rw [suspend_suspendThread_self, mem_ipcListSuspend] at ht'
      exact ht'.resolve_left htt

omit [DecidableEq T] in
lemma releaseValue (hnil : m.sem.waits.suspend () = []) (hwrap : m.sem.value.toNat + 1 < 2 ^ 16) :
    Inv value { m with
      sem := { m.sem with value := m.sem.value + 1 }
      releases := m.releases + 1 } flying := by
  refine ⟨h.wf, ?_, h.takers, h.flying_iff, h.nodup, fun hne => absurd hnil hne, h.error⟩
  have hadd : (m.sem.value + 1).toNat = m.sem.value.toNat + 1 := by
    rw [UInt16.toNat_add]
    exact Nat.mod_eq_of_lt hwrap
  have hcount := h.count
  simp only [hadd]
  omega

/-- `rt_sem_release` hands its token to the first waiting thread. -/
lemma releaseWaiter {ts : List T} (hcons : m.sem.waits.suspend () = t :: ts) : Inv value { m with
      sem := { m.sem with waits := m.sem.waits.takeOut () t }
      takers := m.takers ++ [t]
      releases := m.releases + 1 } (flying ++ [t]) := by
  obtain ⟨timed, hphase⟩ := h.wf.head hcons
  have hmem : t ∈ m.sem.waits.suspend () := by
    rw [hcons]
    exact mem_cons_self
  have hnot : t ∉ flying := by
    rw [h.flying_iff]
    simp [InFlight, hphase]
  refine ⟨h.wf.takeOut hphase, ?_, ?_, fun t' => ?_, ?_, fun _ => ?_, fun t' ht' => ?_⟩
  · have hcount := h.count
    simp only [length_append, length_singleton]
    omega
  · refine (h.takers.append_right [t]).trans ?_
    rw [append_assoc]
    rfl
  · rw [mem_append, mem_singleton, h.flying_iff]
    by_cases htt : t' = t
    · subst htt
      simp [InFlight, h.error t' hmem]
    · simp only [InFlight, thread_takeOut_of_ne htt, or_iff_left htt]
  · exact nodup_append_comm.mp (nodup_cons.mpr ⟨hnot, h.nodup⟩)
  · exact h.zero (by simp [hcons])
  · rw [suspend_takeOut_self] at ht'
    have ht'' := mem_of_mem_erase ht'
    by_cases htt : t' = t
    · subst htt
      rw [thread_takeOut_self]
      exact h.error t' hmem
    · rw [thread_takeOut_of_ne htt]
      exact h.error t' ht''

lemma timeout (hok : m.sem.waits.timeout t = some w) :
    Inv value { m with sem := { m.sem with waits := w } } flying := by
  have hwf := h.wf.timeout hok
  unfold Waits.timeout at hok
  split at hok
  case h_2 => cases hok
  case h_1 o hphase =>
    obtain rfl := some.inj hok
    have hmem : t ∈ m.sem.waits.suspend () := (h.wf.mem_iff _ _).mpr ⟨_, hphase⟩
    apply h.setWaits hwf
    · intro t'
      by_cases htt : t' = t
      · -- neither before nor after the timeout it has a token
        subst htt
        simp [InFlight, hphase]
      · rw [Waits.thread_takeOut_of_ne htt, Waits.thread_setError_of_ne htt]
        rfl
    · intro _
      exact h.zero (ne_nil_of_mem hmem)
    · intro t' ht'
      rw [Waits.suspend_takeOut_self] at ht'
      have htt : t' ≠ t := ((h.wf.nodup ()).mem_erase_iff.mp ht').1
      rw [Waits.thread_takeOut_of_ne htt, Waits.thread_setError_of_ne htt]
      exact h.error t' (mem_of_mem_erase ht')

/-- The history grows by a call that returns. -/
lemma finish (ht : (m.sem.waits.thread t).phase = .resumed ()) :
    ∃ flying, Inv value ({ m with sem := { m.sem with waits := m.sem.waits.wake t } }.record t
      (m.sem.waits.thread t).error) flying := by
  have hself : ((m.sem.waits.wake t).thread t).phase = .running := by simp [wake]
  have hother : ∀ t' ≠ t, (m.sem.waits.wake t).thread t' = m.sem.waits.thread t' := fun t' htt =>
    thread_setThread_of_ne htt
  have herror : ∀ t' ∈ m.sem.waits.suspend (), ((m.sem.waits.wake t).thread t').error = .eok := by
    intro t' ht'
    have htt : t' ≠ t := by
      rintro rfl
      obtain ⟨timed, hphase⟩ := (h.wf.mem_iff _ _).mp ht'
      simp [ht] at hphase
    rw [hother t' htt]
    exact h.error t' ht'
  by_cases he : (m.sem.waits.thread t).error = .eok
  · -- the token arrives
    have hmem : t ∈ flying := (h.flying_iff t).mpr ⟨ht, he⟩
    refine ⟨flying.erase t, h.wf.wake ht, h.count, ?_, fun t' => ?_, h.nodup.erase t, h.zero, herror⟩
    · rw [he, succeeded_record_eok]
      refine h.takers.trans ?_
      rw [append_assoc]
      exact List.Perm.append_left _ (perm_cons_erase hmem)
    · rw [h.nodup.mem_erase_iff, h.flying_iff]
      by_cases htt : t' = t
      · subst htt
        simp [InFlight, Machine.record, hself]
      · simp [InFlight, Machine.record, hother t' htt, htt]
  · refine ⟨flying, h.wf.wake ht, h.count, ?_, fun t' => ?_, h.nodup, h.zero, herror⟩
    · rw [succeeded_record_of_ne he]
      exact h.takers
    · rw [h.flying_iff]
      by_cases htt : t' = t
      · subst htt
        simp [InFlight, Machine.record, hself, he]
      · simp [InFlight, Machine.record, hother t' htt]

lemma setPriority (t : T) (p : UInt8) :
    Inv value { m with sem := { m.sem with waits := m.sem.waits.setPriority t p } } flying := by
  have hsame : ∀ t', ((m.sem.waits.setPriority t p).thread t').phase = (m.sem.waits.thread t').phase ∧
      ((m.sem.waits.setPriority t p).thread t').error = (m.sem.waits.thread t').error := fun t' => by
    by_cases htt : t' = t
    · subst htt
      simp [Waits.setPriority]
    · rw [Waits.setPriority, Waits.thread_setThread_of_ne htt]
      exact ⟨rfl, rfl⟩
  apply h.setWaits (h.wf.setPriority t p)
  · intro t'
    rw [(hsame t').1, (hsame t').2]
    rfl
  · exact h.zero
  · intro t' ht'
    rw [(hsame t').2]
    exact h.error t' ht'

lemma step {a : Act T} (ha : NoWrap m a)
    (hok : Semaphore.step m a = some m') : ∃ flying, Inv value m' flying := by
  cases a with
  | take t time =>
    simp only [Semaphore.step] at hok
    split at hok
    case isFalse => cases hok
    case isTrue ht =>
      unfold rtSemTake at hok
      by_cases hpos : 0 < m.sem.value
      · rw [if_pos hpos] at hok
        obtain rfl := some.inj hok
        exact ⟨flying, h.takeValue hpos⟩
      · rw [if_neg hpos] at hok
        by_cases htime : time = 0
        · rw [if_pos htime] at hok
          obtain rfl := some.inj hok
          exact ⟨flying, h.takeFail (by simp)⟩
        · rw [if_neg htime] at hok
          obtain rfl := some.inj hok
          exact ⟨flying, h.takeWait ht hpos time⟩
  | release =>
    simp only [Semaphore.step, rtSemRelease] at hok
    obtain rfl := some.inj hok
    cases hlist : m.sem.waits.suspend () with
    | nil =>
      have hrel := h.releaseValue hlist (ha hlist)
      exact ⟨flying, by simpa using hrel⟩
    | cons t ts =>
      obtain ⟨timed, hphase⟩ := h.wf.head hlist
      have hresume : m.sem.waits.resume t = m.sem.waits.takeOut () t := by
        unfold resume
        rw [hphase]
      refine ⟨flying ++ [t], ?_⟩
      simp only [hresume, take_succ_cons, take_zero]
      exact h.releaseWaiter hlist
  | timeout t =>
    obtain ⟨w, hw, rfl⟩ := map_eq_some_iff.mp hok
    exact ⟨flying, h.timeout hw⟩
  | finish t =>
    simp only [Semaphore.step] at hok
    split at hok
    case isFalse => cases hok
    case isTrue ht =>
      obtain rfl := some.inj hok
      exact h.finish ht
  | setPriority t p =>
    obtain rfl := some.inj hok
    exact ⟨flying, h.setPriority t p⟩

end

end Inv

/-- The tokens are conserved: those in the value and those given out are the initial ones and the
released ones. Each token given out is that of a call that returned `RT_EOK`, or it is in flight to a
thread that was resumed; a thread that timed out has none. While a thread waits, the value is
zero. -/
def Conserves (value : UInt16) (m : Machine T) : Prop :=
  m.sem.value.toNat + m.takers.length = value.toNat + m.releases ∧
    (∃ flying : List T, flying.Nodup ∧ (∀ t, t ∈ flying ↔ InFlight m t) ∧
      m.takers.Perm (m.succeeded ++ flying)) ∧
    (m.sem.waits.suspend () ≠ [] → m.sem.value = 0)

/-- In every run of takes, timeouts and releases the tokens are conserved. -/
theorem conserves_of_reach (hm : Reach (Initial value) step NoWrap m) : Conserves value m := by
  have hinv : ∃ flying, Inv value m flying := by
    apply hm.invariant (I := fun m => ∃ flying, Inv value m flying)
    · intro m hinit
      exact ⟨[], Inv.init hinit⟩
    · rintro m a m' ⟨flying, h⟩ ha hok
      exact h.step ha hok
  obtain ⟨flying, h⟩ := hinv
  exact ⟨h.count, ⟨flying, h.nodup, h.flying_iff, h.takers⟩, h.zero⟩

/-- One token and two threads: the first one takes it, the second one waits and gets the token of a
release; then the first one waits and times out. -/
theorem conserves_after_timeout : ∃ m : Machine Bool,
    m.returns = [(false, .eok), (true, .eok), (false, .etimeout)] ∧ Conserves 1 m := by
  obtain ⟨m, hrun, hfacts⟩ := (any_eq_true _ _).mp
    (show (Transition.run step (fun m _ => decide (m.sem.value = 0 ∨ m.sem.value = 1))
      (⟨⟨1, ⟨fun _ => ⟨20, .eok, .running⟩, fun _ => [], fun _ => .prio⟩⟩, [], [], 0⟩ : Machine Bool)
      [.take false 0, .take true 5, .release, .finish true, .take false 3, .timeout false,
        .finish false]).any (fun m => decide
        (m.returns = [(false, .eok), (true, .eok), (false, .etimeout)])) = true by decide +kernel)
  refine ⟨m, of_decide_eq_true hfacts, conserves_of_reach
    ((Reach.init ⟨rfl, fun _ => rfl, rfl, rfl, rfl, rfl⟩).run (fun m a h => ?_) hrun)⟩
  cases a with
  | release =>
    intro _
    rcases of_decide_eq_true h with h | h <;> rw [h] <;> decide
  | _ => exact trivial

end Semaphore

end Ipc
