import TempSns.Lib.SortedInsert
import TempSns.RtDef

/-!
# Waiting threads

The part that all IPC objects of `src/ipc.c` share: the lists of threads that are suspended on an
object, and what suspends and resumes them. `O` is the type of the lists; a mailbox has two of them,
every other object one.

`Phase` says where a thread is.

* `running`: in no call that waits. All calls in one critical section start and end here.
* `waiting o timed`: suspended in the list `o`. If `timed`, the timer of the thread is active, and
  `rt_thread_timeout` may take the thread out.
* `resumed o`: taken out of the list `o`. The thread has not continued its call yet, and its
  timer is stopped. What it does next depends on `thread->error`.
-/

namespace Ipc

open SortedInsert Function List

/-- The order of a suspend list. -/
inductive IpcFlag where
  | fifo
  | prio
  deriving DecidableEq, Repr

/-- Where a thread is in a call that may wait. -/
inductive Phase (O : Type) where
  | running
  | waiting (o : O) (timed : Bool)
  | resumed (o : O)
  deriving DecidableEq, Repr

/-- The part of `struct rt_thread` that the IPC functions use. -/
structure Thread (O : Type) where
  currentPriority : UInt8
  error : RtErr
  /-- The place in the current call. -/
  phase : Phase O
  deriving DecidableEq, Repr

variable {T O : Type} {time : ℤ} {x : Thread O} {e : RtErr} {p : UInt8}

/-! ## Suspend list -/

/-- The search of `rt_ipc_list_suspend` with `RT_IPC_FLAG_PRIO`: before the first thread with a
larger priority value, or at the end. -/
def insertByPriority (priority : T → UInt8) (t : T) : List T → List T
  | [] => [t]
  | s :: list =>
    if priority t < priority s then t :: s :: list else s :: insertByPriority priority t list

def ipcListSuspend (flag : IpcFlag) (priority : T → UInt8) (t : T) (list : List T) : List T :=
  match flag with
  | .fifo => list ++ [t]
  | .prio => insertByPriority priority t list

lemma insertByPriority_eq (priority : T → UInt8) (t : T) (list : List T) :
    insertByPriority priority t list =
      insertBy (fun s => decide (priority s ≤ priority t)) t list := by
  induction list with
  | nil => rfl
  | cons s list ih =>
    unfold insertByPriority
    by_cases hlt : priority t < priority s
    · -- the search ends here
      have hnot : ¬ priority s ≤ priority t := UInt8.not_le.mpr hlt
      rw [if_pos hlt, insertBy, takeWhile_cons_of_neg (by simpa using hnot),
        dropWhile_cons_of_neg (by simpa using hnot)]
      rfl
    · have hle : priority s ≤ priority t := UInt8.not_lt.mp hlt
      rw [if_neg hlt, ih, insertBy, insertBy, takeWhile_cons_of_pos (by simpa using hle),
        dropWhile_cons_of_pos (by simpa using hle)]
      rfl

lemma ipcListSuspend_perm (flag : IpcFlag) (priority : T → UInt8) (t : T) (list : List T) :
    (ipcListSuspend flag priority t list).Perm (t :: list) := by
  cases flag with
  | fifo => exact perm_append_comm
  | prio =>
    simp only [ipcListSuspend, insertByPriority_eq, insertBy]
    refine perm_middle.trans (List.Perm.cons t ?_)
    rw [takeWhile_append_dropWhile]

lemma mem_ipcListSuspend {flag : IpcFlag} {priority : T → UInt8} {t s : T} {list : List T} :
    s ∈ ipcListSuspend flag priority t list ↔ s = t ∨ s ∈ list := by
  rw [(ipcListSuspend_perm flag priority t list).mem_iff, mem_cons]

/-! ## All lists and threads -/

/-- The threads and the suspend lists of all objects. -/
structure Waits (T O : Type) where
  thread : T → Thread O
  /-- `suspend_thread` of the objects, and `suspend_sender_thread` of a mailbox. -/
  suspend : O → List T
  /-- The flag of the object of a list. -/
  flag : O → IpcFlag

namespace Waits

variable [DecidableEq T] [DecidableEq O] {w : Waits T O} {t t' : T} {o o' : O}

def priority (w : Waits T O) (t : T) : UInt8 := (w.thread t).currentPriority

def setThread (w : Waits T O) (t : T) (x : Thread O) : Waits T O :=
  { w with thread := update w.thread t x }

/-- `thread->error = e`. -/
def setError (w : Waits T O) (t : T) (e : RtErr) : Waits T O :=
  w.setThread t { w.thread t with error := e }

/-- `rt_thread_control` with `RT_THREAD_CTRL_CHANGE_PRIORITY`. A thread that waits keeps its place in
the suspend list. -/
def setPriority (w : Waits T O) (t : T) (p : UInt8) : Waits T O :=
  w.setThread t { w.thread t with currentPriority := p }

/-- `rt_ipc_list_suspend`, and the start of the thread timer if the time is positive. -/
def suspendThread (w : Waits T O) (o : O) (t : T) (time : ℤ) : Waits T O :=
  { w.setThread t { w.thread t with phase := .waiting o (decide (0 < time)) } with
    suspend := update w.suspend o
      (ipcListSuspend (w.flag o) w.priority t (w.suspend o)) }

def takeOut (w : Waits T O) (o : O) (t : T) : Waits T O :=
  { w.setThread t { w.thread t with phase := .resumed o } with
    suspend := update w.suspend o ((w.suspend o).erase t) }

/-- `rt_thread_resume`. It fails for a thread that does not wait. -/
def resume (w : Waits T O) (t : T) : Waits T O :=
  match (w.thread t).phase with
  | .waiting o _ => w.takeOut o t
  | _ => w

/-- `rt_ipc_list_resume` for a list that is not empty. -/
def resumeFirst (w : Waits T O) (o : O) : Waits T O :=
  match w.suspend o with
  | t :: _ => w.resume t
  | [] => w

/-- `rt_thread_timeout`, which the timer calls if it is active. -/
def timeout (w : Waits T O) (t : T) : Option (Waits T O) :=
  match (w.thread t).phase with
  | .waiting o true => some ((w.setError t .etimeout).takeOut o t)
  | _ => none

/-- `rt_ipc_list_resume_all`: every thread of the list is resumed with the error `-RT_ERROR`. -/
def resumeAll (w : Waits T O) (o : O) : Waits T O :=
  (w.suspend o).foldl (fun w t => (w.setError t .error).resume t) w

/-- A resumed thread has come to the end of its wait. -/
def wake (w : Waits T O) (t : T) : Waits T O :=
  w.setThread t { w.thread t with phase := .running }

/-! ### What the operations do to a thread -/

section

omit [DecidableEq O]

@[simp] lemma thread_setThread_self : (w.setThread t x).thread t = x := by
  simp [setThread]

lemma thread_setThread_of_ne (h : t' ≠ t) : (w.setThread t x).thread t' = w.thread t' := by
  simp [setThread, h]

@[simp] lemma suspend_setThread : (w.setThread t x).suspend = w.suspend := rfl

@[simp] lemma thread_setError_self :
    (w.setError t e).thread t = { w.thread t with error := e } := thread_setThread_self

lemma thread_setError_of_ne (h : t' ≠ t) :
    (w.setError t e).thread t' = w.thread t' := thread_setThread_of_ne h

end

@[simp] lemma thread_suspendThread_self : (w.suspendThread o t time).thread t =
    { w.thread t with phase := .waiting o (decide (0 < time)) } := thread_setThread_self

lemma thread_suspendThread_of_ne (h : t' ≠ t) :
    (w.suspendThread o t time).thread t' = w.thread t' := thread_setThread_of_ne h

@[simp] lemma suspend_suspendThread_self : (w.suspendThread o t time).suspend o =
    ipcListSuspend (w.flag o) w.priority t (w.suspend o) := by
  simp [suspendThread]

lemma suspend_suspendThread_of_ne (h : o' ≠ o) :
    (w.suspendThread o t time).suspend o' = w.suspend o' := by
  simp [suspendThread, h]

@[simp] lemma thread_takeOut_self :
    (w.takeOut o t).thread t = { w.thread t with phase := .resumed o } := thread_setThread_self

lemma thread_takeOut_of_ne (h : t' ≠ t) : (w.takeOut o t).thread t' = w.thread t' :=
  thread_setThread_of_ne h

@[simp] lemma suspend_takeOut_self : (w.takeOut o t).suspend o = (w.suspend o).erase t := by
  simp [takeOut]

lemma suspend_takeOut_of_ne (h : o' ≠ o) : (w.takeOut o t).suspend o' = w.suspend o' := by
  simp [takeOut, h]

/-! ### Priorities -/

section

omit [DecidableEq O]

@[simp] lemma priority_setError : (w.setError t e).priority = w.priority := by
  funext t'
  by_cases htt : t' = t
  · simp [priority, htt]
  · rw [priority, thread_setError_of_ne htt, priority]

lemma priority_setPriority : (w.setPriority t p).priority = update w.priority t p := by
  funext t'
  by_cases htt : t' = t
  · simp [priority, setPriority, htt]
  · rw [priority, setPriority, thread_setThread_of_ne htt, update_of_ne htt, priority]

@[simp] lemma priority_setPriority_self : (w.setPriority t p).priority t = p := by
  rw [priority_setPriority, update_self]

lemma priority_setPriority_of_ne (h : t' ≠ t) :
    (w.setPriority t p).priority t' = w.priority t' := by
  rw [priority_setPriority, update_of_ne h]

end

@[simp] lemma priority_suspendThread : (w.suspendThread o t time).priority = w.priority := by
  funext t'
  by_cases htt : t' = t
  · simp [priority, htt]
  · rw [priority, thread_suspendThread_of_ne htt, priority]

@[simp] lemma priority_takeOut : (w.takeOut o t).priority = w.priority := by
  funext t'
  by_cases htt : t' = t
  · simp [priority, htt]
  · rw [priority, thread_takeOut_of_ne htt, priority]

omit [DecidableEq O] in
@[simp] lemma priority_wake : (w.wake t).priority = w.priority := by
  funext t'
  by_cases htt : t' = t
  · simp [priority, wake, htt]
  · rw [priority, wake, thread_setThread_of_ne htt, priority]

/-! ### The lists hold the waiting threads -/

/-- Every list holds the threads that wait in it, once each. -/
structure WF (w : Waits T O) : Prop where
  mem_iff : ∀ o t, t ∈ w.suspend o ↔ ∃ timed, (w.thread t).phase = .waiting o timed
  nodup : ∀ o, (w.suspend o).Nodup

namespace WF

variable (h : w.WF)

include h

section

omit [DecidableEq O]

lemma setThread (hx : x.phase = (w.thread t).phase) : (w.setThread t x).WF := by
  refine ⟨fun o t' => ?_, h.nodup⟩
  rw [suspend_setThread, h.mem_iff]
  by_cases htt : t' = t
  · subst htt
    rw [thread_setThread_self, hx]
  · rw [thread_setThread_of_ne htt]

lemma setError (t : T) (e : RtErr) : (w.setError t e).WF := h.setThread rfl

lemma setPriority (t : T) (p : UInt8) : (w.setPriority t p).WF := h.setThread rfl

end

section

variable (ht : ∀ o timed, (w.thread t).phase ≠ .waiting o timed)

include ht

omit [DecidableEq T] [DecidableEq O] in
lemma not_mem (o : O) : t ∉ w.suspend o := by
  rw [h.mem_iff]
  rintro ⟨timed, hphase⟩
  exact ht o timed hphase

lemma suspendThread (o : O) (time : ℤ) : (w.suspendThread o t time).WF := by
  refine ⟨fun o' t' => ?_, fun o' => ?_⟩
  · by_cases hoo : o' = o
    · subst hoo
      rw [suspend_suspendThread_self, mem_ipcListSuspend]
      by_cases htt : t' = t
      · subst htt
        simp
      · rw [thread_suspendThread_of_ne htt, ← h.mem_iff, or_iff_right htt]
    · rw [suspend_suspendThread_of_ne hoo]
      by_cases htt : t' = t
      · -- the thread is in the list `o` only
        subst htt
        simp [h.not_mem ht o', Ne.symm hoo]
      · rw [thread_suspendThread_of_ne htt, h.mem_iff]
  · by_cases hoo : o' = o
    · subst hoo
      rw [suspend_suspendThread_self, (ipcListSuspend_perm _ _ _ _).nodup_iff]
      exact nodup_cons.mpr ⟨h.not_mem ht o', h.nodup o'⟩
    · rw [suspend_suspendThread_of_ne hoo]
      exact h.nodup o'

end

lemma takeOut {timed : Bool} (ht : (w.thread t).phase = .waiting o timed) :
    (w.takeOut o t).WF := by
  refine ⟨fun o' t' => ?_, fun o' => ?_⟩
  · by_cases htt : t' = t
    · -- the thread is in no list any more
      subst htt
      rw [thread_takeOut_self]
      by_cases hoo : o' = o
      · subst hoo
        simp [(h.nodup o').mem_erase_iff]
      · rw [suspend_takeOut_of_ne hoo, h.mem_iff, ht]
        simp [Ne.symm hoo]
    · rw [thread_takeOut_of_ne htt, ← h.mem_iff]
      by_cases hoo : o' = o
      · subst hoo
        rw [suspend_takeOut_self, (h.nodup o').mem_erase_iff, and_iff_right htt]
      · rw [suspend_takeOut_of_ne hoo]
  · by_cases hoo : o' = o
    · subst hoo
      rw [suspend_takeOut_self]
      exact (h.nodup o').erase t
    · rw [suspend_takeOut_of_ne hoo]
      exact h.nodup o'

lemma resume (t : T) : (w.resume t).WF := by
  unfold Waits.resume
  split
  case h_1 o timed ht => exact h.takeOut ht
  case h_2 => exact h

lemma timeout {w' : Waits T O} (hok : w.timeout t = some w') : w'.WF := by
  unfold Waits.timeout at hok
  split at hok
  case h_1 o ht =>
    obtain rfl := Option.some.inj hok
    have ht' : ((w.setError t .etimeout).thread t).phase = .waiting o true := by
      rw [thread_setError_self, ht]
    exact (h.setError t .etimeout).takeOut ht'
  case h_2 => cases hok

lemma resumeAll (o : O) : (w.resumeAll o).WF := by
  unfold Waits.resumeAll
  generalize w.suspend o = list
  induction list generalizing w with
  | nil => exact h
  | cons t list ih => exact ih ((h.setError t .error).resume t)

omit [DecidableEq O] in
lemma wake (ht : (w.thread t).phase = .resumed o) : (w.wake t).WF := by
  refine ⟨fun o' t' => ?_, h.nodup⟩
  rw [Waits.wake, suspend_setThread, h.mem_iff]
  by_cases htt : t' = t
  · subst htt
    rw [thread_setThread_self, ht]
    simp
  · rw [thread_setThread_of_ne htt]

end WF

/-! ### The lists after an operation -/

lemma mem_suspend_suspendThread :
    t' ∈ (w.suspendThread o t time).suspend o' ↔ (t' = t ∧ o' = o) ∨ t' ∈ w.suspend o' := by
  by_cases hoo : o' = o
  · subst hoo
    rw [suspend_suspendThread_self, mem_ipcListSuspend, and_iff_left rfl]
  · rw [suspend_suspendThread_of_ne hoo]
    simp [hoo]

lemma mem_of_mem_takeOut (ht' : t' ∈ (w.takeOut o t).suspend o') : t' ∈ w.suspend o' := by
  by_cases hoo : o' = o
  · subst hoo
    rw [suspend_takeOut_self] at ht'
    exact mem_of_mem_erase ht'
  · rwa [suspend_takeOut_of_ne hoo] at ht'

lemma WF.ne_of_mem_takeOut (h : w.WF) {timed : Bool} (ht : (w.thread t).phase = .waiting o timed)
    (ht' : t' ∈ (w.takeOut o t).suspend o') : t' ≠ t := by
  rintro rfl
  obtain ⟨timed', hphase⟩ := ((h.takeOut ht).mem_iff _ _).mp ht'
  simp at hphase

/-- The same waiting threads, with other priorities. -/
structure SameBut (w w' : Waits T O) : Prop where
  phase : ∀ t, (w'.thread t).phase = (w.thread t).phase
  error : ∀ t, (w'.thread t).error = (w.thread t).error
  suspend : w'.suspend = w.suspend
  flag : w'.flag = w.flag

omit [DecidableEq T] [DecidableEq O] in
lemma SameBut.refl (w : Waits T O) : SameBut w w := ⟨fun _ => rfl, fun _ => rfl, rfl, rfl⟩

omit [DecidableEq O] in
lemma sameBut_setPriority (w : Waits T O) (t : T) (p : UInt8) : SameBut w (w.setPriority t p) := by
  refine ⟨fun t' => ?_, fun t' => ?_, rfl, rfl⟩
  · by_cases htt : t' = t
    · rw [htt, setPriority, thread_setThread_self]
    · rw [setPriority, thread_setThread_of_ne htt]
  · by_cases htt : t' = t
    · rw [htt, setPriority, thread_setThread_self]
    · rw [setPriority, thread_setThread_of_ne htt]

omit [DecidableEq T] [DecidableEq O] in
lemma SameBut.wf {w' : Waits T O} (h : SameBut w w') (hwf : w.WF) : w'.WF := by
  refine ⟨fun o t => ?_, fun o => ?_⟩
  · rw [h.suspend, h.phase, hwf.mem_iff]
  · rw [h.suspend]
    exact hwf.nodup o

omit [DecidableEq T] [DecidableEq O] in
lemma WF.head (h : w.WF) {ts : List T} (ho : w.suspend o = t :: ts) :
    ∃ timed, (w.thread t).phase = .waiting o timed :=
  (h.mem_iff o t).mp (by rw [ho]; exact mem_cons_self)

/-! ### Resuming all threads of a list -/

lemma resumeAll_nil (ho : w.suspend o = []) : w.resumeAll o = w := by
  rw [resumeAll, ho, foldl_nil]

/-- The first round of `rt_ipc_list_resume_all`. -/
lemma WF.resumeAll_cons (h : w.WF) {ts : List T} (ho : w.suspend o = t :: ts) :
    w.resumeAll o = ((w.setError t .error).takeOut o t).resumeAll o := by
  obtain ⟨timed, ht⟩ := h.head ho
  have hfirst : (w.setError t .error).resume t = (w.setError t .error).takeOut o t := by
    rw [Waits.resume, thread_setError_self, ht]
  have hrest : ((w.setError t .error).takeOut o t).suspend o = ts := by
    have ho' : (w.setError t .error).suspend o = t :: ts := ho
    rw [suspend_takeOut_self, ho', erase_cons_head]
  rw [Waits.resumeAll, ho, foldl_cons, hfirst, Waits.resumeAll, hrest]

/-- `rt_ipc_list_resume_all` empties the list and changes nothing else than its threads. -/
lemma WF.resumeAll_spec (h : w.WF) (o : O) :
    (w.resumeAll o).suspend o = [] ∧ (∀ o' ≠ o, (w.resumeAll o).suspend o' = w.suspend o') ∧
      (∀ t ∉ w.suspend o, (w.resumeAll o).thread t = w.thread t) ∧
      ∀ t ∈ w.suspend o, (w.resumeAll o).thread t =
        { w.thread t with error := .error, phase := .resumed o } := by
  generalize hlist : w.suspend o = list
  induction list generalizing w with
  | nil =>
    rw [resumeAll_nil hlist]
    exact ⟨hlist, fun _ _ => rfl, fun _ _ => rfl, fun _ ht => absurd ht not_mem_nil⟩
  | cons t ts ih =>
    obtain ⟨timed, ht⟩ := h.head hlist
    have hnot : t ∉ ts := (nodup_cons.mp (hlist ▸ h.nodup o)).1
    -- the state after the first round
    have hwf : ((w.setError t .error).takeOut o t).WF := by
      have ht' : ((w.setError t .error).thread t).phase = .waiting o timed := by
        rw [thread_setError_self, ht]
      exact (h.setError t .error).takeOut ht'
    have hrest : ((w.setError t .error).takeOut o t).suspend o = ts := by
      have ho' : (w.setError t .error).suspend o = t :: ts := hlist
      rw [suspend_takeOut_self, ho', erase_cons_head]
    obtain ⟨hnil, hother, hkeep, hset⟩ := ih hwf hrest
    rw [h.resumeAll_cons hlist]
    refine ⟨hnil, fun o' hoo => ?_, fun t' ht' => ?_, fun t' ht' => ?_⟩
    · rw [hother o' hoo, suspend_takeOut_of_ne hoo]
      rfl
    · obtain ⟨hne, ht'⟩ := not_or.mp (mt mem_cons.mpr ht')
      rw [hkeep t' ht', thread_takeOut_of_ne hne, thread_setError_of_ne hne]
    · rcases mem_cons.mp ht' with rfl | hmem
      · rw [hkeep t' hnot, thread_takeOut_self, thread_setError_self]
      · have hne : t' ≠ t := by
          rintro rfl
          exact hnot hmem
        rw [hset t' hmem, thread_takeOut_of_ne hne, thread_setError_of_ne hne]

end Waits

end Ipc
