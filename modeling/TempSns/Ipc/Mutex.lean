import TempSns.Ipc.Waits
import TempSns.Lib.Exec
import TempSns.Lib.Transition

/-!
# Mutexes

Embedding of `rt_mutex_take` and `rt_mutex_release`, and the machine of all mutexes `M` together with
the suspend lists `O` of other IPC objects. Mutexes may
change the priorities of the threads in these lists; which calls block and which threads they resume
is left open (`Act.block`, `Act.wake`).

A step of the machine is one critical section of a call. The other fields are the
history.
-/

namespace Ipc

open Function Option Waits

/-- `struct rt_mutex` without its suspend list. -/
structure Mutex (T : Type) where
  /-- 1 if the mutex is available. -/
  value : UInt16
  /-- The thread that has taken it. -/
  owner : Option T
  /-- The priority of the owner at its first take. -/
  originalPriority : UInt8
  /-- How often the owner has taken it. -/
  hold : UInt8
  deriving DecidableEq, Repr

/-- The threads, all suspend lists and all mutexes. -/
structure System (T M O : Type) where
  waits : Waits T (M ⊕ O)
  mutex : M → Mutex T

variable {T M O : Type} [DecidableEq T] [DecidableEq M] [DecidableEq O]

def System.setMutex (s : System T M O) (μ : M) (x : Mutex T) : System T M O :=
  { s with mutex := update s.mutex μ x }

def rtMutexInit : Mutex T where
  value := 1
  owner := none
  originalPriority := 0xff
  hold := 0

/-- `rt_mutex_take` of the thread `t` up to its end or its wait. The result is `none` if the thread
waits. -/
def rtMutexTake (s : System T M O) (t : T) (μ : M) (time : ℤ) :
    Except Fault (System T M O × Option RtErr) :=
  let waits := s.waits.setError t .eok
  let x := s.mutex μ
  if x.owner = some t then
    .ok ({ s with waits := waits }.setMutex μ { x with hold := x.hold + 1 }, some .eok)
  else if 0 < x.value then
    .ok ({ s with waits := waits }.setMutex μ
      { value := x.value - 1
        owner := some t
        originalPriority := waits.priority t
        hold := x.hold + 1 }, some .eok)
  -- no waiting, return with timeout
  else if time = 0 then .ok ({ s with waits := waits.setError t .etimeout }, some .etimeout)
  else match x.owner with
    | none => .error .badPointer
    | some w =>
      -- change the owner thread priority of mutex
      let waits := if waits.priority t < waits.priority w then
          waits.setPriority w (waits.priority t) else waits
      .ok ({ s with waits := waits.suspendThread (.inl μ) t time }, none)

/-- The priority of the owner at the end of its hold. -/
def restorePriority (waits : Waits T (M ⊕ O)) (t : T) (p : UInt8) : Waits T (M ⊕ O) :=
  if p ≠ waits.priority t then waits.setPriority t p else waits

/-- `rt_mutex_release` of the thread `t`. -/
def rtMutexRelease (s : System T M O) (t : T) (μ : M) : System T M O × RtErr :=
  let x := s.mutex μ
  if x.owner ≠ some t then ({ s with waits := s.waits.setError t .error }, .error)
  else
    let hold := x.hold - 1
    if hold = 0 then
      let waits := restorePriority s.waits t x.originalPriority
      match waits.suspend (.inl μ) with
      | v :: _ =>
        -- set new owner and priority
        ({ s with waits := waits.resume v }.setMutex μ { x with
          owner := some v
          originalPriority := waits.priority v
          hold := hold + 1 }, .eok)
      | [] =>
        ({ s with waits := waits }.setMutex μ
          { value := x.value + 1, owner := none, originalPriority := 0xff, hold := hold }, .eok)
    else (s.setMutex μ { x with hold := hold }, .eok)

omit [DecidableEq M] [DecidableEq O] in
/-- Restoring a priority that the thread has already changes nothing. -/
lemma restorePriority_eq (waits : Waits T (M ⊕ O)) (t : T) (p : UInt8) :
    restorePriority waits t p = waits.setPriority t p := by
  unfold restorePriority
  split
  · rfl
  case isFalse heq =>
    have hp : p = waits.priority t := not_not.mp heq
    subst hp
    simp [setPriority, setThread, priority]

namespace Mutex

/-- The system with its history. -/
structure Machine (T M O : Type) where
  sys : System T M O
  /-- When a thread started to wait, as a number. -/
  arrival : T → ℕ
  arrivals : ℕ
  /-- How often the mutex was given to the thread. -/
  granted : T → M → ℕ
  /-- How often `rt_mutex_take` of the thread returned `RT_EOK`. -/
  returned : T → M → ℕ
  /-- How often the thread released the mutex successfully. -/
  released : T → M → ℕ

inductive Act (T M O : Type) where
  /-- A thread calls `rt_mutex_take`. -/
  | take (t : T) (μ : M) (time : ℤ)
  /-- A thread calls `rt_mutex_release`. -/
  | release (t : T) (μ : M)
  /-- The timer of a waiting thread expires. -/
  | timeout (t : T)
  /-- A thread that was resumed goes on with its call. -/
  | finish (t : T)
  /-- A call on another object suspends the thread. -/
  | block (t : T) (o : O) (time : ℤ)
  /-- A call on another object resumes the thread, with the error `-RT_ERROR` if `failed`. -/
  | wake (t : T) (failed : Bool)
  /-- `rt_thread_control` changes the priority of a thread. -/
  | setPriority (t : T) (p : UInt8)

/-- Count one more for the thread and the mutex. -/
def bump (f : T → M → ℕ) (t : T) (μ : M) : T → M → ℕ :=
  update f t (update (f t) μ (f t μ + 1))

/-- The thread `t` starts to wait. -/
def Machine.arrive (m : Machine T M O) (t : T) : Machine T M O :=
  { m with arrival := update m.arrival t m.arrivals, arrivals := m.arrivals + 1 }

/-- The threads that get the mutex when `t` releases it. -/
def handedTo (s : System T M O) (t : T) (μ : M) : Option T :=
  if (s.mutex μ).owner = some t ∧ (s.mutex μ).hold - 1 = 0 then (s.waits.suspend (.inl μ)).head?
  else none

def step (m : Machine T M O) : Act T M O → Option (Machine T M O)
  | .take t μ time =>
    if (m.sys.waits.thread t).phase = .running then
      match rtMutexTake m.sys t μ time with
      | .ok (sys, some .eok) =>
        some { m with sys := sys, granted := bump m.granted t μ, returned := bump m.returned t μ }
      | .ok (sys, some _) => some { m with sys := sys }
      | .ok (sys, none) => some ({ m with sys := sys }.arrive t)
      | .error _ => none
    else none
  | .release t μ =>
    if (m.sys.waits.thread t).phase = .running then
      match rtMutexRelease m.sys t μ with
      | (sys, .eok) => some { m with
          sys := sys
          released := bump m.released t μ
          granted := match handedTo m.sys t μ with
            | some v => bump m.granted v μ
            | none => m.granted }
      | (sys, _) => some { m with sys := sys }
    else none
  | .timeout t => (m.sys.waits.timeout t).map fun w => { m with sys := { m.sys with waits := w } }
  | .finish t =>
    match (m.sys.waits.thread t).phase with
    | .resumed (.inl μ) => some { m with
        sys := { m.sys with waits := m.sys.waits.wake t }
        returned := if (m.sys.waits.thread t).error = .eok then bump m.returned t μ
          else m.returned }
    | .resumed (.inr _) => some { m with sys := { m.sys with waits := m.sys.waits.wake t } }
    | _ => none
  | .block t o time =>
    if (m.sys.waits.thread t).phase = .running then
      some ({ m with sys := { m.sys with
        waits := (m.sys.waits.setError t .eok).suspendThread (.inr o) t time } }.arrive t)
    else none
  | .wake t failed =>
    match (m.sys.waits.thread t).phase with
    | .waiting (.inr o) _ =>
      let waits := if failed then m.sys.waits.setError t .error else m.sys.waits
      some { m with sys := { m.sys with waits := waits.takeOut (.inr o) t } }
    | _ => none
  | .setPriority t p =>
    some { m with sys := { m.sys with waits := m.sys.waits.setPriority t p } }

/-- All mutexes after `rt_mutex_init`, no thread waits, and there is no history. -/
structure Initial (m : Machine T M O) : Prop where
  mutex : ∀ μ, m.sys.mutex μ = rtMutexInit
  running : ∀ t, (m.sys.waits.thread t).phase = .running
  suspend : ∀ o, m.sys.waits.suspend o = []
  granted : ∀ t μ, m.granted t μ = 0
  returned : ∀ t μ, m.returned t μ = 0
  released : ∀ t μ, m.released t μ = 0

/-! ## What a step can do -/

/-- The waiting threads when `t` starts to wait for a mutex with the owner `w`. -/
def inherit (waits : Waits T (M ⊕ O)) (t w : T) : Waits T (M ⊕ O) :=
  if waits.priority t < waits.priority w then waits.setPriority w (waits.priority t) else waits

/-- The steps of the machine, one case for each way through the code. -/
inductive Change (m : Machine T M O) : Act T M O → Machine T M O → Prop
  /-- The owner takes the mutex again. -/
  | takeNested {t : T} {μ : M} {time : ℤ} (hrun : (m.sys.waits.thread t).phase = .running)
      (howner : (m.sys.mutex μ).owner = some t) :
      Change m (.take t μ time) { m with
        sys := System.setMutex { m.sys with waits := m.sys.waits.setError t .eok } μ
          { m.sys.mutex μ with hold := (m.sys.mutex μ).hold + 1 }
        granted := bump m.granted t μ
        returned := bump m.returned t μ }
  /-- The mutex is available. -/
  | takeFree {t : T} {μ : M} {time : ℤ} (hrun : (m.sys.waits.thread t).phase = .running)
      (howner : (m.sys.mutex μ).owner ≠ some t) (hvalue : 0 < (m.sys.mutex μ).value) :
      Change m (.take t μ time) { m with
        sys := System.setMutex { m.sys with waits := m.sys.waits.setError t .eok } μ
          { value := (m.sys.mutex μ).value - 1
            owner := some t
            originalPriority := m.sys.waits.priority t
            hold := (m.sys.mutex μ).hold + 1 }
        granted := bump m.granted t μ
        returned := bump m.returned t μ }
  /-- The mutex is not available, and the thread does not wait. -/
  | takeFail {t : T} {μ : M} (hrun : (m.sys.waits.thread t).phase = .running) :
      Change m (.take t μ 0)
        { m with sys := { m.sys with waits := m.sys.waits.setError t .etimeout } }
  /-- The thread starts to wait for the mutex. -/
  | takeWait {t w : T} {μ : M} {time : ℤ} (hrun : (m.sys.waits.thread t).phase = .running)
      (howner : (m.sys.mutex μ).owner = some w) (hne : w ≠ t) (htime : time ≠ 0) :
      Change m (.take t μ time) ({ m with sys := { m.sys with
        waits := (inherit (m.sys.waits.setError t .eok) t w).suspendThread (.inl μ) t time }
        }.arrive t)
  /-- A thread that is not the owner. -/
  | releaseFail {t : T} {μ : M} (hrun : (m.sys.waits.thread t).phase = .running) :
      Change m (.release t μ)
        { m with sys := { m.sys with waits := m.sys.waits.setError t .error } }
  /-- The owner still holds the mutex. -/
  | releaseNested {t : T} {μ : M} (hrun : (m.sys.waits.thread t).phase = .running)
      (howner : (m.sys.mutex μ).owner = some t) (hhold : (m.sys.mutex μ).hold - 1 ≠ 0) :
      Change m (.release t μ) { m with
        sys := m.sys.setMutex μ { m.sys.mutex μ with hold := (m.sys.mutex μ).hold - 1 }
        released := bump m.released t μ }
  /-- The mutex becomes available. -/
  | releaseFree {t : T} {μ : M} (hrun : (m.sys.waits.thread t).phase = .running)
      (howner : (m.sys.mutex μ).owner = some t) (hhold : (m.sys.mutex μ).hold - 1 = 0)
      (hnil : m.sys.waits.suspend (.inl μ) = []) :
      Change m (.release t μ) { m with
        sys := System.setMutex { m.sys with
            waits := m.sys.waits.setPriority t (m.sys.mutex μ).originalPriority } μ
          { value := (m.sys.mutex μ).value + 1
            owner := none
            originalPriority := 0xff
            hold := 0 }
        released := bump m.released t μ }
  /-- The mutex is handed to the first waiting thread. -/
  | releaseHand {t v : T} {μ : M} {vs : List T} (hrun : (m.sys.waits.thread t).phase = .running)
      (howner : (m.sys.mutex μ).owner = some t) (hhold : (m.sys.mutex μ).hold - 1 = 0)
      (hcons : m.sys.waits.suspend (.inl μ) = v :: vs) (hne : v ≠ t) :
      Change m (.release t μ) { m with
        sys := System.setMutex { m.sys with
            waits := (m.sys.waits.setPriority t (m.sys.mutex μ).originalPriority).takeOut (.inl μ) v }
          μ { m.sys.mutex μ with
            owner := some v
            originalPriority := m.sys.waits.priority v
            hold := 1 }
        released := bump m.released t μ
        granted := bump m.granted v μ }
  /-- The wait times out. -/
  | timeout {t : T} {o : M ⊕ O} (hwait : (m.sys.waits.thread t).phase = .waiting o true) :
      Change m (.timeout t) { m with sys := { m.sys with
        waits := (m.sys.waits.setError t .etimeout).takeOut o t } }
  /-- `rt_mutex_take` returns after its wait. -/
  | finishTake {t : T} {μ : M} (hres : (m.sys.waits.thread t).phase = .resumed (.inl μ)) :
      Change m (.finish t) { m with
        sys := { m.sys with waits := m.sys.waits.wake t }
        returned := if (m.sys.waits.thread t).error = .eok then bump m.returned t μ
          else m.returned }
  /-- A call on another object goes on after its wait. -/
  | finishOther {t : T} {o : O} (hres : (m.sys.waits.thread t).phase = .resumed (.inr o)) :
      Change m (.finish t) { m with sys := { m.sys with waits := m.sys.waits.wake t } }
  /-- A thread starts to wait for another object. -/
  | block {t : T} {o : O} {time : ℤ} (hrun : (m.sys.waits.thread t).phase = .running) :
      Change m (.block t o time) ({ m with sys := { m.sys with
        waits := (m.sys.waits.setError t .eok).suspendThread (.inr o) t time } }.arrive t)
  /-- Another object resumes a thread. -/
  | wake {t : T} {o : O} {timed failed : Bool} {e : RtErr}
      (hwait : (m.sys.waits.thread t).phase = .waiting (.inr o) timed) :
      Change m (.wake t failed) { m with sys := { m.sys with
        waits := (m.sys.waits.setError t e).takeOut (.inr o) t } }
  /-- The application changes a priority. -/
  | setPriority {t : T} {p : UInt8} :
      Change m (.setPriority t p)
        { m with sys := { m.sys with waits := m.sys.waits.setPriority t p } }

lemma change_of_take {m m' : Machine T M O} {t : T} {μ : M} {time : ℤ}
    (hok : step m (.take t μ time) = some m') : Change m (.take t μ time) m' := by
  simp only [step] at hok
  split at hok
  case isFalse => cases hok
  case isTrue hrun =>
    unfold rtMutexTake at hok
    by_cases howner : (m.sys.mutex μ).owner = some t
    · simp only [howner, if_true, some.injEq] at hok
      have hchange : Change m (.take t μ time) _ := .takeNested hrun howner
      simp only [howner] at hchange
      exact hok ▸ hchange
    by_cases hvalue : 0 < (m.sys.mutex μ).value
    · simp only [howner, hvalue, if_true, if_false, some.injEq] at hok
      have hprio : (m.sys.waits.setError t .eok).priority t = m.sys.waits.priority t := by
        simp [priority]
      rw [hprio] at hok
      exact hok ▸ .takeFree hrun howner hvalue
    by_cases htime : time = 0
    · subst htime
      simp only [howner, hvalue, if_true, if_false, some.injEq] at hok
      have htwice : (m.sys.waits.setError t .eok).setError t .etimeout =
          m.sys.waits.setError t .etimeout := by
        simp [setError, setThread]
      rw [htwice] at hok
      exact hok ▸ .takeFail hrun
    · cases hw : (m.sys.mutex μ).owner with
      | none => simp [hvalue, htime, hw] at hok
      | some w =>
        rw [hw] at howner
        simp only [hw, howner, hvalue, htime, if_false, some.injEq] at hok
        exact hok ▸ .takeWait hrun hw (fun heq => howner (congrArg some heq)) htime

lemma change_of_release {m m' : Machine T M O} {t : T} {μ : M} (hwf : m.sys.waits.WF)
    (hok : step m (.release t μ) = some m') : Change m (.release t μ) m' := by
  simp only [step] at hok
  split at hok
  case isFalse => cases hok
  case isTrue hrun =>
    unfold rtMutexRelease handedTo at hok
    by_cases howner : (m.sys.mutex μ).owner = some t
    case neg =>
      simp only [ne_eq, howner, not_false_eq_true, if_true, some.injEq] at hok
      exact hok ▸ .releaseFail hrun
    by_cases hhold : (m.sys.mutex μ).hold - 1 = 0
    case neg =>
      simp only [ne_eq, howner, not_true_eq_false, if_false, hhold, and_false, some.injEq] at hok
      have hchange := Change.releaseNested hrun howner hhold
      simp only [howner] at hchange
      exact hok ▸ hchange
    have hlist : (m.sys.waits.setPriority t (m.sys.mutex μ).originalPriority).suspend =
      m.sys.waits.suspend := rfl
    cases hcons : m.sys.waits.suspend (.inl μ) with
    | nil =>
      simp only [ne_eq, howner, not_true_eq_false, if_false, hhold, if_true, restorePriority_eq,
        hlist, hcons, and_self, List.head?_nil, some.injEq] at hok
      exact hok ▸ .releaseFree hrun howner hhold hcons
    | cons v vs =>
      obtain ⟨timed, hphase⟩ := hwf.head hcons
      have hne : v ≠ t := by
        rintro rfl
        simp [hrun] at hphase
      -- the first thread waits, so `rt_thread_resume` takes it out
      have hother : (m.sys.waits.setPriority t (m.sys.mutex μ).originalPriority).thread v =
        m.sys.waits.thread v := thread_setThread_of_ne hne
      have hresume : (m.sys.waits.setPriority t (m.sys.mutex μ).originalPriority).resume v =
          (m.sys.waits.setPriority t (m.sys.mutex μ).originalPriority).takeOut (.inl μ) v := by
        unfold resume
        rw [hother, hphase]
      have hprio : (m.sys.waits.setPriority t (m.sys.mutex μ).originalPriority).priority v =
          m.sys.waits.priority v := by
        rw [priority, hother, priority]
      simp only [ne_eq, howner, not_true_eq_false, if_false, hhold, if_true, restorePriority_eq,
        hlist, hcons, and_self, List.head?_cons, some.injEq, hresume, hprio] at hok
      exact hok ▸ .releaseHand hrun howner hhold hcons hne

lemma change_of_step {m m' : Machine T M O} {a : Act T M O} (hwf : m.sys.waits.WF)
    (hok : step m a = some m') : Change m a m' := by
  cases a with
  | take t μ time => exact change_of_take hok
  | release t μ => exact change_of_release hwf hok
  | timeout t =>
    obtain ⟨w, hw, rfl⟩ := map_eq_some_iff.mp hok
    unfold timeout at hw
    split at hw
    case h_1 o hwait =>
      obtain rfl := some.inj hw
      exact .timeout hwait
    case h_2 => cases hw
  | finish t =>
    simp only [step] at hok
    split at hok
    case h_1 μ hres =>
      obtain rfl := some.inj hok
      exact .finishTake hres
    case h_2 o hres =>
      obtain rfl := some.inj hok
      exact .finishOther hres
    case h_3 => cases hok
  | block t o time =>
    simp only [step] at hok
    split at hok
    case isTrue hrun =>
      obtain rfl := some.inj hok
      exact .block hrun
    case isFalse => cases hok
  | wake t failed =>
    simp only [step] at hok
    split at hok
    case h_1 o timed hwait =>
      obtain rfl := some.inj hok
      cases failed with
      | true => exact .wake hwait
      | false =>
        have hsame : m.sys.waits.setError t (m.sys.waits.thread t).error = m.sys.waits := by
          simp [setError, setThread]
        have hchange : Change m (.wake t false) { m with sys := { m.sys with
          waits := (m.sys.waits.setError t (m.sys.waits.thread t).error).takeOut (.inr o) t } } :=
          .wake hwait
        rw [hsame] at hchange
        exact hchange
    case h_2 => cases hok
  | setPriority t p =>
    obtain rfl := some.inj hok
    exact .setPriority

end Mutex

end Ipc
