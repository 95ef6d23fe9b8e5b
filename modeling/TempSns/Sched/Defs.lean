import TempSns.Lib.Exec
import TempSns.Lib.IntrusiveList
import TempSns.Lib.Word32
import TempSns.RtDef
import TempSns.Sched.Ffs

/-!
# Threads and the scheduler

Embedding of `src/scheduler.c` and `src/thread.c` for one core. `prioMax` is
`RT_THREAD_PRIORITY_MAX`; above 32 priorities the ready bitmap has two levels, as selected by the
preprocessor in the source.

The lists are intrusive: the pointers of all list heads and of the `tlist` node of every thread are
`Kernel.links`. Each kernel call is one function on the state. It ends with a `Fault` where an
`RT_ASSERT` fails, where `rt_thread_priority_table` or `rt_thread_ready_table` is indexed outside
its bounds, or where `rt_current_thread` is dereferenced before the scheduler runs.

The thread timer is not part of this state: `rtThreadTimeout` may be called at any time.
-/

namespace Sched

open Links

/-- `thread->stat & RT_THREAD_STAT_MASK`. -/
inductive ThreadStat where
  | init
  | ready
  | suspend
  | running
  | close
  deriving DecidableEq, Repr

/-- The part of `struct rt_thread` that the scheduler uses. -/
structure Thread where
  /-- The state bits of `stat`. -/
  stat : ThreadStat
  initPriority : UInt8
  /-- 0 is the highest priority. -/
  currentPriority : UInt8
  /-- `number`, the row of the two-level table. -/
  number : ℕ
  /-- The bit in the ready group. -/
  numberMask : BitVec 32
  /-- The bit in the row. -/
  highMask : BitVec 8
  /-- The object type is `RT_Object_Class_Thread`. -/
  isThread : Bool
  /-- The object type has the flag `RT_Object_Class_Static`. -/
  isSystem : Bool
  /-- `cleanup` is not `RT_NULL`. -/
  cleanup : Bool
  deriving DecidableEq, Repr

/-- The list heads: `rt_thread_priority_table[p]` and `rt_thread_defunct`. -/
inductive ListHead where
  | ready (p : ℕ)
  | defunct
  deriving DecidableEq, Repr

/-- The variables of the scheduler and all threads. -/
structure Kernel (T : Type) where
  thread : T → Thread
  /-- The ready lists and the defunct list. -/
  links : Links (Node ListHead T)
  /-- `rt_thread_ready_priority_group`. -/
  readyGroup : BitVec 32
  /-- `rt_thread_ready_table`, 32 bytes. -/
  readyTable : ℕ → BitVec 8
  /-- `rt_scheduler_lock_nest`. -/
  lockNest : Int16
  /-- `rt_current_thread`. -/
  current : Option T

variable {T : Type} [DecidableEq T]

def Kernel.setThread (k : Kernel T) (t : T) (x : Thread) : Kernel T :=
  { k with thread := Function.update k.thread t x }

/-- `thread->stat = s`. -/
def Kernel.setStat (k : Kernel T) (t : T) (s : ThreadStat) : Kernel T :=
  k.setThread t { k.thread t with stat := s }

def Kernel.prio (k : Kernel T) (t : T) : ℕ := (k.thread t).currentPriority.toNat

/-- Empty lists, an empty bitmap, and no current thread. -/
def rtSystemSchedulerInit (thread : T → Thread) : Kernel T where
  thread := thread
  links := ⟨id, id⟩
  readyGroup := 0
  readyTable := fun _ => 0
  lockNest := 0
  current := none

section

variable (prioMax : ℕ)

/-- Set `current_priority` and recalculate the priority attributes. -/
def Thread.setPriority (x : Thread) (p : UInt8) : Thread :=
  if 32 < prioMax then
    { x with
      currentPriority := p
      number := p.toNat >>> 3
      numberMask := 1#32 <<< (p.toNat >>> 3)
      highMask := 1#8 <<< (p.toNat &&& 7) }
  else { x with currentPriority := p, numberMask := 1#32 <<< p.toNat }

/-! ## Ready queue -/

def rtScheduleInsertThread (k : Kernel T) (t : T) : Except Fault (Kernel T) :=
  if k.current = some t then .ok (k.setStat t .running)
  else if k.prio t < prioMax then
    let x := k.thread t
    .ok { k.setStat t .ready with
      links := k.links.insertBefore (.head (.ready (k.prio t))) (.item t)
      readyTable :=
        if 32 < prioMax then Function.update k.readyTable x.number (k.readyTable x.number ||| x.highMask)
        else k.readyTable
      readyGroup := k.readyGroup ||| x.numberMask }
  else .error .badIndex

def clearReady (k : Kernel T) (x : Thread) : Kernel T :=
  if 32 < prioMax then
    let row := k.readyTable x.number &&& ~~~x.highMask
    { k with
      readyTable := Function.update k.readyTable x.number row
      readyGroup := if row = 0 then k.readyGroup &&& ~~~x.numberMask else k.readyGroup }
  else { k with readyGroup := k.readyGroup &&& ~~~x.numberMask }

def rtScheduleRemoveThread (k : Kernel T) (t : T) : Except Fault (Kernel T) :=
  let k := { k with links := k.links.remove (.item t) }
  if k.prio t < prioMax then
    .ok (if k.links.isEmpty (.head (.ready (k.prio t))) then clearReady prioMax k (k.thread t) else k)
  else .error .badIndex

/-- The first part of `_get_highest_priority_thread`: the number of the highest ready priority. -/
def highestReadyPriority (k : Kernel T) : Except Fault ℕ :=
  let number := Word32.sub (rtFfs k.readyGroup) 1
  if 32 < prioMax then
    if number < 32 then
      .ok (Word32.sub (Word32.add (Word32.mul number 8)
        (rtFfs ((k.readyTable number).setWidth 32))) 1)
    else .error .badIndex
  else .ok number

def getHighestPriorityThread (k : Kernel T) : Except Fault (T × ℕ) := do
  let p ← highestReadyPriority prioMax k
  if p < prioMax then
    match k.links.next (.head (.ready p)) with
    | .item t => .ok (t, p)
    | .head _ => .error .badPointer
  else .error .badIndex

/-- Insert `from_thread` into the ready queue if `need_insert_from_thread` is set. -/
def requeue (k : Kernel T) (fromThread : T) (needInsertFromThread : Bool) :
    Except Fault (Kernel T) :=
  if needInsertFromThread then rtScheduleInsertThread prioMax k fromThread else .ok k

/-- The part of `rt_schedule` that switches from `from_thread` to `to_thread`. -/
def switchTo (k : Kernel T) (fromThread toThread : T) (needInsertFromThread : Bool) :
    Except Fault (Kernel T) := do
  let k ← requeue prioMax { k with current := some toThread } fromThread needInsertFromThread
  let k ← rtScheduleRemoveThread prioMax k toThread
  .ok (k.setStat toThread .running)

def rtSchedule (k : Kernel T) : Except Fault (Kernel T) :=
  if k.lockNest = 0 ∧ k.readyGroup ≠ 0 then do
    let (highest, p) ← getHighestPriorityThread prioMax k
    match k.current with
    | none => .error .badPointer
    | some cur =>
      let running := (k.thread cur).stat = .running
      let toThread := if running ∧ k.prio cur < p then cur else highest
      if toThread ≠ cur then switchTo prioMax k cur toThread (running ∧ ¬ k.prio cur < p)
      else do
        let k ← rtScheduleRemoveThread prioMax k cur
        .ok (k.setStat cur .running)
  else .ok k

def rtSystemSchedulerStart (k : Kernel T) : Except Fault (Kernel T) := do
  let (toThread, _) ← getHighestPriorityThread prioMax k
  let k ← rtScheduleRemoveThread prioMax { k with current := some toThread } toThread
  .ok (k.setStat toThread .running)

def rtEnterCritical (k : Kernel T) : Kernel T := { k with lockNest := k.lockNest + 1 }

def rtExitCritical (k : Kernel T) : Except Fault (Kernel T) :=
  let k := { k with lockNest := k.lockNest - 1 }
  if k.lockNest ≤ 0 then rtSchedule prioMax { k with lockNest := 0 } else .ok k

/-! ## Threads -/

/-- `_rt_thread_init` of a static (`isSystem`) or dynamic thread. The application may install a
`cleanup` function before it starts the thread. -/
def rtThreadInit (priority : UInt8) (isSystem cleanup : Bool) : Except Fault Thread :=
  if priority.toNat < prioMax then
    .ok {
      stat := .init
      initPriority := priority
      currentPriority := priority
      number := 0
      numberMask := 0
      highMask := 0
      isThread := true
      isSystem := isSystem
      cleanup := cleanup }
  else .error .assertion

def rtThreadResume (k : Kernel T) (t : T) : Except Fault (RtErr × Kernel T) :=
  if (k.thread t).isThread then
    if (k.thread t).stat ≠ .suspend then .ok (.error, k)
    else do
      let k ← rtScheduleInsertThread prioMax { k with links := k.links.remove (.item t) } t
      .ok (.eok, k)
  else .error .assertion

def rtThreadStartup (k : Kernel T) (t : T) : Except Fault (Kernel T) :=
  let x := k.thread t
  if x.stat = .init ∧ x.isThread then do
    let k := k.setThread t { x.setPriority prioMax x.initPriority with stat := .suspend }
    let (_, k) ← rtThreadResume prioMax k t
    if k.current.isSome then rtSchedule prioMax k else .ok k
  else .error .assertion

def rtThreadSuspend (k : Kernel T) (t : T) : Except Fault (RtErr × Kernel T) :=
  let x := k.thread t
  if x.isThread then
    if x.stat ≠ .ready ∧ x.stat ≠ .running then .ok (.error, k)
    else if x.stat = .running ∧ k.current ≠ some t then .error .assertion
    else do
      let k ← rtScheduleRemoveThread prioMax k t
      .ok (.eok, k.setStat t .suspend)
  else .error .assertion

/-- `rt_thread_control` with `RT_THREAD_CTRL_CHANGE_PRIORITY`. -/
def rtThreadChangePriority (k : Kernel T) (t : T) (p : UInt8) : Except Fault (Kernel T) :=
  if (k.thread t).isThread then
    if (k.thread t).stat = .ready then do
      let k ← rtScheduleRemoveThread prioMax k t
      rtScheduleInsertThread prioMax (k.setThread t ((k.thread t).setPriority prioMax p)) t
    else .ok (k.setThread t ((k.thread t).setPriority prioMax p))
  else .error .assertion

/-- The result of `rt_thread_suspend` is ignored, as in the source. -/
def rtThreadSleep (k : Kernel T) : Except Fault (Kernel T) :=
  match k.current with
  | none => .error .assertion
  | some t => do
    let (_, k) ← rtThreadSuspend prioMax k t
    rtSchedule prioMax k

def rtThreadYield (k : Kernel T) : Except Fault (Kernel T) := rtSchedule prioMax k

def rtThreadTimeout (k : Kernel T) (t : T) : Except Fault (Kernel T) :=
  if (k.thread t).stat = .suspend ∧ (k.thread t).isThread then do
    let k ← rtScheduleInsertThread prioMax { k with links := k.links.remove (.item t) } t
    rtSchedule prioMax k
  else .error .assertion

/-- The end of `rt_thread_exit` and `rt_thread_detach`: a static thread without a cleanup function
is detached from the object system, any other one goes to the defunct list. -/
def retire (k : Kernel T) (t : T) : Kernel T :=
  let x := k.thread t
  if x.isSystem ∧ ¬ x.cleanup then k.setThread t { x with isThread := false, isSystem := false }
  else { k with links := k.links.insertAfter (.head .defunct) (.item t) }

def rtThreadExit (k : Kernel T) : Except Fault (Kernel T) :=
  match k.current with
  | none => .error .badPointer
  | some t => do
    let k ← rtScheduleRemoveThread prioMax k t
    rtSchedule prioMax (retire (k.setStat t .close) t)

/-- The common start of `rt_thread_detach` and `rt_thread_delete`: take the thread out of the ready
queue and close it. -/
def closeThread (k : Kernel T) (t : T) : Except Fault (Kernel T) :=
  if (k.thread t).stat ≠ .init then do
    let k ← rtScheduleRemoveThread prioMax k t
    .ok (k.setStat t .close)
  else .ok (k.setStat t .close)

def rtThreadDetach (k : Kernel T) (t : T) : Except Fault (Kernel T) :=
  if (k.thread t).isThread ∧ (k.thread t).isSystem then do
    let k ← closeThread prioMax k t
    .ok (retire k t)
  else .error .assertion

def rtThreadDelete (k : Kernel T) (t : T) : Except Fault (Kernel T) :=
  if (k.thread t).isThread ∧ ¬ (k.thread t).isSystem then do
    let k ← closeThread prioMax k t
    .ok { k with links := k.links.insertAfter (.head .defunct) (.item t) }
  else .error .assertion

/-! ## Runs -/

/-- The calls of the kernel. `schedule` is `rt_schedule` as it is called at the end of an
interrupt or of a time slice. -/
inductive Op (T : Type) where
  | start
  | startup (t : T)
  | suspend (t : T)
  | resume (t : T)
  | changePriority (t : T) (p : UInt8)
  | sleep
  | yield
  | timeout (t : T)
  | exit
  | detach (t : T)
  | delete (t : T)
  | schedule
  | enterCritical
  | exitCritical

/-- One call. The scheduler is started once, by the startup code. -/
def step (k : Kernel T) : Op T → Except Fault (Kernel T)
  | .start => if k.current = none then rtSystemSchedulerStart prioMax k else .error .assertion
  | .startup t => rtThreadStartup prioMax k t
  | .suspend t => (rtThreadSuspend prioMax k t).map Prod.snd
  | .resume t => (rtThreadResume prioMax k t).map Prod.snd
  | .changePriority t p => rtThreadChangePriority prioMax k t p
  | .sleep => rtThreadSleep prioMax k
  | .yield => rtThreadYield prioMax k
  | .timeout t => rtThreadTimeout prioMax k t
  | .exit => rtThreadExit prioMax k
  | .detach t => rtThreadDetach prioMax k t
  | .delete t => rtThreadDelete prioMax k t
  | .schedule => rtSchedule prioMax k
  | .enterCritical => .ok (rtEnterCritical k)
  | .exitCritical => rtExitCritical prioMax k

/-- The states reached from initialised threads by any sequence of calls that return. -/
inductive Reach : Kernel T → Prop
  | init {thread : T → Thread}
      (hinit : ∀ t, ∃ p isSystem cleanup, rtThreadInit prioMax p isSystem cleanup = .ok (thread t)) :
      Reach (rtSystemSchedulerInit thread)
  | step {k k' : Kernel T} {op : Op T} (hk : Reach k) (hstep : step prioMax k op = .ok k') :
      Reach k'

end

end Sched
