import TempSns.Ipc.Waits
import TempSns.Lib.Exec
import TempSns.Lib.Transition
import TempSns.Lib.Word32

/-!
# Memory pools

Embedding of `rt_mp_init`, `rt_mp_alloc` and `rt_mp_free` of `src/mempool.c`, and the machine of one
pool: any number of threads allocate, wait and time out, and blocks are freed by threads and
interrupt handlers. A step of the machine is one critical section.

The first word of a block is the link of the free list while the block is free, and the address of
the pool while it is allocated. A block is named by the address of that word.

A waiting thread is only resumed, and looks for a free block again. The pool counts its waiting
threads in `suspend_thread_count`, of which `rt_thread_timeout` does not know.
-/

namespace Ipc

open Function List Transition

namespace Waits

variable {T O : Type} [DecidableEq T] [DecidableEq O] {w : Waits T O} {t : T} {o : O}

/-- `rt_thread_suspend` and `rt_list_insert_after` on the head of a suspend list, and the start of
the thread timer if `timed`. -/
def suspendFront (w : Waits T O) (o : O) (t : T) (timed : Bool) : Waits T O :=
  { w.setThread t { w.thread t with phase := .waiting o timed } with
    suspend := update w.suspend o (t :: w.suspend o) }

@[simp] lemma suspend_suspendFront_self {timed : Bool} :
    (w.suspendFront o t timed).suspend o = t :: w.suspend o := by
  simp [suspendFront]

lemma WF.suspendFront (h : w.WF) (ht : ∀ o timed, (w.thread t).phase ≠ .waiting o timed) (o : O)
    (timed : Bool) : (w.suspendFront o t timed).WF := by
  refine ⟨fun o' t' => ?_, fun o' => ?_⟩
  · by_cases hoo : o' = o
    · subst hoo
      rw [suspend_suspendFront_self, mem_cons]
      by_cases htt : t' = t
      · subst htt
        simp [Waits.suspendFront]
      · have hthread : (w.suspendFront o' t timed).thread t' = w.thread t' :=
          thread_setThread_of_ne htt
        rw [hthread, ← h.mem_iff, or_iff_right htt]
    · have hlist : (w.suspendFront o t timed).suspend o' = w.suspend o' := by
        simp [Waits.suspendFront, hoo]
      rw [hlist]
      by_cases htt : t' = t
      · -- the thread is in the list `o` only
        subst htt
        have hphase : ((w.suspendFront o t' timed).thread t').phase = .waiting o timed := by
          simp [Waits.suspendFront]
        rw [hphase]
        simp [h.not_mem ht o', Ne.symm hoo]
      · have hthread : (w.suspendFront o t timed).thread t' = w.thread t' :=
          thread_setThread_of_ne htt
        rw [hthread, h.mem_iff]
  · by_cases hoo : o' = o
    · subst hoo
      rw [suspend_suspendFront_self]
      exact nodup_cons.mpr ⟨h.not_mem ht o', h.nodup o'⟩
    · have hlist : (w.suspendFront o t timed).suspend o' = w.suspend o' := by
        simp [Waits.suspendFront, hoo]
      rw [hlist]
      exact h.nodup o'

end Waits

/-- The first word of a block. -/
inductive BlockWord where
  /-- A free block: the next one. -/
  | link (next : Option ℤ)
  /-- An allocated block: the pool. -/
  | owner
  deriving DecidableEq, Repr

/-- `struct rt_mempool`, with its memory and the threads. -/
structure MemPool (T : Type) where
  startAddress : ℤ
  size : ℕ
  blockSize : ℕ
  blockList : Option ℤ
  blockTotalCount : ℕ
  blockFreeCount : ℕ
  waits : Waits T Unit
  suspendThreadCount : ℕ
  /-- The words at the start of the blocks. -/
  word : ℤ → BlockWord

variable {T : Type} [DecidableEq T]

/-- The loop of `rt_mp_init` that links the blocks. -/
def linkBlocks (start : ℤ) (step : ℕ) (word : ℤ → BlockWord) : ℕ → ℤ → BlockWord
  | 0 => word
  | offset + 1 => update (linkBlocks start step word offset) (start + offset * step)
      (.link (some (start + (offset + 1) * step)))

def rtMpInit (start : ℤ) (size blockSize : ℕ) (word : ℤ → BlockWord) (waits : Waits T Unit) :
    MemPool T :=
  let size := Word32.alignDown size 4
  -- align the block size
  let blockSize := Word32.alignUp blockSize 4
  let step := Word32.add blockSize 4
  let total := size / step
  { startAddress := start
    size := size
    blockSize := blockSize
    blockList := some start
    blockTotalCount := total
    blockFreeCount := total
    waits := { waits with suspend := fun _ => [] }
    suspendThreadCount := 0
    word := update (linkBlocks start step word total) (start + ((total : ℤ) - 1) * step)
      (.link none) }

/-- What a critical section of `rt_mp_alloc` ends with. -/
inductive AllocResult where
  /-- The call returns a block. -/
  | block (b : ℤ)
  /-- The call returns `RT_NULL`. -/
  | null
  /-- The thread waits. -/
  | waits
  deriving DecidableEq, Repr

/-- The loop condition of `rt_mp_alloc` and the critical section that follows it: the thread takes a
block, fails or is suspended. -/
def rtMpAlloc (p : MemPool T) (t : T) (time : Int32) : Except Fault (MemPool T × AllocResult) :=
  if p.blockFreeCount = 0 then
    -- memory block is unavailable
    if time = 0 then .ok ({ p with waits := p.waits.setError t .etimeout }, .null)
    else .ok ({ p with
        waits := (p.waits.setError t .eok).suspendFront () t (decide (0 < time))
        suspendThreadCount := p.suspendThreadCount + 1 }, .waits)
  else
    match p.blockList with
    | none => .error .assertion
    | some b =>
      match p.word b with
      | .link next => .ok ({ p with
          blockFreeCount := p.blockFreeCount - 1
          blockList := next
          word := update p.word b .owner }, .block b)
      -- the address of the pool is no block
      | .owner => .error .badPointer

/-- The rest of the waiting time, `elapsed` ticks after the thread was suspended. -/
def remainingTime (time : Int32) (elapsed : UInt32) : Int32 :=
  if 0 < time then
    let rest := time - elapsed.toInt32
    if rest < 0 then 0 else rest
  else time

/-- The part of `rt_mp_free` that links the block `b` into the block list. -/
def linkBlock (p : MemPool T) (b : ℤ) : MemPool T :=
  { p with
    blockFreeCount := p.blockFreeCount + 1
    blockList := some b
    word := update p.word b (.link p.blockList) }

/-- The part of `rt_mp_free` that resumes a thread. -/
def resumeWaiter (p : MemPool T) : Except Fault (MemPool T) :=
  if 0 < p.suspendThreadCount then
    match p.waits.suspend () with
    | t :: _ => .ok { p with
        waits := (p.waits.setError t .eok).resume t
        suspendThreadCount := p.suspendThreadCount - 1 }
    -- the head of the list is taken for a thread
    | [] => .error .badPointer
  else .ok p

/-- `rt_mp_free` of the block `b`. -/
def rtMpFree (p : MemPool T) (b : ℤ) : Except Fault (MemPool T) :=
  match p.word b with
  -- the block does not lead to the pool
  | .link _ => .error .badPointer
  | .owner => resumeWaiter (linkBlock p b)

namespace MemPool

/-- A pool with its callers. -/
structure Machine (T : Type) where
  pool : MemPool T
  /-- The variable `time` of a call that waits. -/
  time : T → Int32
  /-- The blocks that were returned and not freed. -/
  held : List ℤ

inductive Act (T : Type) where
  /-- A thread calls `rt_mp_alloc`. -/
  | alloc (t : T) (time : Int32)
  /-- `rt_mp_free` is called. -/
  | free (b : ℤ)
  /-- The timer of a waiting thread expires. -/
  | timeout (t : T)
  /-- A thread that was resumed goes on, `elapsed` ticks after it was suspended. -/
  | finish (t : T) (elapsed : UInt32)

/-- The thread `t` comes to the loop condition of `rt_mp_alloc`. -/
def enter (m : Machine T) (t : T) (time : Int32) : Option (Machine T) :=
  match rtMpAlloc m.pool t time with
  | .ok (p, .block b) => some { m with pool := p, held := b :: m.held }
  | .ok (p, .null) => some { m with pool := p }
  | .ok (p, .waits) => some { m with pool := p, time := update m.time t time }
  | .error _ => none

def step (m : Machine T) : Act T → Option (Machine T)
  | .alloc t time => if (m.pool.waits.thread t).phase = .running then enter m t time else none
  | .free b => (rtMpFree m.pool b).toOption.map fun p =>
      { m with pool := p, held := m.held.erase b }
  | .timeout t => (m.pool.waits.timeout t).map fun w => { m with pool := { m.pool with waits := w } }
  | .finish t elapsed =>
    if (m.pool.waits.thread t).phase = .resumed () then
      let m' := { m with pool := { m.pool with waits := m.pool.waits.wake t } }
      if (m.pool.waits.thread t).error = .eok then enter m' t (remainingTime (m.time t) elapsed)
      else some m'
    else none

/-- A pool after `rt_mp_init`, and threads that do not wait. -/
def Initial (m : Machine T) : Prop :=
  (∃ start size blockSize word waits, m.pool = rtMpInit start size blockSize word waits) ∧
    (∀ t, (m.pool.waits.thread t).phase = .running) ∧ m.held = []

/-- No waiting thread times out. -/
def NoTimeout (_ : Machine T) : Act T → Prop
  | .timeout _ => False
  | _ => True

/-! ## Counter of the waiting threads -/

variable {m m' : Machine T} {p p' : MemPool T} {t : T} {r : AllocResult}

/-- The counter is the length of the list, and the list holds the threads that wait. -/
structure Counted (p : MemPool T) : Prop where
  wf : p.waits.WF
  count : p.suspendThreadCount = (p.waits.suspend ()).length

lemma Counted.rtMpAlloc (h : Counted p) {time : Int32}
    (ht : ∀ o timed, (p.waits.thread t).phase ≠ .waiting o timed)
    (hok : rtMpAlloc p t time = .ok (p', r)) : Counted p' := by
  unfold Ipc.rtMpAlloc at hok
  split at hok
  case isTrue hzero =>
    split at hok
    case isTrue htime =>
      -- no waiting
      cases hok
      exact ⟨h.wf.setError t _, h.count⟩
    case isFalse htime =>
      cases hok
      have hphase : ∀ o timed, ((p.waits.setError t .eok).thread t).phase ≠ .waiting o timed := by
        intro o timed
        rw [Waits.thread_setError_self]
        exact ht o timed
      refine ⟨(h.wf.setError t _).suspendFront hphase () _, ?_⟩
      rw [Waits.suspend_suspendFront_self, length_cons]
      exact congrArg (· + 1) h.count
  case isFalse hfree =>
    split at hok
    case h_1 => cases hok
    case h_2 b hb =>
      split at hok
      case h_1 next hnext =>
        cases hok
        exact ⟨h.wf, h.count⟩
      case h_2 => cases hok

omit [DecidableEq T] in
lemma Counted.linkBlock (h : Counted p) (b : ℤ) : Counted (linkBlock p b) := ⟨h.wf, h.count⟩

lemma Counted.resumeWaiter (h : Counted p) (hok : resumeWaiter p = .ok p') : Counted p' := by
  unfold Ipc.resumeWaiter at hok
  split at hok
  case isTrue hpos =>
    split at hok
    case h_1 t ts hlist =>
      cases hok
      -- the first thread of the list waits, so it leaves the list
      obtain ⟨timed, ht⟩ := h.wf.head hlist
      have ht' : ((p.waits.setError t .eok).thread t).phase = .waiting () timed := by
        rw [Waits.thread_setError_self]
        exact ht
      have hlist' : (p.waits.setError t .eok).suspend () = t :: ts := hlist
      have hrest : ((p.waits.setError t .eok).resume t).suspend () = ts := by
        rw [Waits.resume, ht', Waits.suspend_takeOut_self, hlist', erase_cons_head]
      refine ⟨(h.wf.setError t _).resume t, ?_⟩
      rw [hrest, h.count, hlist, length_cons, Nat.add_sub_cancel]
    case h_2 => cases hok
  case isFalse hpos =>
    cases hok
    exact h

lemma Counted.rtMpFree (h : Counted p) {b : ℤ} (hok : rtMpFree p b = .ok p') : Counted p' := by
  unfold Ipc.rtMpFree at hok
  split at hok
  case h_1 => cases hok
  case h_2 => exact (h.linkBlock b).resumeWaiter hok

lemma Counted.enter (h : Counted m.pool) {time : Int32}
    (ht : ∀ o timed, (m.pool.waits.thread t).phase ≠ .waiting o timed)
    (hok : enter m t time = some m') : Counted m'.pool := by
  unfold MemPool.enter at hok
  split at hok
  case h_1 p b halloc => cases hok; exact h.rtMpAlloc ht halloc
  case h_2 p halloc => cases hok; exact h.rtMpAlloc ht halloc
  case h_3 p halloc => cases hok; exact h.rtMpAlloc ht halloc
  case h_4 => cases hok

lemma Counted.step (h : Counted m.pool) {a : Act T} (ha : NoTimeout m a)
    (hok : step m a = some m') : Counted m'.pool := by
  cases a with
  | alloc t time =>
    simp only [MemPool.step] at hok
    split at hok
    case isTrue hrun =>
      refine h.enter (fun o timed => ?_) hok
      simp [hrun]
    case isFalse => cases hok
  | free b =>
    obtain ⟨p, hp, rfl⟩ := Option.map_eq_some_iff.mp hok
    exact h.rtMpFree (toOption_eq_some.mp hp)
  | timeout t => exact ha.elim
  | finish t elapsed =>
    simp only [MemPool.step] at hok
    split at hok
    case isTrue hres =>
      have hwake : Counted { m.pool with waits := m.pool.waits.wake t } :=
        ⟨h.wf.wake hres, h.count⟩
      split at hok
      case isTrue =>
        refine Counted.enter hwake (fun o timed => ?_) hok
        simp [Waits.wake]
      case isFalse =>
        cases hok
        exact hwake
    case isFalse => cases hok

omit [DecidableEq T] in
lemma Counted.init (h : Initial m) : Counted m.pool := by
  obtain ⟨⟨start, size, blockSize, word, waits, hpool⟩, hrun, -⟩ := h
  have hlist : m.pool.waits.suspend () = [] := by rw [hpool]; rfl
  have hcount : m.pool.suspendThreadCount = 0 := by rw [hpool]; rfl
  refine ⟨⟨fun o t => ?_, fun o => ?_⟩, ?_⟩
  · simp [hrun, hlist]
  · simp [hlist]
  · simp [hlist, hcount]

/-- The counter is right, and `rt_mp_free` finds a waiting thread at the front of the list whenever
it looks for one. -/
def CountOk (p : MemPool T) : Prop :=
  p.suspendThreadCount = (p.waits.suspend ()).length ∧
    (0 < p.suspendThreadCount →
      ∃ t, (p.waits.suspend ()).head? = some t ∧
        ∃ timed, (p.waits.thread t).phase = .waiting () timed)

omit [DecidableEq T] in
lemma Counted.countOk (h : Counted p) : CountOk p := by
  refine ⟨h.count, fun hpos => ?_⟩
  obtain ⟨t, ts, hlist⟩ := exists_cons_of_length_pos (h.count ▸ hpos)
  exact ⟨t, by rw [hlist, head?_cons], h.wf.head hlist⟩

/-- Without timeouts `suspend_thread_count` is the number of threads in the suspend list, in every
state of every run. -/
theorem countOk_of_noTimeout (hm : Reach Initial step NoTimeout m) : CountOk m.pool :=
  Counted.countOk (hm.invariant (I := fun m => Counted m.pool) (fun _ => Counted.init)
    fun _ _ _ h ha hok => h.step ha hok)

/-- A pool of one block of four bytes, and two threads. -/
def small : Machine Bool where
  pool := rtMpInit 0 8 4 (fun _ => .owner)
    { thread := fun _ => ⟨10, .eok, .running⟩, suspend := fun _ => [], flag := fun _ => .fifo }
  time := fun _ => 0
  held := []

lemma initial_small : Initial small :=
  ⟨⟨_, _, _, _, _, rfl⟩, fun _ => rfl, rfl⟩

instance (m : Machine T) (a : Act T) : Decidable (NoTimeout m a) := by
  cases a <;> unfold NoTimeout <;> infer_instance

/-- One thread holds the block, the other one waits and gets it. -/
theorem countOk_waiting : ∃ m : Machine Bool,
    (m.pool.waits.suspend () = [true] ∧ m.held = [0]) ∧ CountOk m.pool := by
  obtain ⟨m, hreach, hfacts⟩ : ∃ m : Machine Bool, Reach Initial step NoTimeout m ∧
      m.pool.waits.suspend () = [true] ∧ m.held = [0] :=
    exists_of_run (fun _ _ => of_decide_eq_true) initial_small
      [.alloc false 0, .alloc true 10] (by decide +kernel)
  exact ⟨m, hfacts, countOk_of_noTimeout hreach⟩

/-- After a timeout the thread is still counted: the next `rt_mp_free` takes the head of the empty
list for a thread. -/
theorem not_countOk_timeout : ∃ m : Machine Bool,
    Reach Initial step (fun _ _ => True) m ∧ m.pool.suspendThreadCount = 1 ∧
      m.pool.waits.suspend () = [] ∧ ¬ CountOk m.pool ∧
      (rtMpFree m.pool 0).isOk = false := by
  obtain ⟨m, hreach, hcount, hlist, hfree⟩ : ∃ m : Machine Bool,
      Reach Initial step (fun _ _ => True) m ∧ m.pool.suspendThreadCount = 1 ∧
        m.pool.waits.suspend () = [] ∧ (rtMpFree m.pool 0).isOk = false :=
    exists_of_free_run initial_small [.alloc false 0, .alloc true 10, .timeout true]
      (by decide +kernel)
  refine ⟨m, hreach, hcount, hlist, fun hok => ?_, hfree⟩
  rw [CountOk, hcount, hlist] at hok
  exact absurd hok.1 (by decide)

end MemPool

end Ipc
