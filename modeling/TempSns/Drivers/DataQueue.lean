import TempSns.Ipc.Waits
import TempSns.Lib.RingBuffer
import TempSns.Lib.Transition

/-!
# Data queues

Embedding of `components/drivers/src/dataqueue.c`, and the machine of one queue and any number of
threads. A step of the machine is one critical section.

The two indices count the items modulo `2 ^ 16` and are reduced modulo the size when a cell is
accessed. The test for a full queue compares the difference of the indices as integers, so it fails
while the put index has wrapped and the get index has not. For a size that does not divide `2 ^ 16`
the cells are also out of order after a wrap. `IndexFits` excludes both.
-/

namespace Drivers

open RingBuffer Ipc Function List Option UInt16 Transition

structure DataItem where
  dataPtr : UInt32
  dataSize : UInt32
  deriving DecidableEq, Repr

/-- `struct rt_data_queue` without its suspend lists. -/
structure DataQueue where
  /-- The number of items at most. -/
  size : UInt16
  /-- The low water mark. -/
  lwm : UInt16
  /-- Counts the pops. -/
  getIndex : UInt16
  /-- Counts the pushes. -/
  putIndex : UInt16
  queue : ℕ → DataItem

/-- The suspend lists of a data queue. -/
inductive DqList where
  /-- `suspended_push_list`. -/
  | push
  /-- `suspended_pop_list`. -/
  | pop
  deriving DecidableEq, Repr

/-- A data queue with the threads. -/
structure DataQueueSystem (T : Type) where
  waits : Waits T DqList
  dq : DataQueue

/-- `rt_data_queue_init`, if there is memory for the items. -/
def rtDataQueueInit (size lwm : UInt16) (queue : ℕ → DataItem) : DataQueue where
  size := size
  lwm := lwm
  getIndex := 0
  putIndex := 0
  queue := queue

/-- What a critical section of `rt_data_queue_push` ends with. -/
inductive PushResult where
  /-- The item was stored. -/
  | stored
  /-- The call returns `-RT_ETIMEOUT`. -/
  | failed
  /-- The thread waits. -/
  | waits
  deriving DecidableEq, Repr

/-- What a critical section of `rt_data_queue_pop` ends with. -/
inductive PopResult where
  /-- The call returns an item. -/
  | item (x : DataItem)
  /-- The call returns `-RT_ETIMEOUT`. -/
  | failed
  /-- The thread waits. -/
  | waits
  deriving DecidableEq, Repr

def PopResult.item? : PopResult → Option DataItem
  | .item x => some x
  | _ => none

namespace DataQueue

/-- The cell of the put index is written. -/
def put (dq : DataQueue) (item : DataItem) : DataQueue :=
  { dq with
    queue := update dq.queue (dq.putIndex.toNat % dq.size.toNat) item
    putIndex := dq.putIndex + 1 }

def next (dq : DataQueue) : DataItem := dq.queue (dq.getIndex.toNat % dq.size.toNat)

end DataQueue

variable {T : Type} [DecidableEq T]

/-- `rt_data_queue_push` from the test of the loop to the end of the critical section. -/
def rtDataQueuePush (s : DataQueueSystem T) (t : T) (item : DataItem) (timeout : ℤ) :
    DataQueueSystem T × PushResult :=
  if (s.dq.putIndex.toNat : ℤ) - s.dq.getIndex.toNat = s.dq.size.toNat then
    -- queue is full
    if timeout = 0 then (s, .failed)
    else ({ s with waits := (s.waits.setError t .eok).suspendThread .push t timeout }, .waits)
  else ({ waits := s.waits.resumeFirst .pop, dq := s.dq.put item }, .stored)

/-- `rt_data_queue_pop` from the test of the loop to the end of the critical section. -/
def rtDataQueuePop (s : DataQueueSystem T) (t : T) (timeout : ℤ) :
    DataQueueSystem T × PopResult :=
  if s.dq.getIndex = s.dq.putIndex then
    -- queue is empty
    if timeout = 0 then (s, .failed)
    else ({ s with waits := (s.waits.setError t .eok).suspendThread .pop t timeout }, .waits)
  else
    let dq := { s.dq with getIndex := s.dq.getIndex + 1 }
    if (dq.putIndex.toNat : ℤ) - dq.getIndex.toNat ≤ dq.lwm.toNat then
      ({ waits := s.waits.resumeFirst .push, dq := dq }, .item s.dq.next)
    else ({ s with dq := dq }, .item s.dq.next)

def rtDataQueuePeak (dq : DataQueue) : Option DataItem :=
  if dq.getIndex = dq.putIndex then none else some dq.next

namespace DataQueue

/-- The call that a thread is in. -/
inductive Call where
  | push (item : DataItem) (timeout : ℤ)
  | pop (timeout : ℤ)
  deriving DecidableEq, Repr

/-- A data queue with its callers and its history. -/
structure Machine (T : Type) where
  sys : DataQueueSystem T
  call : T → Call
  pushed : List DataItem
  /-- The items that were returned by `rt_data_queue_pop`. -/
  popped : List DataItem

inductive Act (T : Type) where
  /-- A thread calls `rt_data_queue_push` or `rt_data_queue_pop`. -/
  | call (t : T) (c : Call)
  /-- `rt_data_queue_peak` is called. -/
  | peak
  /-- The timer of a waiting thread expires. -/
  | timeout (t : T)
  /-- A thread that was resumed goes on with its call. -/
  | proceed (t : T)

/-- The thread comes to the test of the loop. -/
def enter (m : Machine T) (t : T) : Call → Machine T
  | .push item timeout =>
    { m with
      sys := (rtDataQueuePush m.sys t item timeout).1
      call := update m.call t (.push item timeout)
      pushed := m.pushed ++
        (if (rtDataQueuePush m.sys t item timeout).2 = .stored then [item] else []) }
  | .pop timeout =>
    { m with
      sys := (rtDataQueuePop m.sys t timeout).1
      call := update m.call t (.pop timeout)
      popped := m.popped ++ (rtDataQueuePop m.sys t timeout).2.item?.toList }

def step (m : Machine T) : Act T → Option (Machine T)
  | .call t c => if (m.sys.waits.thread t).phase = .running then some (enter m t c) else none
  | .peak => some m
  | .timeout t => (m.sys.waits.timeout t).map fun w => { m with sys := { m.sys with waits := w } }
  | .proceed t =>
    match (m.sys.waits.thread t).phase with
    | .resumed _ =>
      let m' := { m with sys := { m.sys with waits := m.sys.waits.wake t } }
      if (m.sys.waits.thread t).error = .eok then some (enter m' t (m.call t)) else some m'
    | _ => none

/-- A queue after `rt_data_queue_init`, with no history, and threads that do not wait. -/
def Initial (m : Machine T) : Prop :=
  (∃ size lwm queue, m.sys.dq = rtDataQueueInit size lwm queue) ∧
    (∀ t, (m.sys.waits.thread t).phase = .running) ∧ (∀ o, m.sys.waits.suspend o = []) ∧
    (∀ o, m.sys.waits.flag o = .fifo) ∧ m.pushed = [] ∧ m.popped = []

/-- The put index does not wrap when the next item is stored, or the size divides `2 ^ 16`; and the
item does not fill the queue while the put index has wrapped and the get index has not. -/
def PushFits (m : Machine T) : Prop :=
  m.pushed.length - m.popped.length < m.sys.dq.size.toNat →
    (m.sys.dq.putIndex.toNat + 1 = 2 ^ 16 → m.sys.dq.size.toNat ∣ 2 ^ 16) ∧
      (m.pushed.length - m.popped.length + 1 = m.sys.dq.size.toNat →
        m.sys.dq.getIndex ≤ m.sys.dq.putIndex ∧ m.sys.dq.putIndex.toNat + 1 < 2 ^ 16)

/-- Every item that is stored meets `PushFits`. -/
def IndexFits (m : Machine T) : Act T → Prop
  | .call _ (.push _ _) => PushFits m
  | .proceed t => (∃ item timeout, m.call t = .push item timeout) → PushFits m
  | _ => True

/-! ## Bounded queue -/

variable {m m' : Machine T} {t : T} {q : List DataItem} {dq : DataQueue} {s : DataQueueSystem T}

/-- The queue holds the items `q`. -/
structure Stores (dq : DataQueue) (q : List DataItem) : Prop where
  length_le : q.length ≤ dq.size.toNat
  index_eq : dq.putIndex.toNat = (dq.getIndex.toNat + q.length) % 2 ^ 16
  ring : 0 < dq.size.toNat → Holds dq.size.toNat dq.queue (dq.getIndex.toNat % dq.size.toNat)
    (dq.putIndex.toNat % dq.size.toNat) q
  wrap : dq.size.toNat ∣ 2 ^ 16 ∨ dq.getIndex.toNat + q.length < 2 ^ 16
  full : q.length = dq.size.toNat → dq.getIndex.toNat + q.length < 2 ^ 16

namespace Stores

lemma init (size lwm : UInt16) (queue : ℕ → DataItem) :
    Stores (rtDataQueueInit size lwm queue) [] where
  length_le := Nat.zero_le _
  index_eq := rfl
  ring hpos := by
    change Holds size.toNat queue (0 % size.toNat) (0 % size.toNat) []
    rw [Nat.zero_mod]
    exact Holds.init hpos
  wrap := .inr (show 0 + 0 < 2 ^ 16 by decide)
  full _ := show 0 + 0 < 2 ^ 16 by decide

lemma length_lt (h : Stores dq q) : q.length < 2 ^ 16 := h.length_le.trans_lt dq.size.toNat_lt

lemma putIndex_eq (h : Stores dq q) : dq.putIndex.toNat = dq.getIndex.toNat + q.length ∨
    dq.putIndex.toNat + 2 ^ 16 = dq.getIndex.toNat + q.length := by
  have hget := dq.getIndex.toNat_lt
  have hlen := h.length_lt
  have hindex := h.index_eq
  omega

/-- The test of `rt_data_queue_push`. -/
lemma full_iff (h : Stores dq q) :
    (dq.putIndex.toNat : ℤ) - dq.getIndex.toNat = dq.size.toNat ↔ q.length = dq.size.toNat := by
  have hindex := h.index_eq
  have hput := dq.putIndex.toNat_lt
  have hlen := h.length_lt
  constructor
  · intro htest
    -- after a wrap the difference is negative
    rcases h.putIndex_eq with hput | hput <;> omega
  · intro hfull
    rw [Nat.mod_eq_of_lt (h.full hfull)] at hindex
    omega

/-- The test of `rt_data_queue_pop`. -/
lemma empty_iff (h : Stores dq q) : dq.getIndex = dq.putIndex ↔ q = [] := by
  have hget := dq.getIndex.toNat_lt
  have hlen := h.length_lt
  rw [← UInt16.toNat_inj, ← length_eq_zero_iff]
  rcases h.putIndex_eq with hput | hput <;> omega

lemma next_cell {size : ℕ} {i : UInt16} (hpos : 0 < size)
    (hwrap : size ∣ 2 ^ 16 ∨ i.toNat + 1 < 2 ^ 16) :
    (i + 1).toNat % size = RingBuffer.next size (i.toNat % size) := by
  rw [next_eq (Nat.mod_lt _ hpos), Nat.mod_add_mod, UInt16.toNat_add, UInt16.toNat_one]
  rcases hwrap with hdvd | hlt
  · exact Nat.mod_mod_of_dvd _ hdvd
  · rw [Nat.mod_eq_of_lt hlt]

lemma head (h : Stores dq q) {x : DataItem} {q' : List DataItem} (hq : q = x :: q') :
    dq.next = x := by
  subst hq
  have hpos : 0 < dq.size.toNat := by
    have := h.length_le
    rw [length_cons] at this
    omega
  exact (h.ring hpos).pop.1

lemma put (h : Stores dq q) (item : DataItem) (hroom : q.length < dq.size.toNat)
    (hwrap : dq.putIndex.toNat + 1 = 2 ^ 16 → dq.size.toNat ∣ 2 ^ 16)
    (hfull : q.length + 1 = dq.size.toNat →
      dq.getIndex ≤ dq.putIndex ∧ dq.putIndex.toNat + 1 < 2 ^ 16) :
    Stores (dq.put item) (q ++ [item]) := by
  have hput := dq.putIndex.toNat_lt
  have hindex := h.index_eq
  have hsize := dq.size.toNat_lt
  refine ⟨?_, ?_, fun hpos => ?_, ?_, fun hlen => ?_⟩
  · rw [length_append, length_singleton]
    exact hroom
  · change (dq.putIndex + 1).toNat = (dq.getIndex.toNat + (q ++ [item]).length) % 2 ^ 16
    rw [UInt16.toNat_add, UInt16.toNat_one, hindex, Nat.mod_add_mod, length_append,
      length_singleton, Nat.add_assoc]
  · change 0 < dq.size.toNat at hpos
    change Holds dq.size.toNat _ _ ((dq.putIndex + 1).toNat % dq.size.toNat) _
    rw [next_cell hpos]
    · exact (h.ring hpos).push hroom
    · by_cases hlast : dq.putIndex.toNat + 1 = 2 ^ 16
      · exact .inl (hwrap hlast)
      · exact .inr (by omega)
  · change dq.size.toNat ∣ 2 ^ 16 ∨ dq.getIndex.toNat + (q ++ [item]).length < 2 ^ 16
    rw [length_append, length_singleton]
    rcases h.wrap with hdvd | hlt
    · exact .inl hdvd
    · rw [Nat.mod_eq_of_lt hlt] at hindex
      by_cases hlast : dq.putIndex.toNat + 1 = 2 ^ 16
      · exact .inl (hwrap hlast)
      · exact .inr (by omega)
  · change dq.getIndex.toNat + (q ++ [item]).length < 2 ^ 16
    change (q ++ [item]).length = dq.size.toNat at hlen
    rw [length_append, length_singleton] at hlen ⊢
    obtain ⟨hle, hlt⟩ := hfull hlen
    rw [le_iff_toNat_le] at hle
    -- the indices are not separated by a wrap
    rcases h.putIndex_eq with hput | hput <;> omega

lemma pop {x : DataItem} (h : Stores dq (x :: q)) :
    Stores { dq with getIndex := dq.getIndex + 1 } q := by
  have hlen := h.length_le
  have hindex := h.index_eq
  rw [length_cons] at hlen hindex
  refine ⟨by dsimp only; omega, ?_, fun hpos => ?_, ?_, fun hfull => ?_⟩
  · change dq.putIndex.toNat = ((dq.getIndex + 1).toNat + q.length) % 2 ^ 16
    rw [UInt16.toNat_add, UInt16.toNat_one, Nat.mod_add_mod, hindex]
    congr 1
    omega
  · change Holds dq.size.toNat dq.queue ((dq.getIndex + 1).toNat % dq.size.toNat) _ q
    rw [next_cell hpos]
    · exact (h.ring hpos).pop.2
    · refine h.wrap.imp id fun hlt => ?_
      rw [length_cons] at hlt
      omega
  · refine h.wrap.imp id fun hlt => ?_
    change (dq.getIndex + 1).toNat + q.length < 2 ^ 16
    rw [length_cons] at hlt
    rw [UInt16.toNat_add, UInt16.toNat_one, Nat.mod_eq_of_lt (by omega)]
    omega
  · change q.length = dq.size.toNat at hfull
    omega

end Stores

/-- The machine holds the items that were stored and not returned. -/
structure Inv (m : Machine T) (q : List DataItem) : Prop where
  history : m.pushed = m.popped ++ q
  stores : Stores m.sys.dq q

namespace Inv

omit [DecidableEq T] in
lemma length_eq (h : Inv m q) : m.pushed.length - m.popped.length = q.length := by
  rw [h.history, length_append, Nat.add_sub_cancel_left]

lemma enter (h : Inv m q) (t : T) (c : Call)
    (hfits : (∃ item timeout, c = .push item timeout) → PushFits m) :
    ∃ q', Inv (enter m t c) q' := by
  cases c with
  | push item timeout =>
    by_cases hfull : q.length = m.sys.dq.size.toNat
    · -- the call waits or fails
      have htest := h.stores.full_iff.mpr hfull
      refine ⟨q, ?_, ?_⟩
      · simp only [DataQueue.enter, rtDataQueuePush, if_pos htest]
        split <;> simp [h.history]
      · simp only [DataQueue.enter, rtDataQueuePush, if_pos htest]
        split <;> exact h.stores
    · have htest := mt h.stores.full_iff.mp hfull
      have hroom : q.length < m.sys.dq.size.toNat := lt_of_le_of_ne h.stores.length_le hfull
      obtain ⟨hwrap, hlast⟩ := hfits ⟨item, timeout, rfl⟩ (by rwa [h.length_eq])
      rw [h.length_eq] at hlast
      refine ⟨q ++ [item], ?_, ?_⟩
      · simp only [DataQueue.enter, rtDataQueuePush, if_neg htest]
        rw [if_pos trivial, h.history, append_assoc]
      · simp only [DataQueue.enter, rtDataQueuePush, if_neg htest]
        exact h.stores.put item hroom hwrap hlast
  | pop timeout =>
    cases q with
    | nil =>
      have htest := h.stores.empty_iff.mpr rfl
      refine ⟨[], ?_, ?_⟩
      · simp only [DataQueue.enter, rtDataQueuePop, if_pos htest]
        split <;> simp [h.history, PopResult.item?]
      · simp only [DataQueue.enter, rtDataQueuePop, if_pos htest]
        split <;> exact h.stores
    | cons x q =>
      have htest := mt h.stores.empty_iff.mp (cons_ne_nil x q)
      have hhead := h.stores.head rfl
      refine ⟨q, ?_, ?_⟩
      · simp only [DataQueue.enter, rtDataQueuePop, if_neg htest, hhead]
        split <;> simp [h.history, PopResult.item?]
      · simp only [DataQueue.enter, rtDataQueuePop, if_neg htest]
        split <;> exact h.stores.pop

lemma step (h : Inv m q) {a : Act T} (ha : IndexFits m a) (hok : step m a = some m') :
    ∃ q', Inv m' q' := by
  cases a with
  | call t c =>
    obtain ⟨-, henter⟩ := ite_none_right_eq_some.mp hok
    obtain rfl := some.inj henter
    refine h.enter t c ?_
    rintro ⟨item, timeout, rfl⟩
    exact ha
  | peak =>
    obtain rfl := some.inj hok
    exact ⟨q, h⟩
  | timeout t =>
    obtain ⟨w, -, rfl⟩ := map_eq_some_iff.mp hok
    exact ⟨q, h.history, h.stores⟩
  | proceed t =>
    simp only [DataQueue.step] at hok
    split at hok
    case h_1 o hphase =>
      have hwake : Inv { m with sys := { m.sys with waits := m.sys.waits.wake t } } q :=
        ⟨h.history, h.stores⟩
      split at hok
      case isTrue =>
        obtain rfl := some.inj hok
        exact hwake.enter t (m.call t) ha
      case isFalse =>
        obtain rfl := some.inj hok
        exact ⟨q, hwake⟩
    case h_2 => cases hok

omit [DecidableEq T] in
lemma init (h : Initial m) : Inv m [] := by
  obtain ⟨⟨size, lwm, queue, hdq⟩, -, -, -, hpushed, hpopped⟩ := h
  refine ⟨by rw [hpushed, hpopped]; rfl, ?_⟩
  rw [hdq]
  exact Stores.init size lwm queue

end Inv

/-- The queue is a bounded queue: the items are returned in the order in which they were stored and
none is lost, at most `size` items are stored, a push waits or fails iff `size` items are
stored, a pop returns the oldest item and waits or fails iff none is stored, and
`rt_data_queue_peak` finds the oldest item. -/
def FifoOk (m : Machine T) : Prop :=
  ∃ q, m.pushed = m.popped ++ q ∧ q.length ≤ m.sys.dq.size.toNat ∧
    (∀ t item timeout, (rtDataQueuePush m.sys t item timeout).2 ≠ .stored ↔
      q.length = m.sys.dq.size.toNat) ∧
    (∀ t timeout, (rtDataQueuePop m.sys t timeout).2.item? = q.head?) ∧
    rtDataQueuePeak m.sys.dq = q.head?

lemma Inv.fifoOk (h : Inv m q) : FifoOk m := by
  refine ⟨q, h.history, h.stores.length_le, fun t item timeout => ?_, fun t timeout => ?_, ?_⟩
  · rw [← h.stores.full_iff, rtDataQueuePush]
    by_cases htest : (m.sys.dq.putIndex.toNat : ℤ) - m.sys.dq.getIndex.toNat = m.sys.dq.size.toNat
    · rw [if_pos htest]
      refine iff_of_true ?_ htest
      split <;> exact nofun
    · rw [if_neg htest]
      exact iff_of_false (fun hne => hne rfl) htest
  · unfold rtDataQueuePop
    cases q with
    | nil =>
      rw [if_pos (h.stores.empty_iff.mpr rfl)]
      split <;> rfl
    | cons x q =>
      rw [if_neg (mt h.stores.empty_iff.mp (cons_ne_nil x q)), h.stores.head rfl]
      dsimp only
      split <;> rfl
  · unfold rtDataQueuePeak
    cases q with
    | nil => rw [if_pos (h.stores.empty_iff.mpr rfl), head?_nil]
    | cons x q =>
      rw [if_neg (mt h.stores.empty_iff.mp (cons_ne_nil x q)), h.stores.head rfl, head?_cons]

/-- The data queue is a bounded queue in every state of every run in which the indices fit. -/
theorem fifoOk_of_indexFits (hm : Reach Initial step IndexFits m) : FifoOk m := by
  obtain ⟨q, hq⟩ := hm.invariant (I := fun m => ∃ q, Inv m q) (fun _ h => ⟨[], Inv.init h⟩)
    fun _ _ _ ⟨_, h⟩ ha hok => h.step ha hok
  exact hq.fifoOk

def anItem : DataItem := ⟨1, 1⟩

/-- A queue of the given size and one thread, after `k` items were stored and returned. -/
def afterRounds (size : UInt16) (k : ℕ) : Machine Unit where
  sys :=
    { waits :=
        { thread := fun _ => ⟨10, .eok, .running⟩
          suspend := fun _ => []
          flag := fun _ => .fifo }
      dq := ⟨size, 0, ofNat k, ofNat k, fun _ => anItem⟩ }
  call := fun _ => .pop 0
  pushed := replicate k anItem
  popped := replicate k anItem

lemma initial_afterRounds (size : UInt16) : Initial (afterRounds size 0) :=
  ⟨⟨size, 0, _, rfl⟩, fun _ => rfl, fun _ => rfl, fun _ => rfl, rfl, rfl⟩

instance (m : Machine T) : Decidable (PushFits m) := by
  unfold PushFits
  infer_instance

/-- Two items are stored in a queue of two cells. -/
theorem fifoOk_two : ∃ m : Machine Unit, m.pushed.length = 2 ∧ m.sys.dq.size = 2 ∧ FifoOk m := by
  have hpush : ∀ m : Machine Unit, ∀ item timeout, PushFits m →
      IndexFits m (.call () (.push item timeout)) := fun _ _ _ h => h
  refine ⟨enter (enter (afterRounds 2 0) () (.push anItem 0)) () (.push anItem 0), by decide +kernel,
    rfl, fifoOk_of_indexFits (.step (.step (.init (initial_afterRounds 2))
      (hpush _ anItem 0 (by decide +kernel)) rfl) (hpush _ anItem 0 (by decide +kernel)) rfl)⟩

/-- The state of `afterRounds` with one more item in the only cell. -/
def afterPush (k : ℕ) : Machine Unit :=
  { afterRounds 1 k with
    sys :=
      { (afterRounds 1 k).sys with
        dq := ⟨1, 0, ofNat k, ofNat (k + 1), fun _ => anItem⟩ }
    call := fun _ => .push anItem 0
    pushed := replicate (k + 1) anItem }

lemma update_call (c c' : Call) : update (fun _ : Unit => c) () c' = fun _ => c' :=
  funext fun _ => update_self _ _ _

lemma enter_push_afterRounds (k : ℕ) :
    enter (afterRounds 1 k) () (.push anItem 0) = afterPush k := by
  have htest : ¬ ((ofNat k).toNat : ℤ) - (ofNat k).toNat = (1 : UInt16).toNat := by
    rw [sub_self]
    decide
  have hcell : update (fun _ => anItem) ((ofNat k).toNat % (1 : UInt16).toNat) anItem =
      fun _ => anItem := update_eq_self _ _
  have hput : ofNat k + 1 = ofNat (k + 1) := (ofNat_add k 1).symm
  simp only [enter, rtDataQueuePush, afterRounds, if_neg htest, DataQueue.put, hcell, hput,
    update_call]
  rw [if_pos trivial, ← replicate_succ']
  rfl

lemma enter_pop_afterPush (k : ℕ) : enter (afterPush k) () (.pop 0) = afterRounds 1 (k + 1) := by
  have htest : ¬ ofNat k = ofNat (k + 1) := by
    rw [← UInt16.toNat_inj]
    simp only [toNat_ofNat']
    omega
  have hlwm : ((ofNat (k + 1)).toNat : ℤ) - (ofNat (k + 1)).toNat ≤ (0 : UInt16).toNat := by
    rw [sub_self]
    decide
  have hget : ofNat k + 1 = ofNat (k + 1) := (ofNat_add k 1).symm
  simp only [enter, rtDataQueuePop, afterPush, afterRounds, if_neg htest, hget, if_pos hlwm,
    update_call, PopResult.item?, toList_some, DataQueue.next]
  rw [← replicate_succ']
  rfl

lemma step_call {c : Call} (hrun : (m.sys.waits.thread t).phase = .running) :
    step m (.call t c) = some (enter m t c) := if_pos hrun

lemma reach_afterRounds (k : ℕ) : Reach Initial step (fun _ _ => True) (afterRounds 1 k) := by
  induction k with
  | zero => exact .init (initial_afterRounds 1)
  | succ k ih =>
    have hpush : step (afterRounds 1 k) (.call () (.push anItem 0)) = some (afterPush k) := by
      rw [← enter_push_afterRounds]
      exact step_call rfl
    have hpop : step (afterPush k) (.call () (.pop 0)) = some (afterRounds 1 (k + 1)) := by
      rw [← enter_pop_afterPush]
      exact step_call rfl
    exact .step (.step ih trivial hpush) trivial hpop

/-- A queue of one cell: after 65535 items the put index wraps, and a second item is stored before
the first one is taken out. -/
theorem not_fifoOk_wrapped : ∃ m : Machine Unit,
    Reach Initial step (fun _ _ => True) m ∧ m.sys.dq.size = 1 ∧
      m.pushed.length = m.popped.length + 2 ∧ ¬ FifoOk m := by
  have hpush : step (afterRounds 1 65535) (.call () (.push anItem 0)) = some (afterPush 65535) := by
    rw [← enter_push_afterRounds]
    exact step_call rfl
  -- the test compares 0 - 65535 with the size
  have htest : ¬ ((ofNat (65535 + 1)).toNat : ℤ) - (ofNat 65535).toNat =
      (1 : UInt16).toNat := by decide
  have hpushed : (enter (afterPush 65535) () (.push anItem 0)).pushed =
      replicate (65535 + 1) anItem ++ [anItem] := by
    simp only [enter, rtDataQueuePush, afterPush, afterRounds, if_neg htest]
    rw [if_pos trivial]
  have hdq : (enter (afterPush 65535) () (.push anItem 0)).sys.dq.size = 1 := by
    simp only [enter, rtDataQueuePush, afterPush, afterRounds, if_neg htest, DataQueue.put]
  have hpopped : (enter (afterPush 65535) () (.push anItem 0)).popped =
      replicate 65535 anItem := rfl
  have hlength : (enter (afterPush 65535) () (.push anItem 0)).pushed.length =
      (enter (afterPush 65535) () (.push anItem 0)).popped.length + 2 := by
    rw [hpushed, hpopped, length_append, length_replicate, length_replicate, length_singleton]
  refine ⟨_, .step (.step (reach_afterRounds 65535) trivial hpush) trivial (step_call rfl), hdq,
    hlength, ?_⟩
  rintro ⟨q, hhistory, hle, -⟩
  rw [hhistory, length_append] at hlength
  rw [hdq] at hle
  have hone : (1 : UInt16).toNat = 1 := rfl
  omega

end DataQueue

end Drivers
