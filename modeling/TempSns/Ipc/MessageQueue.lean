import TempSns.Ipc.Mailbox
import TempSns.Lib.Word32

/-!
# Message queues

Embedding of `rt_mq_init`, `rt_mq_send`, `rt_mq_urgent`, `rt_mq_recv` and `rt_mq_control`, and the
machine of one message queue and any number of threads. The pool is an array of blocks, which are
given by their numbers; a block has a pointer `next` and a body of `msg_size` bytes.

A call that moves a message has two critical sections, and in between it has a block that is in no
list. They are separate steps of the machine. A call from an interrupt handler is one of a thread of
its own with the timeout 0.

`History` is the queue as it should be: a normal message is the last one, an urgent one the first one,
and the first message is delivered.
-/

namespace Ipc

open Function

/-- `struct rt_messagequeue` without its suspend list, and its pool. -/
structure MessageQueue where
  /-- The size of a message. -/
  msgSize : UInt16
  /-- The number of messages at most. -/
  maxMsgs : UInt16
  /-- The number of messages. -/
  entry : UInt16
  /-- The oldest message. -/
  msgQueueHead : Option ℕ
  /-- The newest message. -/
  msgQueueTail : Option ℕ
  /-- The list of free blocks. -/
  msgQueueFree : Option ℕ
  /-- The links of the blocks. -/
  next : ℕ → Option ℕ
  /-- The bytes of a block behind `next`. -/
  body : ℕ → ℕ → UInt8

namespace MessageQueue

/-- The loop of `rt_mq_init` after `n` rounds. -/
def initFree (mq : MessageQueue) : ℕ → MessageQueue
  | 0 => { mq with msgQueueFree := none }
  | n + 1 =>
    let mq := mq.initFree n
    { mq with next := update mq.next n mq.msgQueueFree, msgQueueFree := some n }

/-- The message queue with the sizes that `rt_mq_init` and `rt_mq_create` have computed. -/
def setup (msgSize maxMsgs : UInt16) (next : ℕ → Option ℕ) (body : ℕ → ℕ → UInt8) : MessageQueue :=
  initFree
    { msgSize := msgSize
      maxMsgs := maxMsgs
      entry := 0
      msgQueueHead := none
      msgQueueTail := none
      msgQueueFree := none
      next := next
      body := body } maxMsgs.toNat

/-- The first critical section of `rt_mq_send` and of `rt_mq_urgent`. -/
def takeFree (mq : MessageQueue) : MessageQueue × Option ℕ :=
  match mq.msgQueueFree with
  -- message queue is full
  | none => (mq, none)
  | some msg => ({ mq with msgQueueFree := mq.next msg }, some msg)

/-- `msg->next = RT_NULL`. -/
def clearNext (mq : MessageQueue) (msg : ℕ) : MessageQueue :=
  { mq with next := update mq.next msg none }

/-- `rt_memcpy(msg + 1, buffer, size)`. -/
def copyIn (mq : MessageQueue) (msg : ℕ) (buffer : List UInt8) : MessageQueue :=
  { mq with body := update mq.body msg fun i => buffer.getD i (mq.body msg i) }

/-- The second critical section of `rt_mq_send`, without the resumed thread. -/
def linkTail (mq : MessageQueue) (msg : ℕ) : MessageQueue :=
  { mq with
    next := match mq.msgQueueTail with
      | some tail => update mq.next tail (some msg)
      | none => mq.next
    msgQueueTail := some msg
    msgQueueHead := if mq.msgQueueHead = none then some msg else mq.msgQueueHead
    entry := mq.entry + 1 }

/-- The second critical section of `rt_mq_urgent`, without the resumed thread. -/
def linkHead (mq : MessageQueue) (msg : ℕ) : MessageQueue :=
  { mq with
    next := update mq.next msg mq.msgQueueHead
    msgQueueHead := some msg
    msgQueueTail := if mq.msgQueueTail = none then some msg else mq.msgQueueTail
    entry := mq.entry + 1 }

/-- The block `msg`, which is the first one of the queue, leaves the queue. -/
def unlinkHead (mq : MessageQueue) (msg : ℕ) : MessageQueue :=
  { mq with
    msgQueueHead := mq.next msg
    -- reach queue tail, set to NULL
    msgQueueTail := if mq.msgQueueTail = some msg then none else mq.msgQueueTail }

/-- The first critical section of `rt_mq_recv` for a queue that is not empty. -/
def takeHead (mq : MessageQueue) : Except Fault (MessageQueue × ℕ) :=
  match mq.msgQueueHead with
  | none => .error .badPointer
  | some msg => .ok ({ mq.unlinkHead msg with entry := mq.entry - 1 }, msg)

/-- `rt_memcpy(buffer, msg + 1, size > mq->msg_size ? mq->msg_size : size)`. -/
def copyOut (mq : MessageQueue) (msg size : ℕ) : List UInt8 :=
  (List.range (if size > mq.msgSize.toNat then mq.msgSize.toNat else size)).map (mq.body msg)

/-- The second critical section of `rt_mq_recv`. -/
def putFree (mq : MessageQueue) (msg : ℕ) : MessageQueue :=
  { mq with next := update mq.next msg mq.msgQueueFree, msgQueueFree := some msg }

/-- The loop of `rt_mq_control`. -/
def releaseAll : ℕ → MessageQueue → Except Fault MessageQueue
  | 0, _ => .error .diverges
  | fuel + 1, mq =>
    match mq.msgQueueHead with
    | none => .ok mq
    | some msg => releaseAll fuel ((mq.unlinkHead msg).putFree msg)

end MessageQueue

/-- The alignment is `RT_ALIGN_SIZE`, and `struct rt_mq_message` has 4 bytes. -/
def rtMqInit (msgSize poolSize : ℕ) (next : ℕ → Option ℕ) (body : ℕ → ℕ → UInt8) : MessageQueue :=
  let msgSize := UInt16.ofNat (Word32.alignUp msgSize 4)
  MessageQueue.setup msgSize (UInt16.ofNat (poolSize / (msgSize.toNat + 4))) next body

variable {T : Type} [DecidableEq T]

/-- The loop has at most one round for each block. -/
def rtMqControl (waits : Waits T Unit) (mq : MessageQueue) (cmd : ℤ) :
    Except Fault (Waits T Unit × MessageQueue × RtErr) := do
  if cmd = rtIpcCmdReset then
    let mq ← mq.releaseAll (mq.maxMsgs.toNat + 1)
    .ok (waits.resumeAll (), { mq with entry := 0 }, .eok)
  else .ok (waits, mq, .error)

namespace MessageQueue

/-- A message, with the number that it got when it was linked. -/
structure Msg where
  id : ℕ
  data : List UInt8
  deriving DecidableEq, Repr

/-- The queue as it should be, and what was delivered. -/
structure History where
  links : ℕ
  queue : List Msg
  /-- The messages that were taken out to be delivered. -/
  delivered : List Msg

namespace History

def link (h : History) (urgent : Bool) (data : List UInt8) : History :=
  { h with
    links := h.links + 1
    queue := if urgent then ⟨h.links, data⟩ :: h.queue else h.queue ++ [⟨h.links, data⟩] }

/-- The message is taken out of the queue. -/
def deliver (h : History) (msg : Msg) : History :=
  { h with queue := h.queue.tail, delivered := h.delivered ++ [msg] }

/-- All messages are dropped. -/
def clear (h : History) : History := { h with queue := [] }

end History

/-- Where a call is, with its local variables. -/
inductive Call where
  /-- In no call. -/
  | idle
  /-- `rt_mq_send` or `rt_mq_urgent` has a free block. -/
  | filling (msg : ℕ) (urgent : Bool) (buffer : List UInt8)
  /-- `rt_mq_send` or `rt_mq_urgent` has filled the block. -/
  | filled (msg : ℕ) (urgent : Bool) (buffer : List UInt8)
  /-- `rt_mq_recv` waits. -/
  | waiting (size : ℕ) (timeout : Int32) (tickDelta : UInt32)
  /-- `rt_mq_recv` has taken a block out of the queue. -/
  | copying (msg size : ℕ)
  /-- `rt_mq_recv` has copied the block. -/
  | copied (msg : ℕ) (buffer : List UInt8)
  deriving DecidableEq, Repr

def Call.block : Call → Option ℕ
  | .filling msg _ _ => some msg
  | .filled msg _ _ => some msg
  | .copying msg _ => some msg
  | .copied msg _ => some msg
  | _ => none

/-- A message queue with the threads and its history. -/
structure Machine (T : Type) where
  waits : Waits T Unit
  mq : MessageQueue
  now : UInt32
  call : T → Call
  /-- The message that was linked with a block. -/
  content : ℕ → Msg
  hist : History

inductive Act (T : Type) where
  /-- A thread calls `rt_mq_send` or `rt_mq_urgent`. -/
  | send (t : T) (urgent : Bool) (buffer : List UInt8)
  /-- The sender fills its block. -/
  | fill (t : T)
  /-- The sender links its block. -/
  | link (t : T)
  /-- A thread calls `rt_mq_recv`. -/
  | recv (t : T) (size : ℕ) (timeout : Int32)
  /-- The timer of a waiting thread expires. -/
  | timeout (t : T)
  /-- A thread that was resumed goes on with its call. -/
  | proceed (t : T)
  /-- The receiver copies its block. -/
  | copy (t : T)
  /-- The receiver puts its block to the free list. -/
  | release (t : T)
  /-- `rt_mq_control` is called. -/
  | control (cmd : ℤ)
  /-- The priority of a thread changes. -/
  | setPriority (t : T) (p : UInt8)
  /-- The tick increases. -/
  | tick

def Machine.setCall (m : Machine T) (t : T) (c : Call) : Machine T :=
  { m with call := update m.call t c }

/-- `rt_mq_recv` from the test of the loop to the end of the critical section. -/
def recvMsg (m : Machine T) (t : T) (size : ℕ) (timeout : Int32) (tickDelta : UInt32) :
    Except Fault (Machine T) :=
  if m.mq.entry = 0 then
    let waits := m.waits.setError t .eok
    -- no waiting, return timeout
    if timeout = 0 then .ok ({ m with waits := waits.setError t .etimeout }.setCall t .idle)
    else .ok ({ m with waits := waits.suspendThread () t timeout.toInt }.setCall t
      (.waiting size timeout (Mailbox.startTick timeout tickDelta m.now)))
  else do
    let (mq, msg) ← m.mq.takeHead
    .ok ({ m with mq := mq, hist := m.hist.deliver (m.content msg) }.setCall t (.copying msg size))

/-- The part of `rt_mq_recv` up to its first wait or its copy. -/
def rtMqRecv (m : Machine T) (t : T) (size : ℕ) (timeout : Int32) : Except Fault (Machine T) :=
  -- for non-blocking call
  if m.mq.entry = 0 ∧ timeout = 0 then .ok m else recvMsg m t size timeout 0

/-- The part of `rt_mq_recv` after a wait. -/
def rtMqRecvResumed (m : Machine T) (t : T) (size : ℕ) (timeout : Int32) (tickDelta : UInt32) :
    Except Fault (Machine T) :=
  let m' := { m with waits := m.waits.wake t }
  if (m.waits.thread t).error ≠ .eok then .ok (m'.setCall t .idle)
  else recvMsg m' t size (remainingTimeout timeout tickDelta m.now) tickDelta

/-- The first part of `rt_mq_send` and of `rt_mq_urgent`. -/
def sendStart (m : Machine T) (t : T) (urgent : Bool) (buffer : List UInt8) : Machine T :=
  -- greater than one message size
  if buffer.length > m.mq.msgSize.toNat then m
  else match m.mq.takeFree with
    | (_, none) => m
    | (mq, some msg) => { m with mq := mq }.setCall t (.filling msg urgent buffer)

/-- One step of the machine; `none` if it is not possible or does not return. -/
def step (m : Machine T) : Act T → Option (Machine T)
  | .send t urgent buffer =>
    if m.call t = .idle ∧ (m.waits.thread t).phase = .running ∧ buffer ≠ [] then
      some (sendStart m t urgent buffer)
    else none
  | .fill t =>
    match m.call t with
    | .filling msg urgent buffer =>
      -- `rt_mq_urgent` sets the pointer when it links the block
      let mq := if urgent then m.mq else m.mq.clearNext msg
      some ({ m with mq := mq.copyIn msg buffer }.setCall t (.filled msg urgent buffer))
    | _ => none
  | .link t =>
    match m.call t with
    | .filled msg urgent buffer =>
      some ({ m with
        waits := m.waits.resumeFirst ()
        mq := if urgent then m.mq.linkHead msg else m.mq.linkTail msg
        content := update m.content msg ⟨m.hist.links, buffer⟩
        hist := m.hist.link urgent buffer }.setCall t .idle)
    | _ => none
  | .recv t size timeout =>
    if m.call t = .idle ∧ (m.waits.thread t).phase = .running ∧ size ≠ 0 then
      (rtMqRecv m t size timeout).toOption
    else none
  | .timeout t => (m.waits.timeout t).map fun w => { m with waits := w }
  | .proceed t =>
    match (m.waits.thread t).phase, m.call t with
    | .resumed _, .waiting size timeout tickDelta =>
      (rtMqRecvResumed m t size timeout tickDelta).toOption
    | _, _ => none
  | .copy t =>
    match m.call t with
    | .copying msg size => some (m.setCall t (.copied msg (m.mq.copyOut msg size)))
    | _ => none
  | .release t =>
    match m.call t with
    | .copied msg _ => some ({ m with mq := m.mq.putFree msg }.setCall t .idle)
    | _ => none
  | .control cmd =>
    match rtMqControl m.waits m.mq cmd with
    | .ok (waits, mq, .eok) => some { m with waits := waits, mq := mq, hist := m.hist.clear }
    | .ok (waits, mq, _) => some { m with waits := waits, mq := mq }
    | .error _ => none
  | .setPriority t p => some { m with waits := m.waits.setPriority t p }
  | .tick => some { m with now := m.now + 1 }

/-- A message queue that was just set up, no call is in progress, and there is no history. -/
structure Initial (m : Machine T) : Prop where
  mq : ∃ msgSize maxMsgs next body, m.mq = setup msgSize maxMsgs next body
  running : ∀ t, (m.waits.thread t).phase = .running
  suspend : m.waits.suspend () = []
  idle : ∀ t, m.call t = .idle
  hist : m.hist = ⟨0, [], []⟩

end MessageQueue

end Ipc
