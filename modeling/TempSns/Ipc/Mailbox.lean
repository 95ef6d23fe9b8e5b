import TempSns.Ipc.Event
import TempSns.Lib.RingBuffer

/-!
# Mailboxes

Embedding of `rt_mb_send_wait`, `rt_mb_recv` and `rt_mb_control`, and the machine of one mailbox and
any number of threads. A step of the machine is one critical section. A call from an interrupt handler
never waits: it is a call of a thread of its own with the timeout 0.

A send resumes one waiting receiver, and a receive one waiting sender. Nothing is reserved for a
resumed thread: it tests the mailbox again when it runs (`Act.proceed`), and other threads may have
come before it.
-/

namespace Ipc

open List Option Transition

/-- The suspend lists of a mailbox. -/
inductive MbList where
  /-- `parent.suspend_thread`. -/
  | receivers
  /-- `suspend_sender_thread`. -/
  | senders
  deriving DecidableEq, Repr

/-- `struct rt_mailbox` without its suspend lists. -/
structure Mailbox where
  /-- The buffer of mails. -/
  msgPool : ℕ → UInt32
  /-- The number of mails in the buffer at most. -/
  size : UInt16
  /-- The number of mails in the buffer. -/
  entry : UInt16
  /-- Where the next mail is stored. -/
  inOffset : UInt16
  /-- Where the oldest mail is. -/
  outOffset : UInt16

/-- A mailbox with the threads. -/
structure MailboxSystem (T : Type) where
  waits : Waits T MbList
  mb : Mailbox

def rtMbInit (msgPool : ℕ → UInt32) (size : UInt32) : Mailbox where
  msgPool := msgPool
  size := size.toUInt16
  entry := 0
  inOffset := 0
  outOffset := 0

/-- The step of `in_offset` and `out_offset`. -/
def nextOffset (size offset : UInt16) : UInt16 := if offset + 1 ≥ size then 0 else offset + 1

namespace Mailbox

def put (mb : Mailbox) (value : UInt32) : Mailbox :=
  { mb with
    msgPool := Function.update mb.msgPool mb.inOffset.toNat value
    inOffset := nextOffset mb.size mb.inOffset
    entry := mb.entry + 1 }

def next (mb : Mailbox) : UInt32 := mb.msgPool mb.outOffset.toNat

/-- The next mail is taken out. -/
def get (mb : Mailbox) : Mailbox :=
  { mb with outOffset := nextOffset mb.size mb.outOffset, entry := mb.entry - 1 }

end Mailbox

variable {T : Type} [DecidableEq T] {s : MailboxSystem T}

/-- `rt_mb_send_wait` from the test of the loop to the end of the critical section. The result is
`none` if the thread waits. -/
def sendMail (s : MailboxSystem T) (t : T) (value : UInt32) (timeout : Int32) :
    MailboxSystem T × Option RtErr :=
  if s.mb.entry = s.mb.size then
    let waits := s.waits.setError t .eok
    -- no waiting, return timeout
    if timeout = 0 then ({ s with waits := waits }, some .efull)
    else ({ s with waits := waits.suspendThread .senders t timeout.toInt }, none)
  else ({ waits := s.waits.resumeFirst .receivers, mb := s.mb.put value }, some .eok)

/-- `rt_mb_send_wait` up to its end or its first wait. -/
def rtMbSendWait (s : MailboxSystem T) (t : T) (value : UInt32) (timeout : Int32) :
    MailboxSystem T × Option RtErr :=
  -- for non-blocking call
  if s.mb.entry = s.mb.size ∧ timeout = 0 then (s, some .efull)
  else sendMail s t value timeout

/-- `rt_mb_recv` from the test of the loop to the end of the critical section. The result is `none` if
the thread waits, and otherwise the return value with the mail. -/
def recvMail (s : MailboxSystem T) (t : T) (timeout : Int32) :
    MailboxSystem T × Option (RtErr × Option UInt32) :=
  if s.mb.entry = 0 then
    let waits := s.waits.setError t .eok
    -- no waiting, return timeout
    if timeout = 0 then ({ s with waits := waits.setError t .etimeout }, some (.etimeout, none))
    else ({ s with waits := waits.suspendThread .receivers t timeout.toInt }, none)
  else ({ waits := s.waits.resumeFirst .senders, mb := s.mb.get }, some (.eok, some s.mb.next))

/-- `rt_mb_recv` up to its end or its first wait. -/
def rtMbRecv (s : MailboxSystem T) (t : T) (timeout : Int32) :
    MailboxSystem T × Option (RtErr × Option UInt32) :=
  -- for non-blocking call
  if s.mb.entry = 0 ∧ timeout = 0 then (s, some (.etimeout, none))
  else recvMail s t timeout

def remainingTimeout (timeout : Int32) (tickDelta now : UInt32) : Int32 :=
  if 0 < timeout then
    let timeout := (timeout.toUInt32 - (now - tickDelta)).toInt32
    if timeout < 0 then 0 else timeout
  else timeout

def rtMbControl (s : MailboxSystem T) (cmd : ℤ) : MailboxSystem T × RtErr :=
  if cmd = rtIpcCmdReset then
    ({ waits := (s.waits.resumeAll .receivers).resumeAll .senders
       mb := { s.mb with entry := 0, inOffset := 0, outOffset := 0 } }, .eok)
  else (s, .error)

namespace Mailbox

/-- The local variables of a call that waits. -/
inductive Call where
  /-- `rt_mb_send_wait`. -/
  | send (value : UInt32) (timeout : Int32) (tickDelta : UInt32)
  | recv (timeout : Int32) (tickDelta : UInt32)

/-- A mailbox with its history. -/
structure Machine (T : Type) where
  sys : MailboxSystem T
  now : UInt32
  call : T → Call
  sent : List UInt32
  received : List UInt32

inductive Act (T : Type) where
  /-- A thread calls `rt_mb_send_wait`. -/
  | send (t : T) (value : UInt32) (timeout : Int32)
  /-- A thread calls `rt_mb_recv`. -/
  | recv (t : T) (timeout : Int32)
  /-- The timer of a waiting thread expires. -/
  | timeout (t : T)
  /-- A thread that was resumed goes on with its call. -/
  | proceed (t : T)
  /-- `rt_mb_control` is called. -/
  | control (cmd : ℤ)
  /-- The priority of a thread changes. -/
  | setPriority (t : T) (p : UInt8)
  /-- The tick increases. -/
  | tick

/-- The tick that a wait stores if it has a time limit. -/
def startTick (timeout : Int32) (tickDelta now : UInt32) : UInt32 :=
  if 0 < timeout then now else tickDelta

/-- A part of `rt_mb_send_wait` has ended. -/
def afterSend (m : Machine T) (t : T) (value : UInt32) (timeout : Int32) (tickDelta : UInt32) :
    MailboxSystem T × Option RtErr → Machine T
  | (sys, some .eok) => { m with sys := sys, sent := m.sent ++ [value] }
  | (sys, some _) => { m with sys := sys }
  | (sys, none) => { m with
      sys := sys
      call := Function.update m.call t (.send value timeout (startTick timeout tickDelta m.now)) }

/-- A part of `rt_mb_recv` has ended. -/
def afterRecv (m : Machine T) (t : T) (timeout : Int32) (tickDelta : UInt32) :
    MailboxSystem T × Option (RtErr × Option UInt32) → Machine T
  | (sys, some (_, value)) => { m with sys := sys, received := m.received ++ value.toList }
  | (sys, none) => { m with
      sys := sys
      call := Function.update m.call t (.recv timeout (startTick timeout tickDelta m.now)) }

def step (m : Machine T) : Act T → Option (Machine T)
  | .send t value timeout =>
    if (m.sys.waits.thread t).phase = .running then
      some (afterSend m t value timeout 0 (rtMbSendWait m.sys t value timeout))
    else none
  | .recv t timeout =>
    if (m.sys.waits.thread t).phase = .running then
      some (afterRecv m t timeout 0 (rtMbRecv m.sys t timeout))
    else none
  | .timeout t => (m.sys.waits.timeout t).map fun w => { m with sys := { m.sys with waits := w } }
  | .proceed t =>
    match (m.sys.waits.thread t).phase with
    | .resumed _ =>
      let sys := { m.sys with waits := m.sys.waits.wake t }
      if (m.sys.waits.thread t).error ≠ .eok then some { m with sys := sys }
      else match m.call t with
        | .send value timeout tickDelta =>
          let timeout := remainingTimeout timeout tickDelta m.now
          some (afterSend m t value timeout tickDelta (sendMail sys t value timeout))
        | .recv timeout tickDelta =>
          let timeout := remainingTimeout timeout tickDelta m.now
          some (afterRecv m t timeout tickDelta (recvMail sys t timeout))
    | _ => none
  | .control cmd =>
    match rtMbControl m.sys cmd with
    | (sys, .eok) => some { m with sys := sys, sent := [], received := [] }
    | (sys, _) => some { m with sys := sys }
  | .setPriority t p =>
    some { m with sys := { m.sys with waits := m.sys.waits.setPriority t p } }
  | .tick => some { m with now := m.now + 1 }

/-- A mailbox with room for at least one mail after `rt_mb_init`, and no thread waits. -/
structure Initial (m : Machine T) : Prop where
  mb : ∃ msgPool size, m.sys.mb = rtMbInit msgPool size
  size : 0 < m.sys.mb.size
  running : ∀ t, (m.sys.waits.thread t).phase = .running
  suspend : ∀ o, m.sys.waits.suspend o = []
  sent : m.sent = []
  received : m.received = []

/-! ## Mailbox as a queue -/

/-- The mailbox holds the mails `q`, the oldest one first. -/
structure Represents (mb : Mailbox) (q : List UInt32) : Prop where
  holds : RingBuffer.Holds mb.size.toNat mb.msgPool mb.outOffset.toNat mb.inOffset.toNat q
  entry : mb.entry.toNat = q.length

lemma toNat_nextOffset {size offset : UInt16} (h : offset.toNat < size.toNat) :
    (nextOffset size offset).toNat = RingBuffer.next size.toNat offset.toNat := by
  have hsize := size.toNat_lt
  have hadd : (offset + 1).toNat = offset.toNat + 1 := by
    rw [UInt16.toNat_add]
    exact Nat.mod_eq_of_lt (by simp; omega)
  have hiff : offset + 1 ≥ size ↔ offset.toNat + 1 ≥ size.toNat := by
    rw [ge_iff_le, UInt16.le_iff_toNat_le, hadd]
  unfold nextOffset RingBuffer.next
  simp only [hiff]
  split
  · rfl
  · exact hadd

namespace Represents

variable {mb : Mailbox} {q : List UInt32}

lemma init {size : UInt16} (hsize : 0 < size) {msgPool : ℕ → UInt32} :
    Represents ⟨msgPool, size, 0, 0, 0⟩ [] :=
  ⟨RingBuffer.Holds.init (UInt16.lt_iff_toNat_lt.mp hsize), rfl⟩

/-- A mail that is put into a mailbox with room is the last one of the queue. -/
lemma put (h : Represents mb q) (hroom : mb.entry ≠ mb.size) (value : UInt32) :
    Represents (mb.put value) (q ++ [value]) := by
  have hentry := h.entry
  have hsize := mb.size.toNat_lt
  have hlt : q.length < mb.size.toNat := by
    refine lt_of_le_of_ne h.holds.length_le fun heq => hroom (UInt16.toNat_inj.mp ?_)
    rw [hentry, heq]
  constructor
  · simp only [Mailbox.put]
    rw [toNat_nextOffset h.holds.inp_lt]
    exact h.holds.push hlt
  · simp only [Mailbox.put]
    rw [UInt16.toNat_add, length_append, length_singleton, hentry]
    exact Nat.mod_eq_of_lt (by simp; omega)

/-- The mail that is taken out of a mailbox is the first one of the queue. -/
lemma get (h : Represents mb q) (hsome : mb.entry ≠ 0) :
    ∃ q', q = mb.next :: q' ∧ Represents mb.get q' := by
  have hentry := h.entry
  cases q with
  | nil => exact absurd (UInt16.toNat_inj.mp hentry) hsome
  | cons x q =>
    obtain ⟨hcell, hrest⟩ := h.holds.pop
    refine ⟨q, ?_, ?_, ?_⟩
    · rw [Mailbox.next, hcell]
    · simp only [Mailbox.get]
      rw [toNat_nextOffset h.holds.out_lt]
      exact hrest
    · simp only [Mailbox.get]
      rw [length_cons] at hentry
      have hone : (1 : UInt16) ≤ mb.entry := by
        rw [UInt16.le_iff_toNat_le, hentry]
        simp
      rw [UInt16.toNat_sub_of_le _ _ hone, hentry]
      rfl

end Represents

/-! ## Runs -/

variable {m m' : Machine T}

/-- The mailbox holds the mails that were sent and not received yet. -/
def Inv (m : Machine T) : Prop :=
  ∃ q, m.sent = m.received ++ q ∧ Represents m.sys.mb q

namespace Inv

variable (h : Inv m)

include h

omit [DecidableEq T] in
lemma of_same (hmb : m'.sys.mb = m.sys.mb) (hsent : m'.sent = m.sent)
    (hreceived : m'.received = m.received) : Inv m' := by
  obtain ⟨q, hq, hrep⟩ := h
  exact ⟨q, by rw [hsent, hreceived, hq], by rwa [hmb]⟩

/-- `rt_mb_send_wait` puts its mail into the mailbox if it returns `RT_EOK`. -/
lemma sendMail (hs : s.mb = m.sys.mb) (t : T) (value : UInt32)
    (timeout : Int32) (tickDelta : UInt32) :
    Inv (afterSend m t value timeout tickDelta (sendMail s t value timeout)) := by
  unfold Ipc.sendMail
  split
  case isTrue hfull =>
    split
    · exact h.of_same hs rfl rfl
    · exact h.of_same hs rfl rfl
  case isFalse hroom =>
    obtain ⟨q, hq, hrep⟩ := h
    rw [hs] at hroom ⊢
    refine ⟨q ++ [value], ?_, hrep.put hroom value⟩
    rw [afterSend, hq, append_assoc]

/-- `rt_mb_recv` takes the oldest mail if it returns `RT_EOK`. -/
lemma recvMail (hs : s.mb = m.sys.mb) (t : T) (timeout : Int32) (tickDelta : UInt32) :
    Inv (afterRecv m t timeout tickDelta (recvMail s t timeout)) := by
  unfold Ipc.recvMail
  split
  case isTrue hempty =>
    split
    · exact h.of_same hs rfl (by simp [afterRecv])
    · exact h.of_same hs rfl rfl
  case isFalse hsome =>
    obtain ⟨q, hq, hrep⟩ := h
    rw [hs] at hsome ⊢
    obtain ⟨q', hcons, hrest⟩ := hrep.get hsome
    refine ⟨q', ?_, hrest⟩
    rw [afterRecv, hq, hcons, toList_some, append_assoc, singleton_append]

omit [DecidableEq T] in
lemma reset {w : Waits T MbList} : Inv { m with
      sys := ⟨w, { m.sys.mb with entry := 0, inOffset := 0, outOffset := 0 }⟩
      sent := []
      received := [] } := by
  obtain ⟨q, -, hrep⟩ := h
  refine ⟨[], rfl, Represents.init ?_⟩
  rw [UInt16.lt_iff_toNat_lt]
  exact Nat.zero_lt_of_lt hrep.holds.out_lt

lemma step {a : Act T} (hok : step m a = some m') : Inv m' := by
  cases a with
  | send t value timeout =>
    simp only [Mailbox.step] at hok
    split at hok
    case isFalse => cases hok
    case isTrue =>
      obtain rfl := some.inj hok
      unfold rtMbSendWait
      split
      · exact h.of_same rfl rfl rfl
      · exact h.sendMail rfl t value timeout 0
  | recv t timeout =>
    simp only [Mailbox.step] at hok
    split at hok
    case isFalse => cases hok
    case isTrue =>
      obtain rfl := some.inj hok
      unfold rtMbRecv
      split
      · exact h.of_same rfl rfl (by simp [afterRecv])
      · exact h.recvMail rfl t timeout 0
  | timeout t =>
    obtain ⟨w, -, rfl⟩ := map_eq_some_iff.mp hok
    exact h.of_same rfl rfl rfl
  | proceed t =>
    simp only [Mailbox.step] at hok
    split at hok
    case h_2 => cases hok
    case h_1 =>
      split at hok
      case isTrue =>
        -- the wait failed
        obtain rfl := some.inj hok
        exact h.of_same rfl rfl rfl
      case isFalse =>
        -- the mailbox is tested again
        split at hok
        case h_1 value timeout tickDelta _ =>
          obtain rfl := some.inj hok
          exact h.sendMail (s := { m.sys with waits := m.sys.waits.wake t }) rfl t value _ tickDelta
        case h_2 timeout tickDelta _ =>
          obtain rfl := some.inj hok
          exact h.recvMail (s := { m.sys with waits := m.sys.waits.wake t }) rfl t _ tickDelta
  | control cmd =>
    simp only [Mailbox.step, rtMbControl] at hok
    split at hok
    case h_1 sys heq =>
      obtain rfl := some.inj hok
      split at heq
      case isTrue =>
        obtain ⟨rfl, -⟩ := Prod.mk.inj heq
        exact h.reset
      case isFalse => cases heq
    case h_2 sys e hne heq =>
      obtain rfl := some.inj hok
      split at heq
      case isTrue =>
        obtain ⟨-, rfl⟩ := Prod.mk.inj heq
        exact absurd rfl hne
      case isFalse =>
        obtain ⟨rfl, -⟩ := Prod.mk.inj heq
        exact h
  | setPriority t p =>
    obtain rfl := some.inj hok
    exact h.of_same rfl rfl rfl
  | tick =>
    obtain rfl := some.inj hok
    exact h.of_same rfl rfl rfl

end Inv

/-- The mailbox is a bounded queue: the mails are received in the order in which they were sent, and
the mailbox holds the rest. -/
structure BoundedFifo (m : Machine T) : Prop where
  order : m.received <+: m.sent
  entry : m.sys.mb.entry.toNat = m.sent.length - m.received.length
  le_size : m.sys.mb.entry ≤ m.sys.mb.size
  offsets : ((m.sys.mb.inOffset.toNat : ℤ) - m.sys.mb.outOffset.toNat) % m.sys.mb.size.toNat =
    (m.sys.mb.entry.toNat : ℤ) % m.sys.mb.size.toNat

/-- In every run of sends, receives and timeouts the mailbox is a bounded queue. -/
theorem boundedFifo_of_reach (hm : Reach Initial step (fun _ _ => True) m) : BoundedFifo m := by
  have hinv : Inv m := by
    apply hm.invariant (I := Inv)
    · intro m hinit
      obtain ⟨msgPool, size, hmb⟩ := hinit.mb
      have hsize := hinit.size
      rw [hmb] at hsize
      refine ⟨[], by rw [hinit.sent, hinit.received, append_nil], ?_⟩
      rw [hmb]
      exact Represents.init hsize
    · intro m a m' h _ hok
      exact h.step hok
  obtain ⟨q, hq, hrep⟩ := hinv
  exact {
    order := ⟨q, hq.symm⟩
    entry := by
      rw [hq, length_append, hrep.entry]
      omega
    le_size := by
      rw [UInt16.le_iff_toNat_le, hrep.entry]
      exact hrep.holds.length_le
    offsets := by
      rw [hrep.entry]
      exact hrep.holds.sub_mod }

/-- A mailbox for one mail. The second sender waits; a receive resumes it, but the first sender comes
before it, and it has to wait again. -/
theorem boundedFifo_overtaken : ∃ m : Machine Bool,
    m.sent = [1, 3] ∧ m.received = [1] ∧ m.sys.waits.suspend .senders = [true] ∧ BoundedFifo m := by
  obtain ⟨m, hreach, hsent, hreceived, hlist⟩ : ∃ m : Machine Bool,
      Reach Initial step (fun _ _ => True) m ∧ m.sent = [1, 3] ∧ m.received = [1] ∧
        m.sys.waits.suspend .senders = [true] :=
    exists_of_free_run (s := ⟨⟨⟨fun _ => ⟨20, .eok, .running⟩, fun _ => [], fun _ => .fifo⟩,
        rtMbInit (fun _ => 0) 1⟩, 0, fun _ => .recv 0 0, [], []⟩)
      ⟨⟨_, _, rfl⟩, by decide, fun _ => rfl, fun _ => rfl, rfl, rfl⟩
      [.send false 1 0, .send true 2 100, .recv false 0, .tick, .send false 3 0, .proceed true]
      (by decide +kernel)
  exact ⟨m, hsent, hreceived, hlist, boundedFifo_of_reach hreach⟩

end Mailbox

end Ipc
