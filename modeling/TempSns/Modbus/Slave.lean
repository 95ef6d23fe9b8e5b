import TempSns.Calib.Holding
import TempSns.Lib.RingBuffer
import TempSns.Modbus.Crc

/-!
# The Modbus slave

Embedding of the slave of FreeModbus with the functions that `mbconfig.h` enables: `mbrtu.c`,
`eMBPoll` of `mb.c`, `mbfuncholding.c` and the port. The machine has one step for each byte that
arrives, for the timer, for a poll and for each call of `xMBRTUTransmitFSM`. The last one enables
the receiver before it sets `eSndState`, so a byte can arrive between the two (`Quiet` excludes it).

The two sides of the line are related by `sealed`: it is what a slave sends, and what a receiver
accepts. What the slave does to the device is a run of the machine of the registers and the flash.
-/

namespace Modbus

open Calib Function List RingBuffer Transition

/-- `eMBException`. -/
inductive Exc where
  /-- `MB_EX_NONE`. -/
  | none
  | illegalFunction
  | illegalDataAddress
  | illegalDataValue
  deriving DecidableEq, Repr

/-! ## Functions -/

/-- The exception for an error of a register callback. -/
def prveMBError2Exception : ErrorCode → Exc
  | .enoerr => .none
  | .enoreg => .illegalDataAddress

/-- What a function makes of a request: the exception, the frame, its length and the device. -/
abbrev Result := Exc × Buffer × ℕ × Device

variable (hal : Hal)

/-- The common part of the functions that read. -/
def readReply (code : UInt8) (usRegAddress usRegCount : UInt16) (frame : Buffer) (dev : Device) :
    Result :=
  let frame := update (update frame 0 code) 1 (usRegCount * 2).toUInt8
  let (eRegStatus, buf, dev) :=
    eMBRegHoldingCB hal (fun i => frame (2 + i)) usRegAddress usRegCount .read dev
  (prveMBError2Exception eRegStatus, fun i => if i < 2 then frame i else buf (i - 2),
    if eRegStatus = .enoerr then 2 + usRegCount.toNat * 2 else 2, dev)

/-- `MB_FUNC_READ_HOLDING_REGISTER`. -/
def eMBFuncReadHoldingRegister (frame : Buffer) (usLen : ℕ) (dev : Device) : Result :=
  let usRegCount := regValue frame 3
  if usLen = 4 + 1 ∧ usRegCount ≥ 1 ∧ usRegCount ≤ 0x7D then
    readReply hal 3 (regValue frame 1 + 1) usRegCount frame dev
  else (.illegalDataValue, frame, usLen, dev)

/-- `MB_FUNC_WRITE_REGISTER`. The reply is the request. -/
def eMBFuncWriteHoldingRegister (frame : Buffer) (usLen : ℕ) (dev : Device) : Result :=
  if usLen = 4 + 1 then
    let (eRegStatus, _, dev) :=
      eMBRegHoldingCB hal (fun i => frame (3 + i)) (regValue frame 1 + 1) 1 .write dev
    (prveMBError2Exception eRegStatus, frame, usLen, dev)
  else (.illegalDataValue, frame, usLen, dev)

/-- `MB_FUNC_READWRITE_MULTIPLE_REGISTERS`. The write comes first, and stays if the read fails. -/
def eMBFuncReadWriteMultipleHoldingRegister (frame : Buffer) (usLen : ℕ) (dev : Device) : Result :=
  let usRegReadCount := regValue frame 3
  let usRegWriteCount := regValue frame 7
  -- a request that is too short is no exception
  if usLen < 9 + 1 then (.none, frame, usLen, dev)
  else if usRegReadCount ≥ 1 ∧ usRegReadCount ≤ 0x7D ∧ usRegWriteCount ≥ 1 ∧
      usRegWriteCount ≤ 0x79 ∧ 2 * usRegWriteCount.toNat = (frame 9).toNat then
    let (eRegStatus, _, dev) :=
      eMBRegHoldingCB hal (fun i => frame (10 + i)) (regValue frame 5 + 1) usRegWriteCount .write
        dev
    match eRegStatus with
    | .enoerr => readReply hal 0x17 (regValue frame 1 + 1) usRegReadCount frame dev
    | .enoreg => (prveMBError2Exception .enoreg, frame, usLen, dev)
  else (.illegalDataValue, frame, usLen, dev)

/-- The search in `xFuncHandlers`. -/
def handle (frame : Buffer) (usLen : ℕ) (dev : Device) : Result :=
  if frame 0 = 3 then eMBFuncReadHoldingRegister hal frame usLen dev
  else if frame 0 = 6 then eMBFuncWriteHoldingRegister hal frame usLen dev
  else if frame 0 = 0x17 then eMBFuncReadWriteMultipleHoldingRegister hal frame usLen dev
  else (.illegalFunction, frame, usLen, dev)

/-- The reply to a request that is not a broadcast. -/
def execute (frame : Buffer) (usLen : ℕ) (dev : Device) : Buffer × ℕ × Device :=
  let r := handle hal frame usLen dev
  if r.1 = .none then r.2
  -- build an error frame
  else (update (update r.2.1 0 (frame 0 ||| 0x80)) 1 (.ofNat r.1.ctorIdx), 2, r.2.2.2)

/-! ## Serial line -/

/-- `eMBRcvState`. -/
inductive RcvState where
  /-- Waits for the first pause. -/
  | init
  | idle
  /-- Inside a frame. -/
  | rcv
  /-- The frame is too long, and is dropped. -/
  | error
  deriving DecidableEq, Repr

/-- `eMBSndState`. -/
inductive SndState where
  | idle
  | xmit
  deriving DecidableEq, Repr

/-- The flags of `xSlaveOsEvent`. -/
structure Events where
  /-- `EV_READY`. -/
  ready : Bool
  /-- `EV_FRAME_RECEIVED`. -/
  frameReceived : Bool
  /-- `EV_EXECUTE`. -/
  execute : Bool
  /-- `EV_FRAME_SENT`. -/
  frameSent : Bool
  deriving DecidableEq, Repr

/-- The static variables of `mbrtu.c` and `eMBPoll`, and the port. -/
structure Slave where
  eRcvState : RcvState
  eSndState : SndState
  /-- `ucRTUBuf`, and the memory behind it. -/
  ucRTUBuf : Buffer
  /-- The number of bytes received. -/
  usRcvBufferPos : ℕ
  /-- `pucSndBufferCur`, as an index. -/
  sndBufferCur : ℕ
  /-- The number of bytes to be sent. -/
  usSndBufferCount : ℕ
  /-- The timer of the pause runs. -/
  timer : Bool
  /-- The receive interrupt is enabled. -/
  rx : Bool
  /-- `EVENT_SERIAL_TRANS_START`. -/
  tx : Bool
  /-- `xSlaveOsEvent`. -/
  events : Events
  /-- The address of the request. -/
  ucRcvAddress : UInt8
  /-- The length of the PDU. -/
  usLength : ℕ
  /-- The registers and the flash page. -/
  dev : Device
  /-- The bytes on the line. -/
  sent : List UInt8
  /-- An assertion has failed. -/
  failed : Bool

/-- No flag is set. -/
def noEvents : Events := ⟨false, false, false, false⟩

/-- The receive interrupt. -/
def xMBRTUReceiveFSM (s : Slave) (ucByte : UInt8) : Slave :=
  let s := { s with failed := s.failed || s.eSndState != SndState.idle, timer := true }
  match s.eRcvState with
  | .init | .error => s
  | .idle =>
    { s with ucRTUBuf := update s.ucRTUBuf 0 ucByte, usRcvBufferPos := 1, eRcvState := .rcv }
  | .rcv =>
    if s.usRcvBufferPos < 60 then
      { s with
        ucRTUBuf := update s.ucRTUBuf s.usRcvBufferPos ucByte
        usRcvBufferPos := s.usRcvBufferPos + 1 }
    else { s with eRcvState := .error }

/-- The pause that ends a frame. -/
def xMBRTUTimerT35Expired (s : Slave) : Slave :=
  let s' := { s with timer := false, eRcvState := .idle }
  match s.eRcvState with
  | .init => { s' with events.ready := true }
  | .rcv => { s' with events.frameReceived := true }
  | .error => s'
  | .idle => { s' with failed := true }

/-- `xMBRTUTransmitFSM`, but for the last assignment to `eSndState`. -/
def xMBRTUTransmitFSM (s : Slave) : Slave :=
  let s := { s with failed := s.failed || s.eRcvState != RcvState.idle }
  if s.eSndState = .idle then { s with rx := true, tx := false }
  else if s.usSndBufferCount ≠ 0 then
    { s with
      sent := s.sent ++ [s.ucRTUBuf s.sndBufferCur]
      sndBufferCur := s.sndBufferCur + 1
      usSndBufferCount := s.usSndBufferCount - 1 }
  else { s with events.frameSent := true, rx := true, tx := false }

/-- `eMBRTUReceive`: the address and the length of the PDU. -/
def eMBRTUReceive (s : Slave) : Option (UInt8 × ℕ) :=
  if 4 ≤ s.usRcvBufferPos ∧ usMBCRC16 (slice s.ucRTUBuf 0 s.usRcvBufferPos) = (0, 0) then
    some (s.ucRTUBuf 0, s.usRcvBufferPos - 1 - 2)
  else none

/-- `eMBRTUSend` for the PDU in `ucRTUBuf`. -/
def eMBRTUSend (s : Slave) (ucSlaveAddress : UInt8) (usLength : ℕ) : Slave :=
  if s.eRcvState = .idle then
    let buf := update s.ucRTUBuf 0 ucSlaveAddress
    let usCRC16 := usMBCRC16 (slice buf 0 (1 + usLength))
    { s with
      ucRTUBuf := update (update buf (1 + usLength) usCRC16.2) (2 + usLength) usCRC16.1
      sndBufferCur := 0
      usSndBufferCount := 3 + usLength
      eSndState := .xmit
      rx := false
      tx := true }
  else s

/-- `eMBPoll`. There is no step if no event is set, or several: `eEvent` is then not assigned. -/
def eMBPoll (ucMBAddress : UInt8) (s : Slave) : Option Slave :=
  let s' := { s with events := noEvents }
  if s.events = { noEvents with frameReceived := true } then
    match eMBRTUReceive s with
    | some (ucRcvAddress, usLength) => some { s' with
        ucRcvAddress := ucRcvAddress
        usLength := usLength
        events.execute := ucRcvAddress = ucMBAddress ∨ ucRcvAddress = 0 }
    | none => some s'
  else if s.events = { noEvents with execute := true } then
    let pdu : Buffer := fun i => s.ucRTUBuf (1 + i)
    -- no reply to a broadcast
    let (frame, usLength, dev) := if s.ucRcvAddress ≠ 0 then execute hal pdu s.usLength s.dev
      else (handle hal pdu s.usLength s.dev).2
    let s' := { s' with
      ucRTUBuf := fun i => if i = 0 then s.ucRTUBuf 0 else frame (i - 1)
      usLength := usLength
      dev := dev }
    some (if s.ucRcvAddress ≠ 0 then eMBRTUSend s' ucMBAddress usLength else s')
  else if s.events = { noEvents with ready := true } ∨
      s.events = { noEvents with frameSent := true } then some s'
  else none

/-- The steps of the slave. A poll is one step: no interrupt comes in the middle of `EV_EXECUTE`. -/
inductive Act where
  /-- A byte arrives. -/
  | byte (ucByte : UInt8)
  /-- The timer expires. -/
  | expired
  /-- A call of `eMBPoll`. -/
  | poll
  /-- A call of `xMBRTUTransmitFSM`. -/
  | transmit
  /-- The assignment `eSndState = STATE_TX_IDLE`. -/
  | txIdle

/-- A step, if it can be taken. -/
def step (ucMBAddress : UInt8) (s : Slave) : Act → Option Slave
  | .byte ucByte => if s.rx then some (xMBRTUReceiveFSM s ucByte) else none
  | .expired => if s.timer then some (xMBRTUTimerT35Expired s) else none
  | .poll => eMBPoll hal ucMBAddress s
  | .transmit => if s.tx then some (xMBRTUTransmitFSM s) else none
  | .txIdle =>
    if s.eSndState = .xmit ∧ s.tx = false then some { s with eSndState := .idle } else none

/-- No byte arrives before `eSndState` is set. -/
def Quiet (s : Slave) : Act → Prop
  | .byte _ => s.eSndState = .idle
  | _ => True

instance (s : Slave) : DecidablePred (Quiet s)
  | .byte _ => inferInstanceAs (Decidable (s.eSndState = .idle))
  | .expired | .poll | .transmit | .txIdle => inferInstanceAs (Decidable True)

/-- The positions are in the buffer, and receiving and sending exclude each other. -/
structure Inv (mem : Buffer) (s : Slave) : Prop where
  failed : s.failed = false
  pos : s.usRcvBufferPos ≤ 60
  length : s.usLength ≤ 57
  /-- The memory behind the buffer is unchanged. -/
  behind : ∀ i, 60 ≤ i → s.ucRTUBuf i = mem i
  /-- The timer runs only inside a frame. -/
  timer : s.timer = true → s.eRcvState ≠ .idle
  /-- What is left to be sent lies in the buffer. -/
  tx : s.tx = true → s.eSndState = .xmit ∧ s.sndBufferCur + s.usSndBufferCount ≤ 60
  /-- While a frame is sent, none is received and no request is executed. -/
  xmit : s.eSndState = .xmit → s.eRcvState = .idle ∧ (s.tx = true → s.rx = false) ∧
    (s.events = noEvents ∨ s.events = { noEvents with frameSent := true })

variable {hal} {mem : Buffer} {s s' : Slave} {ucMBAddress : UInt8}

/-- The reply of a function that reads: a register has two bytes, the high one first. -/
lemma readReply_eq (code : UInt8) (usRegAddress usRegCount : UInt16) (frame : Buffer)
    (dev : Device) :
    readReply hal code usRegAddress usRegCount frame dev =
      if (usRegAddress - 1).toNat + usRegCount.toNat ≤ 12 then
        (.none, fun i => if i = 0 then code else if i = 1 then (usRegCount * 2).toUInt8
          else if i < 2 + usRegCount.toNat * 2 then
            regByte (dev.regs ((usRegAddress - 1).toNat + (i - 2) / 2)) (i - 2)
          else frame i, 2 + usRegCount.toNat * 2, dev)
      else
        (.illegalDataAddress, update (update frame 0 code) 1 (usRegCount * 2).toUInt8, 2, dev) := by
  by_cases hle : (usRegAddress - 1).toNat + usRegCount.toNat ≤ 12
  · simp only [readReply, eMBRegHoldingCB_eq, if_pos hle, prveMBError2Exception, if_true,
      Prod.mk.injEq, true_and, and_true]
    funext i
    rw [readRegs_apply hle]
    rcases i with _ | _ | i
    · rfl
    · rfl
    · simp [Nat.mul_comm]
      grind
  · simp only [readReply, eMBRegHoldingCB_eq, if_neg hle, prveMBError2Exception,
      Prod.mk.injEq, true_and, and_true]
    simp
    funext i
    grind

/-- The PDU fits in the buffer, and nothing is written behind it. -/
def Bounded (frame : Buffer) (r : Result) : Prop :=
  r.2.2.1 ≤ 57 ∧ ∀ i, 59 ≤ i → r.2.1 i = frame i

lemma bounded_readReply (code : UInt8) (usRegAddress usRegCount : UInt16) (frame : Buffer)
    (dev : Device) : Bounded frame (readReply hal code usRegAddress usRegCount frame dev) := by
  rw [readReply_eq]
  split
  case isTrue hle =>
    refine ⟨show 2 + usRegCount.toNat * 2 ≤ 57 by omega, fun i hi => ?_⟩
    simp only
    rw [if_neg (by omega), if_neg (by omega), if_neg (by omega)]
  case isFalse =>
    refine ⟨show 2 ≤ 57 by omega, fun i hi => ?_⟩
    simp only
    rw [update_of_ne (by omega), update_of_ne (by omega)]

lemma bounded_handle (hal : Hal) (frame : Buffer) {usLen : ℕ} (hlen : usLen ≤ 57) (dev : Device) :
    Bounded frame (handle hal frame usLen dev) := by
  have hsame : ∀ e dev, Bounded frame (e, frame, usLen, dev) := fun _ _ => ⟨hlen, fun _ _ => rfl⟩
  have hread : ∀ code a n dev, Bounded frame (readReply hal code a n frame dev) :=
    fun code a n dev => bounded_readReply code a n frame dev
  unfold handle eMBFuncReadHoldingRegister eMBFuncWriteHoldingRegister
    eMBFuncReadWriteMultipleHoldingRegister
  grind

lemma execute_bounds (hal : Hal) (frame : Buffer) {usLen : ℕ} (hlen : usLen ≤ 57) (dev : Device) :
    (execute hal frame usLen dev).2.1 ≤ 57 ∧
      ∀ i, 59 ≤ i → (execute hal frame usLen dev).1 i = frame i := by
  have hbounded := bounded_handle hal frame hlen dev
  unfold execute
  simp only
  split
  · exact hbounded
  · refine ⟨show 2 ≤ 57 by omega, fun i hi => ?_⟩
    simp only
    rw [update_of_ne (by omega), update_of_ne (by omega)]
    exact hbounded.2 i hi

/-! ## Safety -/

lemma Inv.byte (h : Inv mem s) (hidle : s.eSndState = .idle) (ucByte : UInt8) :
    Inv mem (xMBRTUReceiveFSM s ucByte) := by
  have hfailed : (s.failed || s.eSndState != SndState.idle) = false := by simp [h.failed, hidle]
  have hwrite : ∀ k < 60, ∀ i, 60 ≤ i → update s.ucRTUBuf k ucByte i = mem i := by
    intro k hk i hi
    rw [update_of_ne (by omega)]
    exact h.behind i hi
  unfold xMBRTUReceiveFSM
  simp only
  cases hstate : s.eRcvState with
  | init | error =>
    exact ⟨hfailed, h.pos, h.length, h.behind, fun _ => nofun, h.tx,
      fun hx => nomatch hidle.symm.trans hx⟩
  | idle =>
    exact ⟨hfailed, show 1 ≤ 60 by omega, h.length, hwrite 0 (by omega), fun _ => nofun, h.tx,
      fun hx => nomatch hidle.symm.trans hx⟩
  | rcv =>
    simp only
    split
    case isTrue hlt =>
      exact ⟨hfailed, hlt, h.length, hwrite _ hlt, fun _ => nofun, h.tx,
        fun hx => nomatch hidle.symm.trans hx⟩
    case isFalse =>
      exact ⟨hfailed, h.pos, h.length, h.behind, fun _ => nofun, h.tx,
        fun hx => nomatch hidle.symm.trans hx⟩

lemma Inv.expired (h : Inv mem s) (ht : s.timer = true) : Inv mem (xMBRTUTimerT35Expired s) := by
  -- the timer does not run while a frame is sent
  have hne := h.timer ht
  have hnot : ¬ s.eSndState = .xmit := fun hx => hne (h.xmit hx).1
  unfold xMBRTUTimerT35Expired
  cases hstate : s.eRcvState with
  | idle => exact absurd hstate hne
  | init | rcv | error =>
    exact ⟨h.failed, h.pos, h.length, h.behind, nofun, h.tx, fun hx => absurd hx hnot⟩

lemma Inv.transmit (h : Inv mem s) (ht : s.tx = true) : Inv mem (xMBRTUTransmitFSM s) := by
  obtain ⟨hx, hsum⟩ := h.tx ht
  obtain ⟨hidle, hrx, hevents⟩ := h.xmit hx
  have hfailed : (s.failed || s.eRcvState != RcvState.idle) = false := by simp [h.failed, hidle]
  unfold xMBRTUTransmitFSM
  simp only [hx]
  rw [if_neg (by decide)]
  split
  case isTrue hcount =>
    refine ⟨hfailed, h.pos, h.length, h.behind, h.timer, fun _ => ⟨rfl, ?_⟩, fun _ => h.xmit hx⟩
    show s.sndBufferCur + 1 + (s.usSndBufferCount - 1) ≤ 60
    omega
  case isFalse =>
    refine ⟨hfailed, h.pos, h.length, h.behind, h.timer, nofun, fun _ => ⟨hidle, nofun, .inr ?_⟩⟩
    rcases hevents with hevents | hevents <;> simp [hevents, noEvents]

lemma Inv.send (h : Inv mem s) (hevents : s.events = noEvents)
    {usLength : ℕ} (hlen : usLength ≤ 57) : Inv mem (eMBRTUSend s ucMBAddress usLength) := by
  unfold eMBRTUSend
  split
  case isTrue hidle =>
    refine ⟨h.failed, h.pos, h.length, fun i hi => ?_, h.timer, fun _ => ⟨rfl, ?_⟩,
      fun _ => ⟨hidle, fun _ => rfl, .inl hevents⟩⟩
    · simp only
      rw [update_of_ne (by omega), update_of_ne (by omega), update_of_ne (by omega)]
      exact h.behind i hi
    · show 0 + (3 + usLength) ≤ 60
      omega
  case isFalse => exact h

/-- Between two frames the events are handled and the state of the port stays as it is. -/
lemma Inv.setEvents (h : Inv mem s) (hx : s.eSndState ≠ .xmit) (events : Events) :
    Inv mem { s with events := events } :=
  ⟨h.failed, h.pos, h.length, h.behind, h.timer, h.tx, fun hxmit => absurd hxmit hx⟩

lemma Inv.poll (h : Inv mem s) (hstep : eMBPoll hal ucMBAddress s = some s') : Inv mem s' := by
  unfold eMBPoll at hstep
  simp only at hstep
  split at hstep
  case isTrue hevents =>
    -- while a frame is sent, no other one is received
    have hx : s.eSndState ≠ .xmit := fun hx => by simpa [hevents, noEvents] using (h.xmit hx).2.2
    split at hstep
    case h_1 ucRcvAddress usLength hreceive =>
      obtain rfl := Option.some.inj hstep
      have hlen : usLength ≤ 57 := by
        unfold eMBRTUReceive at hreceive
        split at hreceive
        · obtain ⟨-, rfl⟩ := Prod.mk.inj (Option.some.inj hreceive)
          have := h.pos
          omega
        · cases hreceive
      exact { h.setEvents hx _ with length := hlen }
    case h_2 =>
      obtain rfl := Option.some.inj hstep
      exact h.setEvents hx noEvents
  case isFalse =>
    split at hstep
    case isTrue hevents =>
      have hx : s.eSndState ≠ .xmit := fun hx => by simpa [hevents, noEvents] using (h.xmit hx).2.2
      obtain rfl := Option.some.inj hstep
      generalize hr : (if s.ucRcvAddress ≠ 0 then
        execute hal (fun i => s.ucRTUBuf (1 + i)) s.usLength s.dev
        else (handle hal (fun i => s.ucRTUBuf (1 + i)) s.usLength s.dev).2) = r
      obtain ⟨hlen, hkeep⟩ : r.2.1 ≤ 57 ∧ ∀ i, 59 ≤ i → r.1 i = s.ucRTUBuf (1 + i) := by
        rw [← hr]
        split
        · exact execute_bounds hal _ h.length s.dev
        · exact bounded_handle hal _ h.length s.dev
      have hbehind : ∀ i, 60 ≤ i → (if i = 0 then s.ucRTUBuf 0 else r.1 (i - 1)) = mem i := by
        intro i hi
        have hback : 1 + (i - 1) = i := by omega
        rw [if_neg (by omega), hkeep (i - 1) (by omega), hback]
        exact h.behind i hi
      have hnext : Inv mem { s with
          events := noEvents
          ucRTUBuf := fun i => if i = 0 then s.ucRTUBuf 0 else r.1 (i - 1)
          usLength := r.2.1
          dev := r.2.2 } := { h.setEvents hx noEvents with length := hlen, behind := hbehind }
      split
      · exact hnext.send rfl hlen
      · exact hnext
    case isFalse =>
      split at hstep
      · obtain rfl := Option.some.inj hstep
        exact { h with xmit := fun hx => ⟨(h.xmit hx).1, (h.xmit hx).2.1, .inl rfl⟩ }
      · cases hstep

/-- The state after `eMBEnable`, with any content of the memory. -/
def enabled (mem : Buffer) (dev : Device) : Slave :=
  ⟨.init, .idle, mem, 0, 0, 0, true, true, false, noEvents, 0, 0, dev, [], false⟩

lemma inv_of_reach {dev : Device}
    (h : Reach (Eq (enabled mem dev)) (step hal ucMBAddress) Quiet s) : Inv mem s := by
  refine h.invariant (I := Inv mem) ?_ ?_
  · rintro s rfl
    constructor <;> simp [enabled]
  · intro s act s' hs hquiet hstep
    cases act with
    | byte ucByte =>
      obtain ⟨-, rfl⟩ : s.rx = true ∧ xMBRTUReceiveFSM s ucByte = s' := by
        simpa [step] using hstep
      exact hs.byte hquiet ucByte
    | expired =>
      obtain ⟨ht, rfl⟩ : s.timer = true ∧ xMBRTUTimerT35Expired s = s' := by
        simpa [step] using hstep
      exact hs.expired ht
    | poll => exact hs.poll hstep
    | transmit =>
      obtain ⟨ht, rfl⟩ : s.tx = true ∧ xMBRTUTransmitFSM s = s' := by simpa [step] using hstep
      exact hs.transmit ht
    | txIdle =>
      obtain ⟨⟨-, hoff⟩, rfl⟩ : (s.eSndState = .xmit ∧ s.tx = false) ∧
          { s with eSndState := .idle } = s' := by
        simpa [step] using hstep
      exact { hs with tx := fun ht => absurd (hoff.symm.trans ht) nofun, xmit := nofun }

/-- If no byte arrives before `eSndState` is set, no assertion fails, and no byte behind `ucRTUBuf`
is written or sent. -/
theorem slave_safe (hal : Hal) (ucMBAddress : UInt8) (mem : Buffer) (dev : Device)
    (h : Reach (Eq (enabled mem dev)) (step hal ucMBAddress) Quiet s) :
    s.failed = false ∧ s.usRcvBufferPos ≤ 60 ∧ (∀ i, 60 ≤ i → s.ucRTUBuf i = mem i) ∧
      (s.tx = true → s.sndBufferCur + s.usSndBufferCount ≤ 60) := by
  have hinv := inv_of_reach h
  exact ⟨hinv.failed, hinv.pos, hinv.behind, fun ht => (hinv.tx ht).2⟩

/-- The slave 1 answers a request for its first register. -/
def answer : List Act :=
  .expired :: .poll :: ([1, 3, 0, 0, 0, 1, 0x84, 0x0A].map .byte ++ [.expired, .poll, .poll] ++
    replicate 8 .transmit)

lemma reach_answer : ∃ s, Reach (Eq (enabled (fun _ => 0) ⟨erased, fun _ => 0⟩))
    (step Hal.allOk 1) Quiet s ∧ s.sent.length = 7 :=
  exists_of_run (fun _ _ => of_decide_eq_true) rfl (answer ++ [.txIdle, .poll]) (by decide)

theorem slave_safe_answer : ∃ s : Slave, s.sent.length = 7 ∧ s.failed = false ∧
    s.usRcvBufferPos ≤ 60 ∧ (∀ i, 60 ≤ i → s.ucRTUBuf i = 0) ∧
      (s.tx = true → s.sndBufferCur + s.usSndBufferCount ≤ 60) := by
  obtain ⟨s, hs, hsent⟩ := reach_answer
  exact ⟨s, hsent, slave_safe Hal.allOk 1 _ _ hs⟩

/-- A byte arrives right behind the reply, before `eSndState` is set. -/
theorem exists_failed : ∃ s, Reach (Eq (enabled (fun _ => 0) ⟨erased, fun _ => 0⟩))
    (step Hal.allOk 1) (fun _ _ => True) s ∧ s.failed = true :=
  exists_of_free_run rfl (answer ++ [.byte 1]) (by decide)

/-! ## Frames on the line -/

lemma slice_succ (buf : Buffer) (k n : ℕ) :
    slice buf k (n + 1) = slice buf k n ++ [buf (k + n)] := by
  simp [slice, range_succ]

lemma slice_cons (buf : Buffer) (k n : ℕ) : slice buf k (n + 1) = buf k :: slice buf (k + 1) n := by
  simp [slice, range_succ_eq_map, Nat.add_assoc, Nat.add_comm 1]

lemma slice_congr {buf buf' : Buffer} {k n : ℕ} (h : ∀ i, k ≤ i → i < k + n → buf i = buf' i) :
    slice buf k n = slice buf' k n :=
  map_congr_left fun i hi => h (k + i) (by omega) (by have := mem_range.mp hi; omega)

/-- The receiver has taken in the bytes `bs` of a frame. -/
structure Received (s : Slave) (bs : List UInt8) : Prop where
  state : s.eRcvState = .rcv
  pos : s.usRcvBufferPos = bs.length
  buf : slice s.ucRTUBuf 0 bs.length = bs

lemma Received.byte {bs : List UInt8} (h : Received s bs) (hlt : bs.length < 60) (b : UInt8) :
    Received (xMBRTUReceiveFSM s b) (bs ++ [b]) := by
  obtain ⟨hstate, hpos, hbuf⟩ := h
  have hkeep : slice (update s.ucRTUBuf bs.length b) 0 bs.length = bs := by
    conv_rhs => rw [← hbuf]
    exact slice_congr fun i _ hi => update_of_ne (by omega) _ _
  simp only [xMBRTUReceiveFSM, hstate, hpos, if_pos hlt]
  refine ⟨rfl, by simp, ?_⟩
  rw [length_append, length_singleton, slice_succ, hkeep]
  simp

lemma received_foldl {bs : List UInt8} (hidle : s.eRcvState = .idle) (hne : bs ≠ [])
    (hle : bs.length ≤ 60) : Received (bs.foldl xMBRTUReceiveFSM s) bs := by
  induction bs using reverseRecOn with
  | nil => exact absurd rfl hne
  | append_singleton bs b ih =>
    rw [foldl_append]
    rw [length_append, length_singleton] at hle
    cases bs with
    | nil => exact ⟨by simp [xMBRTUReceiveFSM, hidle], by simp [xMBRTUReceiveFSM, hidle],
        by simp [xMBRTUReceiveFSM, hidle, slice]⟩
    | cons b' bs => exact (ih (by simp) (by omega)).byte (by omega) b

/-- The receiver after some bytes and the pause that ends a frame. -/
def receive (s : Slave) (bs : List UInt8) : Slave :=
  xMBRTUTimerT35Expired (bs.foldl xMBRTUReceiveFSM s)

lemma receive_eq {bs : List UInt8} (hidle : s.eRcvState = .idle) (hne : bs ≠ [])
    (hle : bs.length ≤ 60) : (receive s bs).events.frameReceived = true ∧
      slice (receive s bs).ucRTUBuf 0 bs.length = bs ∧
      eMBRTUReceive (receive s bs) = if 4 ≤ bs.length ∧ usMBCRC16 bs = (0, 0) then
        some (bs.headD 0, bs.length - 1 - 2) else none := by
  obtain ⟨hstate, hpos, hbuf⟩ := received_foldl hidle hne hle
  have hhead : (bs.foldl xMBRTUReceiveFSM s).ucRTUBuf 0 = bs.headD 0 := by
    cases bs with
    | nil => exact absurd rfl hne
    | cons b bs => exact (cons.inj ((slice_cons _ 0 bs.length).symm.trans hbuf)).1
  simp only [receive, xMBRTUTimerT35Expired, hstate, eMBRTUReceive, hpos, hbuf, hhead, and_self]

/-- A message with its checksum is accepted. -/
lemma eMBRTUReceive_receive_sealed {pdu : List UInt8} (hidle : s.eRcvState = .idle)
    (hpdu : pdu ≠ []) (hle : pdu.length ≤ 57) (ucRcvAddress : UInt8) :
    eMBRTUReceive (receive s (sealed (ucRcvAddress :: pdu))) = some (ucRcvAddress, pdu.length) := by
  have hlen := length_pos_iff.mpr hpdu
  rw [(receive_eq hidle (by simp [sealed]) (by simp [sealed]; omega)).2.2,
    if_pos ⟨by simp [sealed]; omega, usMBCRC16_eq_zero_iff.mpr rfl⟩]
  simp [sealed]

/-- A frame is accepted just if it is a message of an address and a PDU with its checksum. -/
theorem eMBRTUReceive_receive_iff {bs : List UInt8} (hidle : s.eRcvState = .idle) (hne : bs ≠ [])
    (hle : bs.length ≤ 60) (ucRcvAddress : UInt8) (usLength : ℕ) :
    eMBRTUReceive (receive s bs) = some (ucRcvAddress, usLength) ↔
      ∃ pdu, pdu.length = usLength ∧ pdu ≠ [] ∧ bs = sealed (ucRcvAddress :: pdu) := by
  constructor
  · intro h
    rw [(receive_eq hidle hne hle).2.2] at h
    split at h
    case isTrue hcrc =>
      obtain ⟨hhead, hlength⟩ := Prod.mk.inj (Option.some.inj h)
      obtain ⟨b, rest, rfl⟩ := exists_cons_of_ne_nil hne
      -- the last two bytes are the checksum
      obtain ⟨x, y, hxy⟩ := length_eq_two.mp
        (show (rest.drop (rest.length - 2)).length = 2 by simp at hcrc ⊢; omega)
      have hrest : rest = rest.take (rest.length - 2) ++ [x, y] := by rw [← hxy, take_append_drop]
      refine ⟨rest.take (rest.length - 2), ?_, ?_, ?_⟩
      · simp at hlength ⊢; omega
      · apply ne_nil_of_length_pos
        simp at hcrc ⊢
        omega
      · obtain rfl : b = ucRcvAddress := hhead
        have hzero := hcrc.2
        rw [hrest, ← cons_append, usMBCRC16_eq_zero_iff] at hzero
        exact (congrArg (b :: ·) hrest).trans hzero
    case isFalse => cases h
  · rintro ⟨pdu, rfl, hpdu, rfl⟩
    exact eMBRTUReceive_receive_sealed hidle hpdu (by simp [sealed] at hle; omega) ucRcvAddress

/-- A slave whose receiver is idle, with an empty buffer. -/
def idle : Slave := xMBRTUTimerT35Expired (enabled (fun _ => 0) ⟨erased, fun _ => 0⟩)

theorem eMBRTUReceive_receive_iff_request :
    eMBRTUReceive (receive idle [1, 3, 0, 0, 0, 1, 0x84, 0x0A]) = some (1, 5) :=
  (eMBRTUReceive_receive_iff rfl (by decide) (by decide) 1 5).mpr
    ⟨[3, 0, 0, 0, 1], rfl, by decide, by decide⟩

lemma sent_iterate_transmit {n : ℕ} (hx : s.eSndState = .xmit) (hn : n ≤ s.usSndBufferCount) :
    (xMBRTUTransmitFSM^[n] s).sent = s.sent ++ slice s.ucRTUBuf s.sndBufferCur n := by
  induction n generalizing s with
  | zero => simp [slice]
  | succ n ih =>
    have hcount : s.usSndBufferCount ≠ 0 := by omega
    have hstep : xMBRTUTransmitFSM s = { s with
        failed := s.failed || s.eRcvState != RcvState.idle
        sent := s.sent ++ [s.ucRTUBuf s.sndBufferCur]
        sndBufferCur := s.sndBufferCur + 1
        usSndBufferCount := s.usSndBufferCount - 1 } := by
      simp [xMBRTUTransmitFSM, hx, hcount]
    rw [iterate_succ_apply, hstep, ih, slice_cons, append_assoc]
    · rfl
    · exact hx
    · show n ≤ s.usSndBufferCount - 1
      omega

/-- `eMBRTUSend` puts the address, the PDU and their checksum in the buffer. -/
lemma slice_eMBRTUSend (hidle : s.eRcvState = .idle) (ucSlaveAddress : UInt8) (usLength : ℕ) :
    slice (eMBRTUSend s ucSlaveAddress usLength).ucRTUBuf 0 (usLength + 3) =
      sealed (ucSlaveAddress :: slice s.ucRTUBuf 1 usLength) := by
  have hframe : slice (update s.ucRTUBuf 0 ucSlaveAddress) 0 (1 + usLength) =
      ucSlaveAddress :: slice s.ucRTUBuf 1 usLength := by
    rw [Nat.add_comm, slice_cons, update_self]
    exact congrArg _ (slice_congr fun i _ _ => update_of_ne (by omega) _ _)
  simp only [eMBRTUSend, if_pos hidle, hframe]
  -- the checksum lies behind the frame that it is computed from
  have hkeep : ∀ x y, slice (update (update (update s.ucRTUBuf 0 ucSlaveAddress) (1 + usLength) x)
      (2 + usLength) y) 0 (1 + usLength) = ucSlaveAddress :: slice s.ucRTUBuf 1 usLength := by
    intro x y
    rw [← hframe]
    apply slice_congr
    intro i _ hi
    rw [update_of_ne (by omega), update_of_ne (by omega)]
  rw [show usLength + 3 = 1 + usLength + 1 + 1 by omega, slice_succ, slice_succ, hkeep, sealed,
    show 0 + (1 + usLength + 1) = 2 + usLength by omega]
  simp

lemma sent_eMBRTUSend (hidle : s.eRcvState = .idle) (ucSlaveAddress : UInt8) (usLength : ℕ) :
    (xMBRTUTransmitFSM^[usLength + 3] (eMBRTUSend s ucSlaveAddress usLength)).sent =
      s.sent ++ sealed (ucSlaveAddress :: slice s.ucRTUBuf 1 usLength) := by
  rw [← slice_eMBRTUSend hidle, sent_iterate_transmit]
  · simp only [eMBRTUSend, if_pos hidle]
  · simp only [eMBRTUSend, if_pos hidle]
  · simp only [eMBRTUSend, if_pos hidle]
    omega

/-- What was sent, and what is still to be sent. -/
def Slave.line (s : Slave) : List UInt8 :=
  s.sent ++ if s.tx then slice s.ucRTUBuf s.sndBufferCur s.usSndBufferCount else []

lemma line_eMBRTUSend {usLength : ℕ} (htx : s.tx = false) :
    (eMBRTUSend s ucMBAddress usLength).line = s.sent ∨
      ∃ pdu, (eMBRTUSend s ucMBAddress usLength).line = s.sent ++ sealed (ucMBAddress :: pdu) := by
  by_cases hidle : s.eRcvState = .idle
  · right
    refine ⟨slice s.ucRTUBuf 1 usLength, ?_⟩
    rw [← slice_eMBRTUSend hidle]
    simp [Slave.line, eMBRTUSend, hidle, Nat.add_comm]
  · left
    simp [Slave.line, eMBRTUSend, hidle, htx]

/-- A step that adds to the line adds a frame of the slave. -/
lemma line_of_step {act : Act} (hinv : Inv mem s) (hstep : step hal ucMBAddress s act = some s') :
    s'.line = s.line ∨ ∃ pdu, s'.line = s.line ++ sealed (ucMBAddress :: pdu) := by
  have hquiet : s.tx = true → s.rx = false ∧ s.events ≠ { noEvents with execute := true } := by
    intro ht
    obtain ⟨-, hrx, hevents⟩ := hinv.xmit (hinv.tx ht).1
    refine ⟨hrx ht, fun he => ?_⟩
    simp [he, noEvents] at hevents
  cases act with
  | byte ucByte =>
    left
    simp only [step, xMBRTUReceiveFSM, Slave.line] at hstep ⊢
    grind
  | expired =>
    left
    simp only [step, xMBRTUTimerT35Expired, Slave.line] at hstep ⊢
    grind
  | poll =>
    simp only [step, eMBPoll] at hstep
    split at hstep
    · left
      simp only [Slave.line]
      grind
    · split at hstep
      case isTrue hevents =>
        have htx : s.tx = false := by simpa using mt hquiet (by simp [hevents])
        have hline : s.line = s.sent := by simp [Slave.line, htx]
        obtain rfl := Option.some.inj hstep
        rw [hline]
        split
        · exact line_eMBRTUSend htx
        · left
          simp [Slave.line, htx]
      case isFalse =>
        left
        simp only [Slave.line]
        grind
  | transmit =>
    left
    obtain ⟨ht, rfl⟩ : s.tx = true ∧ xMBRTUTransmitFSM s = s' := by simpa [step] using hstep
    have hx := (hinv.tx ht).1
    cases hcount : s.usSndBufferCount with
    | zero => simp [Slave.line, xMBRTUTransmitFSM, hx, hcount, ht, slice]
    | succ n => simp [Slave.line, xMBRTUTransmitFSM, hx, hcount, ht, slice_cons]
  | txIdle =>
    left
    simp only [step, Slave.line] at hstep ⊢
    grind

/-- The line carries frames with the address of the slave and their checksum, and nothing else. -/
theorem frames_of_reach {dev : Device}
    (h : Reach (Eq (enabled mem dev)) (step hal ucMBAddress) Quiet s) :
    ∃ pdus : List (List UInt8),
      s.line = (pdus.map fun pdu => sealed (ucMBAddress :: pdu)).flatten := by
  refine h.invariant_of (J := Inv mem) (fun _ h => inv_of_reach h) (I := fun s => ∃ pdus :
    List (List UInt8), s.line = (pdus.map fun pdu => sealed (ucMBAddress :: pdu)).flatten) ?_ ?_
  · rintro s rfl
    exact ⟨[], rfl⟩
  · rintro s act s' hinv ⟨pdus, hpdus⟩ - hstep
    rcases line_of_step hinv hstep with hline | ⟨pdu, hline⟩
    · exact ⟨pdus, hline.trans hpdus⟩
    · exact ⟨pdus ++ [pdu], by simp [hline, hpdus]⟩

theorem frames_of_reach_answer : ∃ (s : Slave) (pdus : List (List UInt8)), s.sent.length = 7 ∧
    s.line = (pdus.map fun pdu => sealed (1 :: pdu)).flatten := by
  obtain ⟨s, hs, hsent⟩ := reach_answer
  obtain ⟨pdus, hpdus⟩ := frames_of_reach hs
  exact ⟨s, pdus, hsent, hpdus⟩

/-- What a slave sends is accepted by every idle receiver, with the same address and PDU. -/
theorem receive_sent {r : Slave} (hs : s.eRcvState = .idle) (hr : r.eRcvState = .idle)
    (ucSlaveAddress : UInt8) {usLength : ℕ} (hpos : 0 < usLength) (hle : usLength ≤ 57) :
    ∃ bs, (xMBRTUTransmitFSM^[usLength + 3] (eMBRTUSend s ucSlaveAddress usLength)).sent =
        s.sent ++ bs ∧
      eMBRTUReceive (receive r bs) = some (ucSlaveAddress, usLength) ∧
      slice (receive r bs).ucRTUBuf 1 usLength = slice s.ucRTUBuf 1 usLength := by
  have hlen : (slice s.ucRTUBuf 1 usLength).length = usLength := by simp [slice]
  refine ⟨_, sent_eMBRTUSend hs ucSlaveAddress usLength, ?_, ?_⟩
  · have haccepted := eMBRTUReceive_receive_sealed hr (ne_nil_of_length_pos (by omega))
      (hlen.trans_le hle) ucSlaveAddress
    rwa [hlen] at haccepted
  · -- the bytes of the frame lie in the buffer in their order
    have hsealed : (sealed (ucSlaveAddress :: slice s.ucRTUBuf 1 usLength)).length =
        usLength + 1 + 1 + 1 := by simp [sealed, hlen]
    have hbuf := (receive_eq hr (ne_nil_of_length_pos (by omega)) (hsealed.trans_le (by omega))).2.1
    rw [hsealed, slice_cons, slice_succ, slice_succ, append_assoc] at hbuf
    exact (append_inj (cons.inj hbuf).2 (by simp [slice])).1

/-- The PDU with the bytes 1, 2 and 3. -/
theorem receive_sent_three : ∃ bs,
    (xMBRTUTransmitFSM^[6] (eMBRTUSend { idle with ucRTUBuf := UInt8.ofNat } 1 3)).sent = [] ++ bs ∧
    eMBRTUReceive (receive idle bs) = some (1, 3) ∧
    slice (receive idle bs).ucRTUBuf 1 3 = [1, 2, 3] :=
  receive_sent rfl rfl 1 (by decide) (by decide)

/-- A frame of which one byte has changed on the line is not accepted. -/
theorem eMBRTUReceive_of_changed {pre post : List UInt8} {b b' : UInt8}
    (hidle : s.eRcvState = .idle) (hle : (pre ++ b :: post).length ≤ 60) (hb : b ≠ b')
    (haccepted : (eMBRTUReceive (receive s (pre ++ b :: post))).isSome) :
    eMBRTUReceive (receive s (pre ++ b' :: post)) = none := by
  rw [(receive_eq hidle (by simp) hle).2.2] at haccepted
  rw [(receive_eq hidle (by simp) (by simpa using hle)).2.2]
  split at haccepted
  case isTrue hcrc =>
    rw [if_neg]
    rintro ⟨-, hcrc'⟩
    have hsame := hcrc.2.trans hcrc'.symm
    rw [usMBCRC16, usMBCRC16, foldl_append, foldl_append] at hsame
    have hround := foldl_crcRound_injective post hsame
    exact hb ((UInt8.xor_right_inj _).mp (index_eq_of_crcRound hround))
  case isFalse => simp at haccepted

theorem eMBRTUReceive_of_changed_code :
    eMBRTUReceive (receive idle ([1] ++ 4 :: [0, 0, 0, 1, 0x84, 0x0A])) = none :=
  eMBRTUReceive_of_changed (b := 3) rfl (by decide) (by decide) (by decide)

/-! ## Requests -/

/-- A read request in the range of the registers is answered with their values. -/
theorem execute_read {frame : Buffer} (hcode : frame 0 = 3) (hcount : 1 ≤ regValue frame 3)
    (hfits : (regValue frame 1).toNat + (regValue frame 3).toNat ≤ 12) (dev : Device) :
    let r := execute hal frame 5 dev
    r.1 0 = 3 ∧ r.1 1 = (regValue frame 3 * 2).toUInt8 ∧
      (∀ i < (regValue frame 3).toNat, regValue r.1 (2 + 2 * i) =
        dev.regs ((regValue frame 1).toNat + i)) ∧
      r.2 = (2 + (regValue frame 3).toNat * 2, dev) := by
  have hmax : regValue frame 3 ≤ 0x7D := UInt16.le_iff_toNat_le.mpr (by simp; omega)
  have hhandle : handle hal frame 5 dev = readReply hal 3 (regValue frame 1 + 1) (regValue frame 3)
      frame dev := by
    rw [handle, if_pos hcode, eMBFuncReadHoldingRegister]
    exact if_pos ⟨rfl, hcount, hmax⟩
  simp only [execute, hhandle, readReply_eq, UInt16.add_sub_cancel, if_pos hfits, if_true, true_and,
    and_true]
  refine ⟨rfl, fun i hi => ?_⟩
  generalize (regValue frame 1).toNat = first at hfits
  generalize regValue frame 3 = count at hfits hi
  have hbyte : ∀ j, 2 ≤ j → j < 2 + count.toNat * 2 → (if j = 0 then (3 : UInt8)
      else if j = 1 then (count * 2).toUInt8 else if j < 2 + count.toNat * 2 then
        regByte (dev.regs (first + (j - 2) / 2)) (j - 2) else frame j) =
      regByte (dev.regs (first + (j - 2) / 2)) (j - 2) := by
    intro j hj hlt
    rw [if_neg (by omega), if_neg (by omega), if_pos hlt]
  rw [regValue, hbyte (2 + 2 * i) (by omega) (by omega),
    hbyte (2 + 2 * i + 1) (by omega) (by omega), show (2 + 2 * i - 2) / 2 = i by omega,
    show (2 + 2 * i + 1 - 2) / 2 = i by omega, regByte, regByte, if_pos (by omega),
    if_neg (by omega)]
  exact bytes_regValue _

/-- The request for the registers 2 and 3. -/
def readTwo : Buffer := fun i => [3, 0, 2, 0, 2].getD i 0

theorem execute_read_two :
    regValue (execute Hal.allOk readTwo 5 ⟨erased, UInt16.ofNat⟩).1 4 = 3 := by
  have hcode : readTwo 0 = 3 := rfl
  exact (execute_read hcode (by decide) (by decide) ⟨erased, UInt16.ofNat⟩).2.2.1 1 (by decide)

/-- The step is a register request. -/
def IsRequest (_ : Device) (act : Calib.Act) : Prop :=
  ∃ buf usAddress usNRegs mode, act = .request buf usAddress usNRegs mode

/-- A function makes no request, one, or a write and then a read. -/
lemma reach_handle {dev dev' : Device} (h : Reach (Eq dev) Calib.step IsRequest dev')
    (frame : Buffer) (usLen : ℕ) :
    Reach (Eq dev) Calib.step IsRequest (handle Hal.allOk frame usLen dev').2.2.2 := by
  have hrequest : ∀ buf usAddress usNRegs mode dev', Reach (Eq dev) Calib.step IsRequest dev' →
      Reach (Eq dev) Calib.step IsRequest
        (eMBRegHoldingCB Hal.allOk buf usAddress usNRegs mode dev').2.2 :=
    fun buf usAddress usNRegs mode _ h => h.step ⟨buf, usAddress, usNRegs, mode, rfl⟩ rfl
  unfold handle
  split
  · unfold eMBFuncReadHoldingRegister
    simp only
    split
    · exact hrequest _ _ _ .read _ h
    · exact h
  split
  · unfold eMBFuncWriteHoldingRegister
    split
    · exact hrequest _ _ _ .write _ h
    · exact h
  split
  · unfold eMBFuncReadWriteMultipleHoldingRegister
    simp only
    split
    · exact h
    split
    · have hwrite := hrequest (fun i => frame (10 + i)) (regValue frame 5 + 1) (regValue frame 7)
        .write dev' h
      split
      · exact hrequest _ _ _ .read _ hwrite
      · exact hwrite
    · exact h
  · exact h

lemma dev_execute (frame : Buffer) (usLen : ℕ) (dev : Device) :
    (execute hal frame usLen dev).2.2 = (handle hal frame usLen dev).2.2.2 := by
  unfold execute
  simp only
  split <;> rfl

lemma dev_eMBRTUSend (usLength : ℕ) : (eMBRTUSend s ucMBAddress usLength).dev = s.dev := by
  unfold eMBRTUSend
  split <;> rfl

/-- Only a poll that executes a request changes the device. -/
lemma dev_of_step {act : Act} (hstep : step hal ucMBAddress s act = some s') : s'.dev = s.dev ∨
    ∃ frame usLen, s'.dev = (handle hal frame usLen s.dev).2.2.2 := by
  cases act with
  | byte ucByte =>
    obtain ⟨-, rfl⟩ : s.rx = true ∧ xMBRTUReceiveFSM s ucByte = s' := by simpa [step] using hstep
    left
    unfold xMBRTUReceiveFSM
    simp only
    cases s.eRcvState with
    | rcv => simp only; split <;> rfl
    | _ => rfl
  | expired =>
    obtain ⟨-, rfl⟩ : s.timer = true ∧ xMBRTUTimerT35Expired s = s' := by simpa [step] using hstep
    left
    unfold xMBRTUTimerT35Expired
    cases s.eRcvState <;> rfl
  | transmit =>
    obtain ⟨-, rfl⟩ : s.tx = true ∧ xMBRTUTransmitFSM s = s' := by simpa [step] using hstep
    left
    unfold xMBRTUTransmitFSM
    simp only
    split
    · rfl
    · split <;> rfl
  | txIdle =>
    obtain ⟨-, rfl⟩ : (s.eSndState = .xmit ∧ s.tx = false) ∧ { s with eSndState := .idle } = s' := by
      simpa [step] using hstep
    exact .inl rfl
  | poll =>
    simp only [step, eMBPoll] at hstep
    split at hstep
    · left
      split at hstep <;> obtain rfl := Option.some.inj hstep <;> rfl
    split at hstep
    · obtain rfl := Option.some.inj hstep
      refine .inr ⟨fun i => s.ucRTUBuf (1 + i), s.usLength, ?_⟩
      by_cases haddress : s.ucRcvAddress = 0
      · simp [haddress]
      · simp [haddress, dev_eMBRTUSend, dev_execute]
    split at hstep
    · obtain rfl := Option.some.inj hstep
      exact .inl rfl
    · cases hstep

/-- The slave changes the device by register requests only. -/
theorem reach_dev {dev : Device} {P : Slave → Act → Prop}
    (h : Reach (Eq (enabled mem dev)) (step Hal.allOk ucMBAddress) P s) :
    Reach (Eq dev) Calib.step IsRequest s.dev := by
  refine h.invariant (I := fun s => Reach (Eq dev) Calib.step IsRequest s.dev) ?_ ?_
  · rintro s rfl
    exact .init rfl
  · intro s act s' hs _ hstep
    rcases dev_of_step hstep with hdev | ⟨frame, usLen, hdev⟩
    · rw [hdev]
      exact hs
    · rw [hdev]
      exact reach_handle hs frame usLen

/-- The register 3 is written. -/
theorem reach_dev_write : ∃ s : Slave, s.dev.regs 3 = 7 ∧
    Reach (Eq ⟨erased, fun _ => 0⟩) Calib.step IsRequest s.dev := by
  have hrun : ∃ s, Reach (Eq (enabled (fun _ => 0) ⟨erased, fun _ => 0⟩)) (step Hal.allOk 1)
      (fun _ _ => True) s ∧ s.dev.regs 3 = 7 :=
    exists_of_free_run rfl (.expired :: .poll :: ([1, 6, 0, 3, 0, 7, 0x38, 0x08].map .byte ++
      [.expired, .poll, .poll])) (by decide)
  obtain ⟨s, hs, hdev⟩ := hrun
  exact ⟨s, hdev, reach_dev hs⟩

end Modbus
