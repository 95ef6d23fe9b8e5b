import TempSns.Lib.Transition

/-!
# Automatic addresses in a chain of nodes

Embedding of `drv_autoaddr.c` and of a chain of nodes that run it. Node 0 is the first one, and the
node `i` has the position `i + 1`. `DOWN_O` of a node is wired to `UP_I` of the next one (the data
line), and `DOWN_I` to `UP_O` (the clock line). A line is low if a pin that is an output with a low
latch pulls it down. `UP_I` and `UP_O` of the first node are strapped low.

A node that is not there is one that never starts.

A step of a node is the part of its thread between two places at which another node or an interrupt
can matter:

* the pin operations of `addr_init`, one after another;
* a case of the state machine, with the two reads of `FSM_PREP` apart;
* the parts of a bit in `autoaddr_tx`: the clock goes down, and the clock goes up.

When the clock line goes down, the next node executes its interrupt handler if that is enabled. The
timer that releases `UP_I` may expire at any time after its start. The state variable has no values
other than the five of the source, so its `default` case is left out.
-/

namespace AutoAddr

inductive PinMode where
  /-- `PIN_MODE_INPUT_PULLUP`, and a pin that was not set up. -/
  | input
  | output
  | outputOd
  deriving DecidableEq, Repr

/-- A pin with the value of its output latch. -/
structure Pin where
  mode : PinMode
  /-- The level that an output drives. -/
  latch : Bool
  deriving DecidableEq, Repr

/-- The latch is not changed. -/
def rtPinMode (p : Pin) (mode : PinMode) : Pin := { p with mode := mode }

def rtPinWrite (p : Pin) (value : Bool) : Pin := { p with latch := value }

/-- The pin does not pull its line down. -/
def Pin.releases (p : Pin) : Bool :=
  match p.mode with
  | .input => true
  | .output => p.latch
  | .outputOd => p.latch

/-- The values of `fsm`. -/
inductive Fsm where
  | init
  | prep
  | sync
  | push
  | succ
  deriving DecidableEq, Repr

/-- `autoaddr_st`. -/
structure Inst where
  /-- The bits received so far. -/
  sr : UInt8
  /-- The last address received. -/
  rxd : UInt8
  /-- The levels of the line at the last transmission. -/
  txd : UInt8
  /-- The number of bits received. -/
  cnt : UInt8
  /-- The state of the thread. -/
  fsm : Fsm
  /-- The address, 0 for none. -/
  autoAddr : UInt8
  deriving DecidableEq, Repr

/-- Where the thread of a node is. -/
inductive Pc where
  /-- Before `addr_init`. -/
  | delay
  /-- `DOWN_I` is an output. -/
  | modeI
  /-- `DOWN_O` is an output, and the other pins are inputs. -/
  | modeO
  /-- `DOWN_I` was written. -/
  | writeI
  /-- `DOWN_O` was written. -/
  | writeO
  /-- At the `switch` of the loop. -/
  | loop
  /-- In `FSM_PREP`, with `UP_I` read as low. -/
  | upILow
  /-- In `autoaddr_tx`, with the bit `i` on the data line. -/
  | bit (i : ℕ) (temp txBuf : UInt8)
  /-- In `autoaddr_tx`, with the clock down for the bit `i`. -/
  | edge (i : ℕ) (temp txBuf : UInt8)
  deriving DecidableEq, Repr

/-- A node. `UP_O` is always an input. -/
structure Node where
  /-- The variables of the driver. -/
  inst : Inst
  downI : Pin
  downO : Pin
  upI : Pin
  /-- The interrupt of `UP_O` is enabled. -/
  irq : Bool
  /-- The timer that releases `UP_I` runs. -/
  timer : Bool
  /-- Where the thread is. -/
  pc : Pc
  deriving DecidableEq, Repr

/-- A node that has not started. The latches have the value `latch`. -/
def offNode (latch : Bool) : Node where
  inst := ⟨0, 0, 0, 0, .init, 0⟩
  downI := ⟨.input, latch⟩
  downO := ⟨.input, latch⟩
  upI := ⟨.input, latch⟩
  irq := false
  timer := false
  pc := .delay

/-- `autoaddr_rx_cb`; `downO` is what the node before does to the data line. -/
def autoaddrRxCb (downO : Bool) (nd : Node) : Node :=
  let upI := rtPinMode nd.upI .input
  let sr := if (downO && upI.releases) = false then nd.inst.sr <<< 1 else (nd.inst.sr <<< 1) + 1
  let cnt := nd.inst.cnt + 1
  if cnt ≥ 8 then
    { nd with
      inst := { nd.inst with rxd := sr >>> 2, sr := 0, cnt := 0 }
      upI := rtPinWrite (rtPinMode upI .output) true
      timer := true }
  else if cnt = 7 then
    { nd with
      inst := { nd.inst with sr := sr, cnt := cnt }
      upI := rtPinWrite (rtPinMode upI .output) false
      timer := true }
  else { nd with inst := { nd.inst with sr := sr, cnt := cnt }, upI := upI }

def lastTimerCb (nd : Node) : Node :=
  { nd with upI := rtPinMode (rtPinWrite nd.upI true) .input, timer := false }

/-- `temp` in `autoaddr_tx`. -/
def frame (data : UInt8) : UInt8 := (data <<< 2) ||| 0x03

def frameBit (temp : UInt8) (i : ℕ) : Bool := temp.toNat.testBit (7 - i)

/-- The `switch` of the loop, up to the first place at which another node can matter. -/
def fsmStep (upI : Bool) (nd : Node) : Node :=
  match nd.inst.fsm with
  | .init => { nd with inst := { nd.inst with fsm := .prep }, pc := .loop }
  | .prep =>
    if upI = false then { nd with pc := .upILow }
    else { nd with inst := { nd.inst with fsm := .sync }, pc := .loop }
  | .sync =>
    if nd.inst.rxd ≠ 0 then { nd with
      inst := { nd.inst with autoAddr := nd.inst.rxd, fsm := .push }
      irq := false
      pc := .loop }
    else { nd with inst := { nd.inst with cnt := 0, sr := 0, rxd := 0 }, pc := .loop }
  -- `autoaddr_tx` puts the first bit on the data line
  | .push | .succ => { nd with
      downO := rtPinWrite nd.downO (frameBit (frame (nd.inst.autoAddr + 1)) 0)
      pc := .bit 0 (frame (nd.inst.autoAddr + 1)) 0 }

/-- The next step of the thread. The levels are those of `UP_I`, `UP_O` and `DOWN_O`. -/
def nodeStep (upI upO downO : Bool) (nd : Node) : Node :=
  match nd.pc with
  -- `addr_init`
  | .delay => { nd with downI := rtPinMode nd.downI .outputOd, pc := .modeI }
  | .modeI => { nd with
      downO := rtPinMode nd.downO .outputOd
      upI := rtPinMode nd.upI .input
      pc := .modeO }
  | .modeO => { nd with downI := rtPinWrite nd.downI true, pc := .writeI }
  | .writeI => { nd with downO := rtPinWrite nd.downO true, pc := .writeO }
  | .writeO => { nd with
      inst := ⟨0, 0, 0, 0, .init, 0⟩
      irq := true
      timer := false
      pc := .loop }
  | .loop => fsmStep upI nd
  -- the second read of `FSM_PREP`
  | .upILow =>
    if upO = false then { nd with
      inst := { nd.inst with autoAddr := 1, fsm := .push }
      irq := false
      pc := .loop }
    else { nd with inst := { nd.inst with fsm := .sync }, pc := .loop }
  -- `autoaddr_tx`
  | .bit i temp txBuf => { nd with downI := rtPinWrite nd.downI false, pc := .edge i temp txBuf }
  | .edge i temp txBuf =>
    let txBuf := (txBuf <<< 1) ||| (if downO then 1 else 0)
    if i + 1 < 8 then { nd with
      downI := rtPinWrite nd.downI true
      downO := rtPinWrite nd.downO (frameBit temp (i + 1))
      pc := .bit (i + 1) temp txBuf }
    else { nd with
      inst := { nd.inst with
        txd := txBuf
        fsm := if nd.inst.fsm = .push ∧ txBuf &&& 0x03 ≠ 0x01 then .push else .succ }
      downI := rtPinWrite nd.downI true
      pc := .loop }

/-- The steps of a thread, one case for each way through the code. -/
inductive Move (upI upO downO : Bool) (nd : Node) : Node → Prop
  | modeI (hpc : nd.pc = .delay) : Move upI upO downO nd
      { nd with downI := rtPinMode nd.downI .outputOd, pc := .modeI }
  | modeO (hpc : nd.pc = .modeI) : Move upI upO downO nd
      { nd with
        downO := rtPinMode nd.downO .outputOd
        upI := rtPinMode nd.upI .input
        pc := .modeO }
  | writeI (hpc : nd.pc = .modeO) : Move upI upO downO nd
      { nd with downI := rtPinWrite nd.downI true, pc := .writeI }
  | writeO (hpc : nd.pc = .writeI) : Move upI upO downO nd
      { nd with downO := rtPinWrite nd.downO true, pc := .writeO }
  | started (hpc : nd.pc = .writeO) : Move upI upO downO nd
      { nd with inst := ⟨0, 0, 0, 0, .init, 0⟩, irq := true, timer := false, pc := .loop }
  /-- The next state is not one in which the node has an address. -/
  | toState (fsm : Fsm) (hpc : nd.pc = .loop ∨ nd.pc = .upILow)
      (hfsm : fsm = .prep ∨ fsm = .sync) : Move upI upO downO nd
      { nd with inst := { nd.inst with fsm := fsm }, pc := .loop }
  | upILow (hpc : nd.pc = .loop) (hfsm : nd.inst.fsm = .prep) : Move upI upO downO nd
      { nd with pc := .upILow }
  /-- Both lines are low: the node is the first one. -/
  | first (hpc : nd.pc = .upILow) (hlow : upO = false) : Move upI upO downO nd
      { nd with inst := { nd.inst with autoAddr := 1, fsm := .push }, irq := false, pc := .loop }
  /-- The received data is the address. -/
  | accept (hpc : nd.pc = .loop) (hfsm : nd.inst.fsm = .sync) (hrxd : nd.inst.rxd ≠ 0) :
      Move upI upO downO nd
      { nd with
        inst := { nd.inst with autoAddr := nd.inst.rxd, fsm := .push }
        irq := false
        pc := .loop }
  | clear (hpc : nd.pc = .loop) (hfsm : nd.inst.fsm = .sync) : Move upI upO downO nd
      { nd with inst := { nd.inst with cnt := 0, sr := 0, rxd := 0 }, pc := .loop }
  /-- A frame begins. -/
  | begins (hpc : nd.pc = .loop) (hfsm : nd.inst.fsm = .push ∨ nd.inst.fsm = .succ) :
      Move upI upO downO nd
      { nd with
        downO := rtPinWrite nd.downO (frameBit (frame (nd.inst.autoAddr + 1)) 0)
        pc := .bit 0 (frame (nd.inst.autoAddr + 1)) 0 }
  | edge (k : ℕ) (temp txBuf : UInt8) (hpc : nd.pc = .bit k temp txBuf) : Move upI upO downO nd
      { nd with downI := rtPinWrite nd.downI false, pc := .edge k temp txBuf }
  | bit (k : ℕ) (temp txBuf txBuf' : UInt8) (hpc : nd.pc = .edge k temp txBuf) (hk : k + 1 < 8) :
      Move upI upO downO nd
      { nd with
        downI := rtPinWrite nd.downI true
        downO := rtPinWrite nd.downO (frameBit temp (k + 1))
        pc := .bit (k + 1) temp txBuf' }
  /-- A frame ends. -/
  | ends (k : ℕ) (temp txBuf txBuf' : UInt8) (fsm : Fsm) (hpc : nd.pc = .edge k temp txBuf)
      (hk : 8 ≤ k + 1) : Move upI upO downO nd
      { nd with
        inst := { nd.inst with txd := txBuf', fsm := fsm }
        downI := rtPinWrite nd.downI true
        pc := .loop }

lemma move_fsmStep {upI upO downO : Bool} {nd : Node} (hpc : nd.pc = .loop) :
    Move upI upO downO nd (fsmStep upI nd) := by
  unfold fsmStep
  split
  case h_1 => exact .toState .prep (.inl hpc) (.inl rfl)
  case h_2 hfsm =>
    split
    · exact .upILow hpc hfsm
    · exact .toState .sync (.inl hpc) (.inr rfl)
  case h_3 hfsm =>
    split
    case isTrue hrxd => exact .accept hpc hfsm hrxd
    case isFalse => exact .clear hpc hfsm
  case h_4 hfsm => exact .begins hpc (.inl hfsm)
  case h_5 hfsm => exact .begins hpc (.inr hfsm)

lemma move_nodeStep (upI upO downO : Bool) (nd : Node) :
    Move upI upO downO nd (nodeStep upI upO downO nd) := by
  unfold nodeStep
  split
  case h_1 hpc => exact .modeI hpc
  case h_2 hpc => exact .modeO hpc
  case h_3 hpc => exact .writeI hpc
  case h_4 hpc => exact .writeO hpc
  case h_5 hpc => exact .started hpc
  case h_6 hpc => exact move_fsmStep hpc
  case h_7 hpc =>
    split
    case isTrue hlow => exact .first hpc hlow
    case isFalse => exact .toState .sync (.inr hpc) (.inr rfl)
  case h_8 k temp txBuf hpc => exact .edge k temp txBuf hpc
  case h_9 k temp txBuf hpc =>
    simp only
    split
    case isTrue hk => exact .bit k temp txBuf _ hpc hk
    case isFalse hk => exact .ends k temp txBuf _ _ hpc (Nat.not_lt.mp hk)

/-- The chain, with the data of the complete frames that the nodes have sent. -/
structure Chain where
  node : ℕ → Node
  /-- The complete frames. -/
  sent : ℕ → List UInt8

namespace Chain

/-- The level of `UP_I` of the node. -/
def dataLine (c : Chain) : ℕ → Bool
  | 0 => false
  | i + 1 => (c.node i).downO.releases && (c.node (i + 1)).upI.releases

/-- The level of `UP_O` of the node. -/
def clockLine (c : Chain) : ℕ → Bool
  | 0 => false
  | i + 1 => (c.node i).downI.releases

def setNode (c : Chain) (i : ℕ) (nd : Node) : Chain :=
  { c with node := Function.update c.node i nd }

/-- The interrupt of the node behind the node `i`. -/
def interrupt (c : Chain) (i : ℕ) : Chain :=
  if (c.node (i + 1)).irq then
    c.setNode (i + 1) (autoaddrRxCb (c.node i).downO.releases (c.node (i + 1)))
  else c

/-- The next step of the thread of the node `i`. -/
def run (c : Chain) (i : ℕ) : Chain :=
  let nd := nodeStep (c.dataLine i) (c.clockLine i) (c.dataLine (i + 1)) (c.node i)
  let c' := { c with
    node := Function.update c.node i nd
    sent := match (c.node i).pc with
      | .edge 7 _ _ => Function.update c.sent i (c.sent i ++ [(c.node i).inst.autoAddr + 1])
      | _ => c.sent }
  -- the clock line goes down
  if (c.node i).downI.releases ∧ nd.downI.releases = false then c'.interrupt i else c'

end Chain

inductive Act where
  /-- The thread of the node goes on. -/
  | run (i : ℕ)
  /-- `last_timer` of the node expires. -/
  | timer (i : ℕ)
  deriving DecidableEq, Repr

def step (c : Chain) : Act → Option Chain
  | .run i => some (c.run i)
  | .timer i => if (c.node i).timer then some (c.setNode i (lastTimerCb (c.node i))) else none

/-- No node has started. -/
def Initial (latch : Bool) (c : Chain) : Prop :=
  (∀ i, c.node i = offNode latch) ∧ ∀ i, c.sent i = []

/-! ## Undisturbed frames -/

def Node.inFrame (nd : Node) : Bool :=
  match nd.pc with
  | .bit _ _ _ => true
  | .edge _ _ _ => true
  | _ => false

/-- The next step of the node is a read of `FSM_PREP`. -/
def Node.samples (nd : Node) : Bool :=
  match nd.pc with
  | .loop => nd.inst.fsm = .prep
  | .upILow => true
  | _ => false

/-- The next step of the node is a part of its start-up. -/
def Node.starts (nd : Node) : Bool :=
  match nd.pc with
  | .delay | .modeI | .modeO | .writeI | .writeO => true
  | _ => false

/-- The next step of the node is the test of `FSM_SYNC`. -/
def Node.polls (nd : Node) : Bool :=
  match nd.pc with
  | .loop => nd.inst.fsm = .sync
  | _ => false

/-- The node is between the first and the last write to its `DOWN` pins in `addr_init`. -/
def Node.startsUp (nd : Node) : Bool :=
  match nd.pc with
  | .modeI | .modeO | .writeI => true
  | _ => false

/-- The next step of the node begins a frame. -/
def Node.startsFrame (nd : Node) : Bool :=
  match nd.pc with
  | .loop => nd.inst.fsm = .push ∨ nd.inst.fsm = .succ
  | _ => false

/-- No start-up, sample or poll of a receiver is inside of a frame of its sender. -/
def FramesIntact (c : Chain) (a : Act) : Prop :=
  ∀ j, a = .run (j + 1) →
    ((c.node (j + 1)).starts ∨ (c.node (j + 1)).samples ∨ (c.node (j + 1)).polls) →
    (c.node j).inFrame = false

/-- The frames are intact. If the latches are low at the start, no node samples its lines while the
node before it starts up, and a frame begins only when the receiver has counted no bits. -/
structure Undisturbed (latch : Bool) (c : Chain) (a : Act) : Prop where
  frames : FramesIntact c a
  sample : latch = false → ∀ j, a = .run (j + 1) → (c.node (j + 1)).samples →
    (c.node j).startsUp = false
  begins : latch = false → ∀ i, a = .run i → (c.node i).startsFrame → (c.node (i + 1)).irq →
    (c.node (i + 1)).inst.cnt = 0

end AutoAddr
