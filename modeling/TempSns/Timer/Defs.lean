import TempSns.Lib.Exec
import TempSns.Lib.IntrusiveList
import TempSns.Lib.WrapTime
import TempSns.RtDef

/-!
# Timers

Embedding of `src/timer.c`. The timers are kept in skip lists: `levels` rows for the hard timers and,
with `RT_USING_TIMER_SOFT`, as many for the soft ones. Row `levels - 1` holds all pending timers of
its kind, each row above it some of them. The list nodes are those of the source: `timer_list[l]`
is `.head (soft, l)` and `timer->row[l]` is `.item (x, l)`.

Each critical section of `rt_timer_start` and `rt_timer_stop` is a function of its own, so that calls
can be interleaved.

Loops over list nodes have a fuel argument; with too little fuel they end with `Fault.diverges`.
-/

namespace Timer

open Links WrapTime

/-- The configuration of the timers. -/
structure Config where
  /-- `RT_TIMER_SKIP_LIST_LEVEL`. -/
  levels : ℕ
  mask : BitVec 32
  /-- `RT_USING_TIMER_SOFT` is defined. -/
  usingSoft : Bool

/-- `struct rt_timer` without its list nodes and its callback. -/
structure RtTimer where
  /-- The deadline. -/
  timeoutTick : BitVec 32
  /-- The time from a start to the deadline. -/
  initTick : BitVec 32
  /-- `RT_TIMER_FLAG_ACTIVATED`. -/
  activated : Bool
  /-- `RT_TIMER_FLAG_PERIODIC`. -/
  periodic : Bool
  /-- `RT_TIMER_FLAG_SOFT_TIMER`. -/
  soft : Bool
  deriving DecidableEq, Repr

/-- A list node: `timer_list[l]` of the hard or the soft timers, or `timer->row[l]`. -/
abbrev RowNode (X : Type) := Node (Bool × ℕ) (X × ℕ)

/-- All timers, their lists, the insert counter `random_nr` and the tick counter. -/
structure State (X : Type) where
  timer : X → RtTimer
  /-- The rows of both timer lists. -/
  links : Links (RowNode X)
  /-- `random_nr` of `rt_timer_start`. -/
  randomNr : BitVec 32
  /-- `rt_tick`. -/
  tick : BitVec 32

variable {X : Type} [DecidableEq X]

/-- Replace one timer object. -/
def State.setTimer (s : State X) (x : X) (t : RtTimer) : State X :=
  { s with timer := Function.update s.timer x t }

/-- `flag |= RT_TIMER_FLAG_ACTIVATED` or `flag &= ~RT_TIMER_FLAG_ACTIVATED`. -/
def State.setActivated (s : State X) (x : X) (b : Bool) : State X :=
  s.setTimer x { s.timer x with activated := b }

/-- The node one row below, `row_head + 1`. -/
def RowNode.below : RowNode X → RowNode X
  | .head (soft, l) => .head (soft, l + 1)
  | .item (x, l) => .item (x, l + 1)

/-! ## Starting and stopping -/

/-- Take the timer out of its rows `0` to `n - 1`. -/
def removeRows (x : X) : ℕ → Links (RowNode X) → Links (RowNode X)
  | 0, l => l
  | n + 1, l => (removeRows x n l).remove (.item (x, n))

def listOf (cfg : Config) (s : State X) (x : X) : Bool := cfg.usingSoft && (s.timer x).soft

def timerRemove (cfg : Config) (s : State X) (x : X) : State X :=
  { s with links := removeRows x cfg.levels s.links }

/-- The first critical section of `rt_timer_start`. -/
def startRemove (cfg : Config) (s : State X) (x : X) : State X :=
  (timerRemove cfg s x).setActivated x false

/-- Between the critical sections of `rt_timer_start`: the deadline. -/
def startTick (s : State X) (x : X) : Except Fault (State X) :=
  if (s.timer x).initTick.toNat < half then
    .ok (s.setTimer x { s.timer x with timeoutTick := s.tick + (s.timer x).initTick })
  else .error .assertion

/-- The search for the predecessor in one row: `row_head` moves on until it is the last node or the
next timer is later than the deadline. -/
def walkRow (s : State X) (deadline : BitVec 32) (list : RowNode X) :
    ℕ → RowNode X → Except Fault (RowNode X)
  | 0, _ => .error .diverges
  | fuel + 1, rowHead =>
    if rowHead = s.links.prev list then .ok rowHead
    else match s.links.next rowHead with
      | .head _ => .error .badPointer
      | .item t =>
        let diff := (s.timer t.1).timeoutTick - deadline
        if diff ≠ 0 ∧ diff.toNat < half then .ok rowHead
        else walkRow s deadline list fuel (.item t)

/-- `row_head[l]` to `row_head[l + n - 1]`: the search in a row goes on below the predecessor found
in the row above. -/
def walkRows (s : State X) (deadline : BitVec 32) (soft : Bool) (fuel : ℕ) :
    ℕ → ℕ → RowNode X → Except Fault (List (RowNode X))
  | 0, _, _ => .ok []
  | n + 1, l, start => do
    let rowHead ← walkRow s deadline (.head (soft, l)) fuel start
    let below ← walkRows s deadline soft fuel n (l + 1) rowHead.below
    .ok (rowHead :: below)

/-- Link the timer into the rows above row `l`, from the bottom up, while the tested bits of the
insert counter are zero. -/
def linkUpper (mask : BitVec 32) (x : X) :
    ℕ → List (RowNode X) → BitVec 32 → Links (RowNode X) → Links (RowNode X)
  | l + 1, rowHead :: rowHeads, tstNr, links =>
    if tstNr &&& mask = 0 then
      linkUpper mask x l rowHeads (tstNr >>> ((mask + 1) >>> 1).toNat)
        (links.insertAfter rowHead (.item (x, l)))
    else links
  | _, _, _, links => links

/-- The second critical section of `rt_timer_start`. -/
def startInsert (cfg : Config) (fuel : ℕ) (s : State X) (x : X) : Except Fault (State X) := do
  let soft := listOf cfg s x
  let rowHeads ← walkRows s (s.timer x).timeoutTick soft fuel cfg.levels 0 (.head (soft, 0))
  match rowHeads.reverse with
  | [] => .error .badIndex
  | bottom :: upper =>
    let randomNr := s.randomNr + 1
    let links := s.links.insertAfter bottom (.item (x, cfg.levels - 1))
    .ok ({ s with
      links := linkUpper cfg.mask x (cfg.levels - 1) upper randomNr links
      randomNr := randomNr }.setActivated x true)

/-- `rt_timer_start`, without an interruption. -/
def rtTimerStart (cfg : Config) (fuel : ℕ) (s : State X) (x : X) : Except Fault (State X) := do
  let s ← startTick (startRemove cfg s x) x
  startInsert cfg fuel s x

/-- `rt_timer_stop`, without an interruption. -/
def rtTimerStop (cfg : Config) (s : State X) (x : X) : RtErr × State X :=
  if (s.timer x).activated then (.eok, (timerRemove cfg s x).setActivated x false)
  else (.error, s)

/-- The commands of `rt_timer_control` that change the timer. -/
inductive Command where
  | setTime (time : BitVec 32)
  | setOneshot
  | setPeriodic
  deriving DecidableEq, Repr

def rtTimerControl (s : State X) (x : X) : Command → State X
  | .setTime time => s.setTimer x { s.timer x with initTick := time }
  | .setOneshot => s.setTimer x { s.timer x with periodic := false }
  | .setPeriodic => s.setTimer x { s.timer x with periodic := true }

/-! ## Expiry -/

/-- The first timer of a list, read from its last row. -/
def firstTimer (cfg : Config) (s : State X) (soft : Bool) : Except Fault (Option X) :=
  if s.links.isEmpty (.head (soft, cfg.levels - 1)) then .ok none
  else match s.links.next (.head (soft, cfg.levels - 1)) with
    | .item t => .ok (some t.1)
    | .head _ => .error .badPointer

/-- The deadline of the timer has been reached at `current_tick`. -/
def Expired (s : State X) (currentTick : BitVec 32) (t : X) : Prop :=
  (currentTick - (s.timer t).timeoutTick).toNat < half

instance (s : State X) (currentTick : BitVec 32) (t : X) : Decidable (Expired s currentTick t) :=
  inferInstanceAs (Decidable (_ < _))

/-- What a timeout function does to timers. -/
inductive Action (X : Type) where
  | start (x : X)
  | stop (x : X)
  | control (x : X) (cmd : Command)
  deriving DecidableEq, Repr

/-- One action of a timeout function, with the timers that it stops successfully. -/
def act (cfg : Config) (fuel : ℕ) (s : State X) : Action X → Except Fault (State X × List X)
  | .start x => (rtTimerStart cfg fuel s x).map fun s => (s, [])
  | .stop x =>
    match rtTimerStop cfg s x with
    | (.eok, s) => .ok (s, [x])
    | (_, s) => .ok (s, [])
  | .control x cmd => .ok (rtTimerControl s x cmd, [])

/-- A timeout function. -/
def runActions (cfg : Config) (fuel : ℕ) :
    State X → List (Action X) → Except Fault (State X × List X)
  | s, [] => .ok (s, [])
  | s, a :: as => do
    let (s, stopped) ← act cfg fuel s a
    let (s, stopped') ← runActions cfg fuel s as
    .ok (s, stopped ++ stopped')

/-- After the timeout function: a periodic timer that is still activated is started again. -/
def afterCallback (cfg : Config) (fuel : ℕ) (s : State X) (t : X) : Except Fault (State X) :=
  if (s.timer t).periodic ∧ (s.timer t).activated then
    rtTimerStart cfg fuel (s.setActivated t false) t
  else .ok (s.setActivated t false)

/-- One round of the loop of `rt_timer_check`. -/
structure Round (X : Type) where
  timer : X
  found : State X
  /-- The state at the end of its timeout function. -/
  returned : State X
  /-- The state at the end of the round. -/
  finish : State X
  /-- The timers that its timeout function stopped successfully. -/
  stopped : List X

def expire (cfg : Config) (fuel : ℕ) (s : State X) (t : X) (callback : State X → List (Action X)) :
    Except Fault (Round X) := do
  let removed := timerRemove cfg s t
  let (returned, stopped) ← runActions cfg fuel removed (callback removed)
  let finish ← afterCallback cfg fuel returned t
  .ok ⟨t, s, returned, finish, stopped⟩

/-- The loop of `rt_timer_check`. The `n`-th timeout function that is called does `callback n`,
which may depend on the timer and on the state. -/
def checkLoop (cfg : Config) (fuel : ℕ) (callback : ℕ → X → State X → List (Action X)) :
    ℕ → ℕ → BitVec 32 → State X → Except Fault (State X × List (Round X))
  | 0, _, _, _ => .error .diverges
  | rounds + 1, n, currentTick, s => do
    let first ← firstTimer cfg s false
    match first with
    | none => .ok (s, [])
    | some t =>
      if Expired s currentTick t then do
        let round ← expire cfg fuel s t (callback n t)
        let (s', log) ← checkLoop cfg fuel callback rounds (n + 1) round.returned.tick round.finish
        .ok (s', round :: log)
      else .ok (s, [])

/-- It runs with interrupts disabled. -/
def rtTimerCheck (cfg : Config) (fuel : ℕ) (callback : ℕ → X → State X → List (Action X))
    (s : State X) : Except Fault (State X × List (Round X)) :=
  checkLoop cfg fuel callback fuel 0 s.tick s

end Timer
