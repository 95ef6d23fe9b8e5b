import TempSns.Ipc.Waits
import TempSns.Lib.Exec
import TempSns.Lib.Transition

/-!
# Events

Embedding of `rt_event_send`, `rt_event_recv` and `rt_event_control`, and the machine of all events
`E`. A thread waits until all flags (`RT_EVENT_FLAG_AND`) or one of the flags (`RT_EVENT_FLAG_OR`) of
its set are in the set of the event; `satisfies` is this condition.

`rt_event_send` examines the waiting threads in the order of the list. A thread with
`RT_EVENT_FLAG_CLEAR` takes its flags out of the set before the next thread is examined.
-/

namespace Ipc

open Function

def rtEventFlagAnd : BitVec 8 := 0x01

def rtEventFlagOr : BitVec 8 := 0x02

def rtEventFlagClear : BitVec 8 := 0x04

def rtIpcCmdReset : ℤ := 0x01

/-- All events and threads. -/
structure Events (T E : Type) where
  /-- The threads and the suspend lists of the events. -/
  waits : Waits T E
  set : E → BitVec 32
  eventSet : T → BitVec 32
  eventInfo : T → BitVec 8

variable {T E : Type} [DecidableEq T] [DecidableEq E]

/-- One round of the loop in `rt_event_send`, for the thread `t`. -/
def examine (e : E) (s : Events T E) (t : T) : Events T E :=
  -- `status` and `thread->event_set` after the test
  let (status, eventSet) :=
    if s.eventInfo t &&& rtEventFlagAnd ≠ 0 then
      (decide (s.eventSet t &&& s.set e = s.eventSet t), s.eventSet t)
    else if s.eventInfo t &&& rtEventFlagOr ≠ 0 then
      if s.eventSet t &&& s.set e ≠ 0 then (true, s.eventSet t &&& s.set e)
      else (false, s.eventSet t)
    else (false, s.eventSet t)
  if status then
    { waits := s.waits.resume t
      set := if s.eventInfo t &&& rtEventFlagClear ≠ 0 then
          update s.set e (s.set e &&& ~~~eventSet) else s.set
      eventSet := update s.eventSet t eventSet
      eventInfo := s.eventInfo }
  else s

def rtEventSend (s : Events T E) (e : E) (set : BitVec 32) : Events T E × RtErr :=
  if set = 0 then (s, .error)
  else
    let s := { s with set := update s.set e (s.set e ||| set) }
    ((s.waits.suspend e).foldl (examine e) s, .eok)

/-- `rt_event_recv` of the thread `t` up to its end or its wait. The result is `none` if the thread
waits, and otherwise the return value and what was written to `recved`. -/
def rtEventRecv (s : Events T E) (t : T) (e : E) (set : BitVec 32) (option : BitVec 8) (timeout : ℤ) :
    Except Fault (Events T E × Option (RtErr × Option (BitVec 32))) := do
  if set = 0 then .ok (s, some (.error, none))
  else
    let waits := s.waits.setError t .eok
    let status ←
      if option &&& rtEventFlagAnd ≠ 0 then pure (decide (s.set e &&& set = set))
      else if option &&& rtEventFlagOr ≠ 0 then pure (decide (s.set e &&& set ≠ 0))
      -- either `RT_EVENT_FLAG_AND` or `RT_EVENT_FLAG_OR` should be set
      else throw .assertion
    if status then
      .ok ({ s with
        waits := waits
        set := if option &&& rtEventFlagClear ≠ 0 then
            update s.set e (s.set e &&& ~~~set) else s.set },
        some (.eok, some (s.set e &&& set)))
    else if timeout = 0 then
      .ok ({ s with waits := waits.setError t .etimeout }, some (.etimeout, none))
    else
      .ok ({ s with
        waits := waits.suspendThread e t timeout
        eventSet := update s.eventSet t set
        eventInfo := update s.eventInfo t option }, none)

/-- The part of `rt_event_recv` after the wait. -/
def rtEventRecvEnd (s : Events T E) (t : T) : Events T E × RtErr × Option (BitVec 32) :=
  ({ s with waits := s.waits.wake t }, (s.waits.thread t).error,
    if (s.waits.thread t).error ≠ .eok then none else some (s.eventSet t))

def rtEventControl (s : Events T E) (e : E) (cmd : ℤ) : Events T E × RtErr :=
  if cmd = rtIpcCmdReset then
    ({ s with waits := s.waits.resumeAll e, set := update s.set e 0 }, .eok)
  else (s, .error)

/-! ## Condition of a thread -/

def satisfies (option : BitVec 8) (want set : BitVec 32) : Bool :=
  if option &&& rtEventFlagAnd ≠ 0 then decide (want &&& set = want)
  else if option &&& rtEventFlagOr ≠ 0 then decide (want &&& set ≠ 0)
  else false

/-- The flags that a satisfied thread receives. -/
def received (option : BitVec 8) (want set : BitVec 32) : BitVec 32 :=
  if option &&& rtEventFlagAnd ≠ 0 then want else want &&& set

lemma satisfies_antitone {option : BitVec 8} {want set x : BitVec 32}
    (h : satisfies option want (set &&& x) = true) : satisfies option want set = true := by
  unfold satisfies at h ⊢
  split at h
  case isTrue hand =>
    rw [if_pos hand]
    have hall := of_decide_eq_true h
    apply decide_eq_true
    calc want &&& set = want &&& (set &&& x) &&& set := by rw [hall]
      _ = want &&& (set &&& x) := by
        rw [BitVec.and_assoc, BitVec.and_assoc, BitVec.and_comm x set, ← BitVec.and_assoc set set,
          BitVec.and_self]
      _ = want := hall
  case isFalse hand =>
    rw [if_neg hand]
    split at h
    case isTrue hor =>
      rw [if_pos hor]
      refine decide_eq_true fun hzero => of_decide_eq_true h ?_
      rw [← BitVec.and_assoc, hzero]
      exact BitVec.zero_and
    case isFalse => cases h

lemma received_eq {option : BitVec 8} {want set : BitVec 32}
    (h : satisfies option want set = true) : received option want set = set &&& want := by
  unfold satisfies at h
  unfold received
  split
  case isTrue hand =>
    rw [if_pos hand] at h
    rw [BitVec.and_comm]
    exact (of_decide_eq_true h).symm
  case isFalse => exact BitVec.and_comm _ _

lemma clear_received (want set : BitVec 32) : set &&& ~~~(set &&& want) = set &&& ~~~want := by
  ext i hi
  simp only [BitVec.getElem_and, BitVec.getElem_not]
  cases set[i] <;> simp

/-- The set of the event after a thread with this option has received flags. -/
def clearSet (option : BitVec 8) (set flags : BitVec 32) : BitVec 32 :=
  if option &&& rtEventFlagClear ≠ 0 then set &&& ~~~flags else set

lemma clearSet_received (option : BitVec 8) (want set : BitVec 32) :
    clearSet option set (set &&& want) = clearSet option set want := by
  unfold clearSet
  rw [clear_received]

/-- A round of the loop releases the thread if its condition is satisfied. -/
lemma examine_eq (e : E) (s : Events T E) (t : T) : examine e s t =
      if satisfies (s.eventInfo t) (s.eventSet t) (s.set e) then
        { waits := s.waits.resume t
          set := update s.set e (clearSet (s.eventInfo t) (s.set e)
            (received (s.eventInfo t) (s.eventSet t) (s.set e)))
          eventSet := update s.eventSet t (received (s.eventInfo t) (s.eventSet t) (s.set e))
          eventInfo := s.eventInfo }
      else s := by
  have hset : ∀ flags, (if s.eventInfo t &&& rtEventFlagClear ≠ 0 then
      update s.set e (s.set e &&& ~~~flags) else s.set) =
      update s.set e (clearSet (s.eventInfo t) (s.set e) flags) := by
    intro flags
    unfold clearSet
    split
    · rfl
    · rw [update_eq_self]
  unfold examine satisfies received
  by_cases hand : s.eventInfo t &&& rtEventFlagAnd ≠ 0
  · simp only [if_pos hand, hset]
  · by_cases hor : s.eventInfo t &&& rtEventFlagOr ≠ 0
    · by_cases hsome : s.eventSet t &&& s.set e ≠ 0
      · simp only [if_neg hand, if_pos hor, if_pos hsome, hset, decide_eq_true hsome]
      · simp only [if_neg hand, if_pos hor, if_neg hsome, decide_eq_false hsome,
          Bool.false_eq_true, if_false]
    · simp only [if_neg hand, if_neg hor, Bool.false_eq_true, if_false]

lemma rtEventRecv_eq {s : Events T E} {t : T} {e : E} {set : BitVec 32} {option : BitVec 8}
    {timeout : ℤ} (hset : set ≠ 0)
    (hlegal : option &&& rtEventFlagAnd ≠ 0 ∨ option &&& rtEventFlagOr ≠ 0) :
    rtEventRecv s t e set option timeout =
      if satisfies option set (s.set e) then
        .ok ({ s with
          waits := s.waits.setError t .eok
          set := update s.set e (clearSet option (s.set e) set) },
          some (.eok, some (s.set e &&& set)))
      else if timeout = 0 then
        .ok ({ s with waits := (s.waits.setError t .eok).setError t .etimeout },
          some (.etimeout, none))
      else
        .ok ({ s with
          waits := (s.waits.setError t .eok).suspendThread e t timeout
          eventSet := update s.eventSet t set
          eventInfo := update s.eventInfo t option }, none) := by
  have hclear : (if option &&& rtEventFlagClear ≠ 0 then
      update s.set e (s.set e &&& ~~~set) else s.set) =
      update s.set e (clearSet option (s.set e) set) := by
    unfold clearSet
    split
    · rfl
    · rw [update_eq_self]
  unfold rtEventRecv satisfies
  rw [if_neg hset, hclear, BitVec.and_comm set]
  by_cases hand : option &&& rtEventFlagAnd ≠ 0
  · simp only [if_pos hand, pure_bind]
  · have hor := hlegal.resolve_left hand
    simp only [if_neg hand, if_pos hor, pure_bind]

/-! ## Receiving before and after a send

A receiver that waits for the send, and one that comes after it. The results are the flags of a call
that returned `RT_EOK`, and the set of the event at the end. -/

/-- The flags of a call that returned `RT_EOK`. -/
def flagsOf : Option (RtErr × Option (BitVec 32)) → Option (BitVec 32)
  | some (.eok, flags) => flags
  | _ => none

def sendThenRecv (s : Events T E) (t : T) (e : E) (set : BitVec 32) (option : BitVec 8)
    (timeout : ℤ) (sent : BitVec 32) : Except Fault (Option (BitVec 32) × BitVec 32) := do
  let (s, result) ← rtEventRecv (rtEventSend s e sent).1 t e set option timeout
  .ok (flagsOf result, s.set e)

/-- The thread `t` receives before `sent` is sent. If it waits and the send releases it, it goes on
after the send. -/
def recvThenSend (s : Events T E) (t : T) (e : E) (set : BitVec 32) (option : BitVec 8)
    (timeout : ℤ) (sent : BitVec 32) : Except Fault (Option (BitVec 32) × BitVec 32) := do
  let (s, result) ← rtEventRecv s t e set option timeout
  let s := (rtEventSend s e sent).1
  match result with
  | some _ => .ok (flagsOf result, s.set e)
  | none =>
    if (s.waits.thread t).phase = .resumed e then
      .ok (flagsOf (some (rtEventRecvEnd s t).2), (rtEventRecvEnd s t).1.set e)
    else .ok (none, s.set e)

section Single

variable {s : Events T E} {t : T} {e : E} {set sent : BitVec 32} {option : BitVec 8}
  {timeout timeout' : ℤ}

/-- What one receiver gets: its flags that are in the set, if its condition is satisfied. -/
def outcome (option : BitVec 8) (want set : BitVec 32) : Option (BitVec 32) × BitVec 32 :=
  if satisfies option want set then (some (set &&& want), clearSet option set want) else (none, set)

lemma rtEventSend_nil (hnil : s.waits.suspend e = []) : (rtEventSend s e sent).1 =
      { s with set := update s.set e (s.set e ||| sent) } := by
  unfold rtEventSend
  split
  case isTrue hzero =>
    rw [hzero, show s.set e ||| 0 = s.set e from BitVec.or_zero, update_eq_self]
  case isFalse => simp only [hnil, List.foldl_nil]

lemma sendThenRecv_eq (hnil : s.waits.suspend e = []) (hset : set ≠ 0)
    (hlegal : option &&& rtEventFlagAnd ≠ 0 ∨ option &&& rtEventFlagOr ≠ 0) :
    sendThenRecv s t e set option timeout sent = .ok (outcome option set (s.set e ||| sent)) := by
  unfold sendThenRecv outcome
  rw [rtEventSend_nil hnil, rtEventRecv_eq hset hlegal]
  simp only [update_self]
  split
  · simp [flagsOf]
  · split <;> simp [flagsOf]

lemma rtEventSend_single {timed : Bool} (hone : s.waits.suspend e = [t])
    (hwait : (s.waits.thread t).phase = .waiting e timed)
    (hnot : satisfies (s.eventInfo t) (s.eventSet t) (s.set e) = false) :
    (rtEventSend s e sent).1 =
      if satisfies (s.eventInfo t) (s.eventSet t) (s.set e ||| sent) then
        { waits := s.waits.takeOut e t
          set := update s.set e (clearSet (s.eventInfo t) (s.set e ||| sent)
            (received (s.eventInfo t) (s.eventSet t) (s.set e ||| sent)))
          eventSet := update s.eventSet t
            (received (s.eventInfo t) (s.eventSet t) (s.set e ||| sent))
          eventInfo := s.eventInfo }
      else { s with set := update s.set e (s.set e ||| sent) } := by
  unfold rtEventSend
  split
  case isTrue hzero =>
    have hsame : s.set e ||| sent = s.set e := by rw [hzero]; exact BitVec.or_zero
    rw [hsame, hnot, update_eq_self]
    rfl
  case isFalse =>
    simp only [hone, List.foldl_cons, List.foldl_nil]
    rw [examine_eq]
    simp only [update_self, update_idem]
    have hresume : s.waits.resume t = s.waits.takeOut e t := by
      rw [Waits.resume, hwait]
    rw [hresume]

lemma recvThenSend_eq (hnil : s.waits.suspend e = []) (hset : set ≠ 0)
    (hlegal : option &&& rtEventFlagAnd ≠ 0 ∨ option &&& rtEventFlagOr ≠ 0) (htime : timeout ≠ 0)
    (hnot : satisfies option set (s.set e) = false) :
    recvThenSend s t e set option timeout sent = .ok (outcome option set (s.set e ||| sent)) := by
  unfold recvThenSend outcome
  rw [rtEventRecv_eq hset hlegal, if_neg (by simp [hnot]), if_neg htime, ok_bind]
  simp only
  -- the state in which the receiver waits
  set w := (s.waits.setError t .eok).suspendThread e t timeout with hw
  have hone : w.suspend e = [t] := by
    have hnil' : (s.waits.setError t .eok).suspend e = [] := hnil
    rw [hw, Waits.suspend_suspendThread_self, hnil']
    cases (s.waits.setError t .eok).flag e <;> rfl
  have hthread : w.thread t =
      { s.waits.thread t with error := .eok, phase := .waiting e (decide (0 < timeout)) } := by
    rw [hw, Waits.thread_suspendThread_self, Waits.thread_setError_self]
  have hphase : (w.thread t).phase = .waiting e (decide (0 < timeout)) := by rw [hthread]
  rw [rtEventSend_single hone hphase (by simpa using hnot)]
  simp only [update_self]
  by_cases hsat : satisfies option set (s.set e ||| sent) = true
  · -- the send releases the receiver
    simp [hsat, hthread, rtEventRecvEnd, flagsOf, received_eq hsat, clearSet_received]
  · simp [hsat, hthread]

end Single

/-- For a single receiver that would have to wait, it makes no difference whether it waits for a send
or comes after it: it receives the same flags, or none in both cases, and the event has the same set
at the end. -/
theorem recvThenSend_eq_sendThenRecv (s : Events T E) (t : T) (e : E) (set sent : BitVec 32)
    (option : BitVec 8) (timeout timeout' : ℤ) (hsingle : s.waits.suspend e = [])
    (hlegal : option &&& rtEventFlagAnd ≠ 0 ∨ option &&& rtEventFlagOr ≠ 0)
    (htime : timeout ≠ 0) (hwait : set ≠ 0 → satisfies option set (s.set e) = false) :
    ∃ result, recvThenSend s t e set option timeout sent = .ok result ∧
      sendThenRecv s t e set option timeout' sent = .ok result := by
  by_cases hset : set = 0
  · -- both calls of `rt_event_recv` fail at once
    refine ⟨(none, s.set e ||| sent), ?_, ?_⟩
    · simp [recvThenSend, rtEventRecv, hset, flagsOf, rtEventSend_nil hsingle]
    · simp [sendThenRecv, rtEventRecv, hset, flagsOf, rtEventSend_nil hsingle]
  · exact ⟨outcome option set (s.set e ||| sent),
      recvThenSend_eq hsingle hset hlegal htime (hwait hset), sendThenRecv_eq hsingle hset hlegal⟩

def oneEvent : Events Unit Unit where
  waits := ⟨fun _ => ⟨20, .eok, .running⟩, fun _ => [], fun _ => .prio⟩
  set := fun _ => 1
  eventSet := fun _ => 0
  eventInfo := fun _ => 0

/-- A receiver that wants one of the flags 2 and 4 and clears them, and a send of the flag 2. -/
theorem receives_flag_before_and_after_send :
    recvThenSend oneEvent () () 6 6 100 2 = .ok (some 2, 1) ∧
      ∃ result, recvThenSend oneEvent () () 6 6 100 2 = .ok result ∧
        sendThenRecv oneEvent () () 6 6 100 2 = .ok result :=
  ⟨rfl, recvThenSend_eq_sendThenRecv oneEvent () () 6 2 6 100 100 rfl (by decide) (by decide)
    (by decide)⟩

end Ipc
