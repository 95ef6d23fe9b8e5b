import TempSns.Timer.Rows

/-!
# Interleaved calls

The machine runs any number of contexts (threads and interrupt handlers) that call `rt_timer_start`,
`rt_timer_stop` and `rt_timer_control`, together with the tick counter and the two expiry
functions. A call is cut at the borders of its critical sections.

* `rt_timer_check` runs with interrupts disabled: while it is active only its own context moves.
  A timeout function is a sequence of calls of that context.
* `rt_soft_timer_check` runs with interrupts enabled; other contexts move between its parts, in
  particular while a timeout function runs. What it does from one timeout function to the next, the test
  and the removal of a timer, is one step: a run in which an interrupt changes the soft timer list
  in the middle of it is not a run of the machine.
-/

namespace Timer

open Links WrapTime Function Option

/-- Where a context is in its current call. -/
inductive Call (X : Type) where
  | idle
  /-- `rt_timer_start` was called. -/
  | startEntered (x : X)
  /-- `rt_timer_start` was called by an expiry function for a periodic timer. -/
  | rearm (x : X)
  /-- Behind the first critical section of `rt_timer_start`. -/
  | startRemoved (x : X)
  /-- The deadline is set, before the second critical section of `rt_timer_start`. -/
  | startTicked (x : X)
  /-- `rt_timer_stop` has found the timer activated. -/
  | stopChecked (x : X)
  /-- Behind the critical section of `rt_timer_stop`. -/
  | stopRemoved (x : X)
  deriving DecidableEq

/-- An active `rt_timer_check`. -/
structure Check (X C : Type) where
  /-- The interrupted context, or the clock interrupt itself. -/
  ctx : C
  currentTick : BitVec 32
  /-- The timer whose timeout function runs. -/
  firing : Option X

/-- An active `rt_soft_timer_check`. -/
structure SoftCheck (X C : Type) where
  ctx : C
  currentTick : BitVec 32
  /-- The node `n` from which the loop goes on. -/
  node : RowNode X
  /-- The timer whose timeout function runs. -/
  firing : Option X

/-- All timers, the contexts and the active expiry functions. -/
structure Machine (X C : Type) where
  st : State X
  call : C → Call X
  /-- `rt_timer_check`, if it is active. -/
  check : Option (Check X C)
  /-- `rt_soft_timer_check`, if it is active. -/
  softCheck : Option (SoftCheck X C)
  /-- The number of the start that linked the timer last. -/
  order : X → ℕ
  starts : ℕ
  /-- A stop of the timer succeeded, and the timer was not linked since. -/
  stopped : X → Bool

variable {X C : Type} [DecidableEq X] [DecidableEq C]

inductive Act (X C : Type) where
  /-- A context calls `rt_timer_start`. -/
  | start (c : C) (x : X)
  /-- A context calls `rt_timer_stop`. -/
  | stop (c : C) (x : X)
  /-- A context calls `rt_timer_control`. -/
  | control (c : C) (x : X) (cmd : Command)
  /-- A context does the next part of its call. -/
  | next (c : C)
  /-- The tick counter advances. -/
  | tick
  /-- `rt_timer_check` is called. -/
  | checkEnter (c : C)
  /-- `rt_timer_check` goes on. -/
  | checkNext
  /-- `rt_soft_timer_check` is called. -/
  | softEnter (c : C)
  /-- `rt_soft_timer_check` goes on. -/
  | softNext

namespace Machine

/-- The context may move: interrupts are enabled, or it is the one that disabled them. -/
def mayRun (m : Machine X C) (c : C) : Bool :=
  match m.check with
  | none => true
  | some k => decide (k.ctx = c)

def mayCall (m : Machine X C) (c : C) : Prop := m.mayRun c = true ∧ m.call c = .idle

instance (m : Machine X C) (c : C) : Decidable (m.mayCall c) :=
  inferInstanceAs (Decidable (_ ∧ _))

/-- Move the context `c`. -/
def setCall (m : Machine X C) (c : C) (p : Call X) : Machine X C :=
  { m with call := update m.call c p }

/-- The next part of a call. -/
def advance (cfg : Config) (fuel : ℕ) (m : Machine X C) (c : C) : Call X → Option (Machine X C)
  | .idle => none
  | .startEntered x | .rearm x =>
    some ({ m with st := startRemove cfg m.st x }.setCall c (.startRemoved x))
  | .startRemoved x =>
    (startTick m.st x).toOption.map fun st => { m with st := st }.setCall c (.startTicked x)
  | .startTicked x =>
    (startInsert cfg fuel m.st x).toOption.map fun st =>
      { m with
        st := st
        order := update m.order x m.starts
        starts := m.starts + 1
        stopped := update m.stopped x false }.setCall c .idle
  | .stopChecked x =>
    some ({ m with st := timerRemove cfg m.st x }.setCall c (.stopRemoved x))
  | .stopRemoved x =>
    some ({ m with
      st := m.st.setActivated x false
      stopped := update m.stopped x true }.setCall c .idle)

/-- The end of a timeout function: the context starts a periodic timer again. -/
def callbackReturned (m : Machine X C) (c : C) (t : X) : Machine X C :=
  if (m.st.timer t).periodic ∧ (m.st.timer t).activated then
    { m with st := m.st.setActivated t false }.setCall c (.rearm t)
  else { m with st := m.st.setActivated t false }

/-- The head of the loop of `rt_timer_check`. -/
def checkFirst (cfg : Config) (m : Machine X C) (k : Check X C) : Option X → Machine X C
  | none => { m with check := none }
  | some t =>
    if Expired m.st k.currentTick t then
      { m with st := timerRemove cfg m.st t, check := some { k with firing := some t } }
    else { m with check := none }

/-- The next part of `rt_timer_check`. -/
def checkNext (cfg : Config) (m : Machine X C) (k : Check X C) : Option (Machine X C) :=
  match k.firing with
  | none => (firstTimer cfg m.st false).toOption.map (m.checkFirst cfg k)
  | some t =>
    some { m.callbackReturned k.ctx t with check := some ⟨k.ctx, m.st.tick, none⟩ }

/-- The next part of `rt_soft_timer_check`: the end of a timeout function, or the test of the node `n`,
the step to the next node and the removal of the timer. -/
def softNext (cfg : Config) (m : Machine X C) (k : SoftCheck X C) : Option (Machine X C) :=
  match k.firing, k.node with
  | some t, _ =>
    some { m.callbackReturned k.ctx t with
      softCheck := some ⟨k.ctx, m.st.tick, k.node, none⟩ }
  | none, .head _ => some { m with softCheck := none }
  | none, .item t =>
    if Expired m.st k.currentTick t.1 then
      some { m with
        st := timerRemove cfg m.st t.1
        softCheck := some ⟨k.ctx, k.currentTick, m.st.links.next k.node, some t.1⟩ }
    else some { m with softCheck := none }

def step (cfg : Config) (fuel : ℕ) (m : Machine X C) : Act X C → Option (Machine X C)
  | .start c x => if m.mayCall c then some (m.setCall c (.startEntered x)) else none
  | .stop c x =>
    if m.mayCall c then
      if (m.st.timer x).activated then some (m.setCall c (.stopChecked x)) else some m
    else none
  | .control c x cmd =>
    if m.mayCall c then some { m with st := rtTimerControl m.st x cmd } else none
  | .next c => if m.mayRun c then m.advance cfg fuel c (m.call c) else none
  | .tick =>
    if m.check.isNone then some { m with st := { m.st with tick := m.st.tick + 1 } } else none
  | .checkEnter c =>
    if m.check.isNone ∧ m.call c = .idle then
      some { m with check := some ⟨c, m.st.tick, none⟩ }
    else none
  | .checkNext =>
    match m.check with
    | none => none
    | some k => if m.call k.ctx = .idle then m.checkNext cfg k else none
  | .softEnter c =>
    if cfg.usingSoft ∧ m.softCheck.isNone ∧ m.mayCall c then
      let n := m.st.links.next (.head (true, cfg.levels - 1))
      some { m with softCheck := some ⟨c, m.st.tick, n, none⟩ }
    else none
  | .softNext =>
    match m.softCheck with
    | none => none
    | some k => if m.mayCall k.ctx then m.softNext cfg k else none

/-- Timers that are not activated, in no list, and no calls. -/
def init (timer : X → RtTimer) (tick : BitVec 32) : Machine X C where
  st := ⟨timer, ⟨id, id⟩, 0, tick⟩
  call := fun _ => .idle
  check := none
  softCheck := none
  order := fun _ => 0
  starts := 0
  stopped := fun _ => false

/-- The steps, one case for each way through the code. -/
inductive Moves (cfg : Config) (fuel : ℕ) (m : Machine X C) : Act X C → Machine X C → Prop
  | start (c : C) (x : X) (hidle : m.call c = .idle) :
      Moves cfg fuel m (.start c x) (m.setCall c (.startEntered x))
  | stop (c : C) (x : X) (hidle : m.call c = .idle) :
      Moves cfg fuel m (.stop c x) (m.setCall c (.stopChecked x))
  /-- `rt_timer_stop` of a timer that is not activated. -/
  | stopNot (c : C) (x : X) : Moves cfg fuel m (.stop c x) m
  | control (c : C) (x : X) (cmd : Command) :
      Moves cfg fuel m (.control c x cmd) { m with st := rtTimerControl m.st x cmd }
  | startRemove (c : C) (x : X) (hc : m.call c = .startEntered x ∨ m.call c = .rearm x) :
      Moves cfg fuel m (.next c)
        ({ m with st := startRemove cfg m.st x }.setCall c (.startRemoved x))
  | startTick (c : C) (x : X) (st : State X) (hc : m.call c = .startRemoved x)
      (hok : startTick m.st x = .ok st) :
      Moves cfg fuel m (.next c) ({ m with st := st }.setCall c (.startTicked x))
  | startInsert (c : C) (x : X) (st : State X) (hc : m.call c = .startTicked x)
      (hok : startInsert cfg fuel m.st x = .ok st) :
      Moves cfg fuel m (.next c)
        ({ m with
          st := st
          order := update m.order x m.starts
          starts := m.starts + 1
          stopped := update m.stopped x false }.setCall c .idle)
  | stopRemove (c : C) (x : X) (hc : m.call c = .stopChecked x) :
      Moves cfg fuel m (.next c)
        ({ m with st := timerRemove cfg m.st x }.setCall c (.stopRemoved x))
  | stopClear (c : C) (x : X) (hc : m.call c = .stopRemoved x) :
      Moves cfg fuel m (.next c)
        ({ m with
          st := m.st.setActivated x false
          stopped := update m.stopped x true }.setCall c .idle)
  | tick : Moves cfg fuel m .tick { m with st := { m.st with tick := m.st.tick + 1 } }
  | checkEnter (c : C) (hcheck : m.check = none) :
      Moves cfg fuel m (.checkEnter c) { m with check := some ⟨c, m.st.tick, none⟩ }
  | checkEnd (k : Check X C) (hk : m.check = some k) (hidle : m.call k.ctx = .idle)
      (hf : k.firing = none) : Moves cfg fuel m .checkNext { m with check := none }
  | checkFire (k : Check X C) (t : X) (hk : m.check = some k) (hf : k.firing = none) :
      Moves cfg fuel m .checkNext
        { m with st := timerRemove cfg m.st t, check := some { k with firing := some t } }
  | checkReturn (k : Check X C) (t : X) (hk : m.check = some k) (hidle : m.call k.ctx = .idle)
      (hf : k.firing = some t) :
      Moves cfg fuel m .checkNext
        { m.callbackReturned k.ctx t with check := some ⟨k.ctx, m.st.tick, none⟩ }
  | softEnter (c : C) (hcheck : m.softCheck = none) :
      Moves cfg fuel m (.softEnter c)
        { m with
          softCheck := some ⟨c, m.st.tick, m.st.links.next (.head (true, cfg.levels - 1)), none⟩ }
  | softEnd (k : SoftCheck X C) (hk : m.softCheck = some k) (hf : k.firing = none) :
      Moves cfg fuel m .softNext { m with softCheck := none }
  | softFire (k : SoftCheck X C) (t : X × ℕ) (hk : m.softCheck = some k) (hf : k.firing = none)
      (hnode : k.node = .item t) :
      Moves cfg fuel m .softNext
        { m with
          st := timerRemove cfg m.st t.1
          softCheck := some ⟨k.ctx, k.currentTick, m.st.links.next k.node, some t.1⟩ }
  | softReturn (k : SoftCheck X C) (t : X) (hk : m.softCheck = some k)
      (hidle : m.call k.ctx = .idle) (hf : k.firing = some t) :
      Moves cfg fuel m .softNext
        { m.callbackReturned k.ctx t with softCheck := some ⟨k.ctx, m.st.tick, k.node, none⟩ }

variable {cfg : Config} {fuel : ℕ} {m m' : Machine X C} {a : Act X C}

/-- The end of a timeout function touches the context and the flag only. -/
lemma callbackReturned_frame {c : C} {t : X} :
    (m.callbackReturned c t).st = m.st.setActivated t false ∧
      (m.callbackReturned c t).check = m.check ∧
      (m.callbackReturned c t).softCheck = m.softCheck ∧
      ∀ c' x, (m.callbackReturned c t).call c' = .rearm x →
        c' = c ∧ x = t ∨ m.call c' = .rearm x := by
  unfold callbackReturned
  split
  · refine ⟨rfl, rfl, rfl, fun c' x hc => ?_⟩
    by_cases hcc : c' = c
    · refine Or.inl ⟨hcc, ?_⟩
      simpa [setCall, hcc, eq_comm] using hc
    · exact Or.inr (by simpa [setCall, hcc] using hc)
  · exact ⟨rfl, rfl, rfl, fun _ _ hc => Or.inr hc⟩

lemma moves_advance {c : C} (h : m.advance cfg fuel c (m.call c) = some m') :
    Moves cfg fuel m (.next c) m' := by
  cases hc : m.call c with
  | idle => simp [hc, advance] at h
  | startEntered x =>
    obtain rfl : _ = m' := by simpa [hc, advance] using h
    exact .startRemove c x (.inl hc)
  | rearm x =>
    obtain rfl : _ = m' := by simpa [hc, advance] using h
    exact .startRemove c x (.inr hc)
  | startRemoved x =>
    simp only [hc, advance, map_eq_some_iff] at h
    obtain ⟨st, hst, rfl⟩ := h
    exact .startTick c x st hc (toOption_eq_some.mp hst)
  | startTicked x =>
    simp only [hc, advance, map_eq_some_iff] at h
    obtain ⟨st, hst, rfl⟩ := h
    exact .startInsert c x st hc (toOption_eq_some.mp hst)
  | stopChecked x =>
    obtain rfl : _ = m' := by simpa [hc, advance] using h
    exact .stopRemove c x hc
  | stopRemoved x =>
    obtain rfl : _ = m' := by simpa [hc, advance] using h
    exact .stopClear c x hc

lemma moves_checkNext {k : Check X C} (hk : m.check = some k) (hidle : m.call k.ctx = .idle)
    (h : m.checkNext cfg k = some m') : Moves cfg fuel m .checkNext m' := by
  unfold checkNext at h
  split at h
  case h_1 hf =>
    obtain ⟨first, -, rfl⟩ := map_eq_some_iff.mp h
    unfold checkFirst
    split
    · exact .checkEnd k hk hidle hf
    · split
      · exact .checkFire k _ hk hf
      · exact .checkEnd k hk hidle hf
  case h_2 t hf =>
    obtain rfl := some.inj h
    exact .checkReturn k t hk hidle hf

lemma moves_softNext {k : SoftCheck X C} (hk : m.softCheck = some k)
    (hidle : m.call k.ctx = .idle) (h : m.softNext cfg k = some m') :
    Moves cfg fuel m .softNext m' := by
  unfold softNext at h
  split at h
  case h_1 t hf =>
    obtain rfl := some.inj h
    exact .softReturn k t hk hidle hf
  case h_2 hf _ =>
    obtain rfl := some.inj h
    exact .softEnd k hk hf
  case h_3 t hf hnode =>
    split at h
    · obtain rfl := some.inj h
      exact .softFire k t hk hf hnode
    · obtain rfl := some.inj h
      exact .softEnd k hk hf

lemma moves_step (h : m.step cfg fuel a = some m') : Moves cfg fuel m a m' := by
  cases a with
  | start c x =>
    obtain ⟨hcall, ⟨⟩⟩ := ite_none_right_eq_some.mp h
    exact .start c x hcall.2
  | stop c x =>
    obtain ⟨hcall, h⟩ := ite_none_right_eq_some.mp h
    split at h
    · obtain rfl := some.inj h
      exact .stop c x hcall.2
    · obtain rfl := some.inj h
      exact .stopNot c x
  | control c x cmd =>
    obtain ⟨-, ⟨⟩⟩ := ite_none_right_eq_some.mp h
    exact .control c x cmd
  | next c => exact moves_advance (ite_none_right_eq_some.mp h).2
  | tick =>
    obtain ⟨-, ⟨⟩⟩ := ite_none_right_eq_some.mp h
    exact .tick
  | checkEnter c =>
    obtain ⟨hcheck, ⟨⟩⟩ := ite_none_right_eq_some.mp h
    exact .checkEnter c (isNone_iff_eq_none.mp hcheck.1)
  | checkNext =>
    simp only [step] at h
    split at h
    · cases h
    case h_2 k hk =>
      obtain ⟨hidle, h⟩ := ite_none_right_eq_some.mp h
      exact moves_checkNext hk hidle h
  | softEnter c =>
    obtain ⟨hcheck, ⟨⟩⟩ := ite_none_right_eq_some.mp h
    exact .softEnter c (isNone_iff_eq_none.mp hcheck.2.1)
  | softNext =>
    simp only [step] at h
    split at h
    · cases h
    case h_2 k hk =>
      obtain ⟨hcall, h⟩ := ite_none_right_eq_some.mp h
      exact moves_softNext hk hcall.2 h

end Machine

/-- The states reached by steps that all satisfy `P`. -/
inductive Reach (cfg : Config) (P : Machine X C → Act X C → Prop) : Machine X C → Prop
  | init {timer : X → RtTimer} {tick : BitVec 32} (hinit : ∀ x, (timer x).activated = false) :
      Reach cfg P (.init timer tick)
  | step {m m' : Machine X C} {a : Act X C} {fuel : ℕ} (hm : Reach cfg P m) (ha : P m a)
      (hstep : m.step cfg fuel a = some m') : Reach cfg P m'

end Timer
