import TempSns.Timer.Check

/-!
# Expiry of the soft timers

`rt_soft_timer_check` walks over the last row of the soft timers. It reads the successor of a timer
before it removes the timer and calls the timeout function, and goes on with this node afterwards.
The timeout function runs with the scheduler unlocked, so time passes while it runs; the tick is
read again after it.

If no timeout function stops or starts the timer behind its own, the saved successor stays in the
list, and the timers that become due are at or behind it (`Walk`).

The deadlines and the ticks of a call lie on one arc of half the range that starts at `base`; `last`
is a time that the tick does not pass during the call, and the deadlines that are set during the call
lie behind it (`Ample`).
-/

namespace Timer

open Links WrapTime List Option Except

variable {X : Type} [DecidableEq X] {cfg : Config} [NeZero cfg.levels] {s s' : State X}
  {base last : BitVec 32} {rows : Bool → ℕ → List X} {ord : X → ℕ} {starts fuel : ℕ} {x y t : X} {v : Option X}

/-- What happens while the timeout function of a soft timer runs. -/
inductive SoftStep (X : Type) where
  /-- It starts, stops or changes a timer. -/
  | act (a : Action X)
  /-- Time passes. -/
  | wait (ticks : BitVec 32)
  deriving DecidableEq, Repr

def softStep (cfg : Config) (fuel : ℕ) (s : State X) :
    SoftStep X → Except Fault (State X × List X)
  | .act a => act cfg fuel s a
  | .wait ticks => .ok ({ s with tick := s.tick + ticks }, [])

/-- The timeout function of a soft timer, with the timers that it stops successfully. -/
def runSteps (cfg : Config) (fuel : ℕ) :
    State X → List (SoftStep X) → Except Fault (State X × List X)
  | s, [] => .ok (s, [])
  | s, a :: as => do
    let (s, stopped) ← softStep cfg fuel s a
    let (s, stopped') ← runSteps cfg fuel s as
    .ok (s, stopped ++ stopped')

def softExpire (cfg : Config) (fuel : ℕ) (s : State X) (t : X)
    (callback : State X → List (SoftStep X)) : Except Fault (Round X) := do
  let removed := timerRemove cfg s t
  let (returned, stopped) ← runSteps cfg fuel removed (callback removed)
  let finish ← afterCallback cfg fuel returned t
  .ok ⟨t, s, returned, finish, stopped⟩

/-- The loop of `rt_soft_timer_check`, at the node `node` of the list. The `n`-th timeout function
that is called does `callback n`. -/
def softLoop (cfg : Config) (fuel : ℕ) (callback : ℕ → X → State X → List (SoftStep X)) :
    ℕ → ℕ → BitVec 32 → RowNode X → State X → Except Fault (State X × List (Round X))
  | 0, _, _, _, _ => .error .diverges
  | rounds + 1, n, currentTick, node, s =>
    if node = .head (true, cfg.levels - 1) then .ok (s, [])
    else match node with
      | .head _ => .error .badPointer
      | .item t =>
        if Expired s currentTick t.1 then do
          -- the next node is read before the timer is removed
          let next := s.links.next node
          let round ← softExpire cfg fuel s t.1 (callback n t.1)
          let (s', log) ←
            softLoop cfg fuel callback rounds (n + 1) round.returned.tick next round.finish
          .ok (s', round :: log)
        else .ok (s, [])

def rtSoftTimerCheck (cfg : Config) (fuel : ℕ) (callback : ℕ → X → State X → List (SoftStep X))
    (s : State X) : Except Fault (State X × List (Round X)) :=
  softLoop cfg fuel callback fuel 0 s.tick (s.links.next (.head (true, cfg.levels - 1))) s

/-- `rt_soft_timer_check` returns. Every timer that it ran was in the list when its turn came, and
no timer in the list is expired at the end. -/
def SoftProcessed (cfg : Config) (callback : ℕ → X → State X → List (SoftStep X)) (s : State X) :
    Prop :=
  ∃ s' log, Returns (fun fuel => rtSoftTimerCheck cfg fuel callback s) (s', log) ∧
    (∀ r ∈ log, Pending cfg r.found true r.timer) ∧
    ∀ x, Pending cfg s' true x → ¬ Expired s' s'.tick x

/-! ## Timers that may become due -/

/-- The time `a` is reached by the time `last`. -/
def By (base last a : BitVec 32) : Prop := (a - base).toNat ≤ (last - base).toNat

/-- A deadline that is set with this time from now on lies behind `last`, on the arc. -/
def Ample (base last : BitVec 32) (s : State X) (time : BitVec 32) : Prop :=
  (last - base).toNat < (s.tick - base).toNat + time.toNat ∧
    (last - base).toNat + time.toNat < half

/-- A soft timer in the list whose deadline is reached by the time `last`. -/
def Early (cfg : Config) (base last : BitVec 32) (s : State X) (x : X) : Prop :=
  Pending cfg s true x ∧ By base last (s.timer x).timeoutTick

/-- The deadline of the timer lies behind `last`, whether it is in the list or not. -/
def Late (base last : BitVec 32) (s : State X) (x : X) : Prop :=
  InArc base (s.timer x).timeoutTick ∧ ¬ By base last (s.timer x).timeoutTick

/-- From `s` to `s'` no deadline was set to a time that is reached by `last`. -/
structure Wanes (cfg : Config) (base last : BitVec 32) (s s' : State X) : Prop where
  early : ∀ x, Early cfg base last s' x →
    Early cfg base last s x ∧ (s'.timer x).timeoutTick = (s.timer x).timeoutTick
  late : ∀ x, Late base last s x → Late base last s' x
  soft : ∀ x, (s'.timer x).soft = (s.timer x).soft

omit [DecidableEq X] [NeZero cfg.levels] in
lemma Wanes.refl (s : State X) : Wanes cfg base last s s :=
  ⟨fun _ hx => ⟨hx, rfl⟩, fun _ hx => hx, fun _ => rfl⟩

omit [DecidableEq X] [NeZero cfg.levels] in
lemma Wanes.trans {s'' : State X} (h : Wanes cfg base last s s')
    (h' : Wanes cfg base last s' s'') : Wanes cfg base last s s'' := by
  refine ⟨fun x hx => ?_, fun x hx => h'.late x (h.late x hx), fun x => (h'.soft x).trans (h.soft x)⟩
  obtain ⟨hx', heq'⟩ := h'.early x hx
  obtain ⟨hx'', heq⟩ := h.early x hx'
  exact ⟨hx'', heq'.trans heq⟩

/-- The soft timers are in order, and their deadlines and the tick are on the arc. A periodic timer
that is started again from now on gets a deadline behind `last`. -/
structure SoftReady (cfg : Config) (base last : BitVec 32) (s : State X) : Prop where
  lists : ∃ ord starts rows, Lists cfg s ord starts rows
  arc : ∀ x, Pending cfg s true x → InArc base (s.timer x).timeoutTick
  limit : InArc base last
  tick : By base last s.tick
  periods : ∀ x, (s.timer x).periodic = true → Ample base last s (s.timer x).initTick

/-- The walk is at the timer `v`, or at the end of the list: the timers whose deadlines are reached
by `last` are `v` and timers behind it. -/
structure Walk (cfg : Config) (base last : BitVec 32) (v : Option X) (s : State X) : Prop where
  lists : ∃ ord starts rows, Lists cfg s ord starts rows ∧
    ∀ x, Early cfg base last s x → ∃ a ∈ v, x = a ∨ NotAfter s ord a x
  stands : ∀ a ∈ v, Pending cfg s true a
  arc : ∀ x, Pending cfg s true x → InArc base (s.timer x).timeoutTick
  limit : InArc base last
  tick : By base last s.tick
  periods : ∀ x, (s.timer x).periodic = true → Ample base last s (s.timer x).initTick

instance (base last a : BitVec 32) : Decidable (By base last a) :=
  inferInstanceAs (Decidable (_ ≤ _))

lemma By.inArc {a : BitVec 32} (h : By base last a) (hlast : InArc base last) : InArc base a :=
  lt_of_le_of_lt h hlast

section

omit [DecidableEq X]

lemma Ample.lt_half {time : BitVec 32} (h : Ample base last s time) : time.toNat < half :=
  lt_of_le_of_lt (Nat.le_add_left _ _) h.2

lemma Ample.deadline {time : BitVec 32} (h : Ample base last s time) (hlast : InArc base last)
    (htick : By base last s.tick) :
    InArc base (s.tick + time) ∧ ¬ By base last (s.tick + time) := by
  obtain ⟨hbehind, hlt⟩ := h
  simp only [InArc, By, half, BitVec.toNat_sub, BitVec.toNat_add] at *
  omega

lemma Ample.wait {time ticks : BitVec 32} (h : Ample base last s time)
    (hwait : (s.tick - base).toNat + ticks.toNat ≤ (last - base).toNat) :
    Ample base last { s with tick := s.tick + ticks } time := by
  obtain ⟨hbehind, hlt⟩ := h
  refine ⟨?_, hlt⟩
  simp only [half, BitVec.toNat_sub, BitVec.toNat_add] at *
  omega

end

namespace Walk

variable (h : Walk cfg base last v s)

include h

omit [DecidableEq X] [NeZero cfg.levels] in
lemma by_of_expired (hx : Pending cfg s true x)
    (hexp : Expired s s.tick x) : By base last (s.timer x).timeoutTick := by
  have hle := (before_iff (h.arc x hx) (h.tick.inArc h.limit)).mp hexp
  exact le_trans hle h.tick

omit [DecidableEq X] [NeZero cfg.levels] in
/-- Nothing in the list is expired if the walk is at its end or at a timer that is not. -/
lemma not_expired (hv : ∀ a ∈ v, ¬ Expired s s.tick a)
    (hx : Pending cfg s true x) : ¬ Expired s s.tick x := by
  intro hexp
  obtain ⟨ord, starts, rows, -, hbehind⟩ := h.lists
  obtain ⟨a, ha, rfl | hax⟩ := hbehind x ⟨hx, h.by_of_expired hx hexp⟩
  · exact hv x ha hexp
  · exact hv a ha (hax.1.trans (h.arc a (h.stands a ha)) (h.arc x hx) (h.tick.inArc h.limit) hexp)

lemma pending_remove :
    Pending cfg (timerRemove cfg s x) true y ↔ y ≠ x ∧ Pending cfg s true y := by
  obtain ⟨ord, starts, rows, hlists, -⟩ := h.lists
  exact hlists.woven.pending_remove

lemma remove (hx : x ∉ v) :
    Walk cfg base last v (timerRemove cfg s x) ∧ Wanes cfg base last s (timerRemove cfg s x) := by
  obtain ⟨ord, starts, rows, hlists, hbehind⟩ := h.lists
  have hpend := fun y => h.pending_remove (x := x) (y := y)
  have hearly : ∀ y, Early cfg base last (timerRemove cfg s x) y → Early cfg base last s y :=
    fun y hy => ⟨((hpend y).mp hy.1).2, hy.2⟩
  refine ⟨⟨⟨ord, starts, _, hlists.remove x, fun y hy => hbehind y (hearly y hy)⟩, fun a ha => ?_,
    fun y hy => h.arc y ((hpend y).mp hy).2, h.limit, h.tick, h.periods⟩,
    fun y hy => ⟨hearly y hy, rfl⟩, fun y hy => hy, fun y => rfl⟩
  refine (hpend a).mpr ⟨?_, h.stands a ha⟩
  rintro rfl
  exact hx ha

omit [NeZero cfg.levels] in
/-- A change of a timer that is neither its kind nor its deadline. -/
lemma setTimer {r : RtTimer}
    (hdead : r.timeoutTick = (s.timer x).timeoutTick) (hsoft : r.soft = (s.timer x).soft)
    (hperiod : r.periodic = true → Ample base last s r.initTick) :
    Walk cfg base last v (s.setTimer x r) ∧ Wanes cfg base last s (s.setTimer x r) := by
  obtain ⟨ord, starts, rows, hlists, hbehind⟩ := h.lists
  have hdead' : ∀ y, ((s.setTimer x r).timer y).timeoutTick = (s.timer y).timeoutTick := fun _ =>
    timer_setTimer (f := RtTimer.timeoutTick) hdead
  have hpend : ∀ y, Pending cfg (s.setTimer x r) true y ↔ Pending cfg s true y :=
    fun y => pending_congr rfl
  have hearly : ∀ y, Early cfg base last (s.setTimer x r) y ↔ Early cfg base last s y := fun y => by
    rw [Early, Early, hpend, hdead']
  refine ⟨⟨⟨ord, starts, rows, hlists.congr rfl (fun y _ => hdead' y) fun _ => soft_setTimer hsoft,
      fun y hy => ?_⟩,
    fun a ha => (hpend a).mpr (h.stands a ha), fun y hy => ?_, h.limit, h.tick, fun y hy => ?_⟩,
    fun y hy => ⟨(hearly y).mp hy, hdead' y⟩, fun y hy => ?_, fun _ => soft_setTimer hsoft⟩
  · refine (hbehind y ((hearly y).mp hy)).imp fun a ha => ⟨ha.1, ha.2.imp_right fun hay => ?_⟩
    rw [NotAfter, hdead', hdead']
    exact hay
  · rw [hdead']
    exact h.arc y ((hpend y).mp hy)
  · by_cases hyx : y = x
    · rw [hyx, setTimer_self] at hy ⊢
      exact hperiod hy
    · rw [setTimer_of_ne hyx] at hy ⊢
      exact h.periods y hy
  · rw [Late, hdead']
    exact hy

omit [NeZero cfg.levels] [DecidableEq X] in
lemma wait {ticks : BitVec 32}
    (hwait : (s.tick - base).toNat + ticks.toNat ≤ (last - base).toNat) :
    Walk cfg base last v { s with tick := s.tick + ticks } ∧
      Wanes cfg base last s { s with tick := s.tick + ticks } := by
  obtain ⟨ord, starts, rows, hlists, hbehind⟩ := h.lists
  refine ⟨⟨⟨ord, starts, rows, hlists.congr rfl (fun _ _ => rfl) fun _ => rfl, hbehind⟩, h.stands,
    h.arc, h.limit, ?_, fun y hy => (h.periods y hy).wait hwait⟩,
    fun y hy => ⟨hy, rfl⟩, fun y hy => hy, fun y => rfl⟩
  simp only [By, BitVec.toNat_sub, BitVec.toNat_add] at *
  omega

lemma start (hx : x ∉ v)
    (hkind : listOf cfg s x = true) (hample : Ample base last s (s.timer x).initTick) :
    ∃ s', Returns (fun fuel => rtTimerStart cfg fuel s x) s' ∧ Walk cfg base last v s' ∧
      Wanes cfg base last s s' ∧ s'.tick = s.tick ∧ Late base last s' x := by
  obtain ⟨ord, starts, rows, hlists, hbehind⟩ := h.lists
  obtain ⟨-, s', -, hpend, hother, hself, htick, ⟨n, hret⟩, -⟩ :=
    hlists.woven.start hample.lt_half
  obtain ⟨hbase, hlate⟩ := hample.deadline h.limit h.tick
  obtain ⟨rows', hlists'⟩ := hlists.start hample.lt_half hbase (by rw [hkind]; exact h.arc)
    (hret n le_rfl)
  have hself' : (s'.timer x).timeoutTick = s.tick + (s.timer x).initTick := by rw [hself]
  have hlatex : Late base last s' x := by
    rw [Late, hself']
    exact ⟨hbase, hlate⟩
  have hpend' : ∀ y ≠ x, Pending cfg s' true y ↔ Pending cfg s true y := fun y hyx => by
    rw [hpend, or_iff_right fun heq => hyx heq.1, and_iff_right hyx]
  -- the timer itself is behind `last`
  have hearly : ∀ y, Early cfg base last s' y → y ≠ x ∧ Early cfg base last s y := fun y hy => by
    have hyx : y ≠ x := fun heq => hlatex.2 (heq ▸ hy.2)
    refine ⟨hyx, (hpend' y hyx).mp hy.1, ?_⟩
    rw [← hother y hyx]
    exact hy.2
  have hne : ∀ a ∈ v, a ≠ x := fun a ha heq => hx (heq ▸ ha)
  refine ⟨s', ⟨n, hret⟩, ⟨⟨_, _, rows', hlists', fun y hy => ?_⟩, fun a ha => ?_, fun y hy => ?_,
    h.limit, ?_, fun y hy => ?_⟩, ⟨fun y hy => ?_, fun y hy => ?_, fun y => ?_⟩, htick, hlatex⟩
  · obtain ⟨hyx, hy'⟩ := hearly y hy
    refine (hbehind y hy').imp fun a ha => ⟨ha.1, ha.2.imp_right fun hay => ?_⟩
    rw [NotAfter, hother a (hne a ha.1), hother y hyx, Function.update_of_ne (hne a ha.1),
      Function.update_of_ne hyx]
    exact hay
  · exact (hpend' a (hne a ha)).mpr (h.stands a ha)
  · by_cases hyx : y = x
    · rw [hyx]
      exact hlatex.1
    · rw [hother y hyx]
      exact h.arc y ((hpend' y hyx).mp hy)
  · rw [htick]
    exact h.tick
  · by_cases hyx : y = x
    · rw [Ample, hyx, hself, htick]
      exact hample
    · rw [hother y hyx] at hy
      rw [Ample, hother y hyx, htick]
      exact h.periods y hy
  · obtain ⟨hyx, hy'⟩ := hearly y hy
    exact ⟨hy', by rw [hother y hyx]⟩
  · by_cases hyx : y = x
    · exact hyx ▸ hlatex
    · rw [Late, hother y hyx]
      exact hy
  · by_cases hyx : y = x
    · rw [hyx, hself]
    · rw [hother y hyx]

end Walk

/-! ## Timeout functions -/

/-- A timeout function may do this in `s`: start, stop and change soft timers, with deadlines behind
`last`, and take time until `last`. -/
def SoftPermits (cfg : Config) (base last : BitVec 32) (s : State X) : SoftStep X → Prop
  | .act (.start x) => listOf cfg s x = true ∧ Ample base last s (s.timer x).initTick
  | .act (.stop _) => True
  | .act (.control x (.setTime time)) => (s.timer x).periodic = true → Ample base last s time
  | .act (.control _ .setOneshot) => True
  | .act (.control x .setPeriodic) => Ample base last s (s.timer x).initTick
  | .wait ticks => (s.tick - base).toNat + ticks.toNat ≤ (last - base).toNat

/-- A timeout function may do all this, one after the other. -/
def SoftAllowed (cfg : Config) (base last : BitVec 32) : State X → List (SoftStep X) → Prop
  | _, [] => True
  | s, a :: as => SoftPermits cfg base last s a ∧
      ∀ fuel s' stopped, softStep cfg fuel s a = .ok (s', stopped) →
        SoftAllowed cfg base last s' as

/-- The step neither starts nor stops the timer `v`. -/
def Spares (v : Option X) : SoftStep X → Prop
  | .act (.start x) => x ∉ v
  | .act (.stop x) => x ∉ v
  | _ => True

omit [DecidableEq X] in
lemma spares_none (a : SoftStep X) : Spares none a := by
  rcases a with ⟨_ | _ | _⟩ | _
  · exact not_mem_none _
  · exact not_mem_none _
  · exact trivial
  · exact trivial

namespace Walk

omit [NeZero cfg.levels] in
lemma setActivated (h : Walk cfg base last v s) (x : X) (b : Bool) :
    Walk cfg base last v (s.setActivated x b) ∧ Wanes cfg base last s (s.setActivated x b) :=
  h.setTimer rfl rfl (h.periods x)

omit [NeZero cfg.levels] in
lemma control (h : Walk cfg base last v s) {cmd : Command}
    (hp : SoftPermits cfg base last s (.act (.control x cmd))) :
    Walk cfg base last v (rtTimerControl s x cmd) ∧
      Wanes cfg base last s (rtTimerControl s x cmd) := by
  cases cmd with
  | setTime time => exact h.setTimer rfl rfl hp
  | setOneshot => exact h.setTimer rfl rfl nofun
  | setPeriodic => exact h.setTimer rfl rfl fun _ => hp

lemma softStep (h : Walk cfg base last v s) {a : SoftStep X}
    (hp : SoftPermits cfg base last s a) (hv : Spares v a) :
    ∃ s' stopped, Returns (fun fuel => softStep cfg fuel s a) (s', stopped) ∧
      Walk cfg base last v s' ∧ Wanes cfg base last s s' := by
  rcases a with ⟨x | x | ⟨x, cmd⟩⟩ | ticks
  · obtain ⟨s', hret, hwalk, hwanes, -⟩ := h.start hv hp.1 hp.2
    exact ⟨s', [], hret.map fun s => (s, []), hwalk, hwanes⟩
  · cases hact : (s.timer x).activated with
    | true =>
      obtain ⟨hwalk, hwanes⟩ := h.remove hv
      obtain ⟨hwalk', hwanes'⟩ := hwalk.setActivated x false
      exact ⟨startRemove cfg s x, [x], ⟨0, fun fuel _ => act_stop hact fuel⟩, hwalk',
        hwanes.trans hwanes'⟩
    | false => exact ⟨s, [], ⟨0, fun fuel _ => act_stop_inactive hact fuel⟩, h, .refl s⟩
  · obtain ⟨hwalk, hwanes⟩ := h.control hp
    exact ⟨_, [], .const _, hwalk, hwanes⟩
  · obtain ⟨hwalk, hwanes⟩ := h.wait hp
    exact ⟨_, [], .const _, hwalk, hwanes⟩

lemma runSteps {as : List (SoftStep X)} :
    ∀ {s : State X}, Walk cfg base last v s → SoftAllowed cfg base last s as →
    (∀ a ∈ as, Spares v a) →
    ∃ s' stopped, Returns (fun fuel => runSteps cfg fuel s as) (s', stopped) ∧
      Walk cfg base last v s' ∧ Wanes cfg base last s s' := by
  induction as with
  | nil =>
    intro s h _ _
    exact ⟨s, [], .const _, h, .refl s⟩
  | cons a as ih =>
    intro s h hallow hv
    obtain ⟨s1, stopped1, ⟨n, hn⟩, hwalk1, hwanes1⟩ :=
      h.softStep hallow.1 (hv a mem_cons_self)
    obtain ⟨s2, stopped2, hret2, hwalk2, hwanes2⟩ := ih hwalk1
      (hallow.2 n s1 stopped1 (hn n le_rfl)) fun b hb => hv b (mem_cons_of_mem a hb)
    refine ⟨s2, stopped1 ++ stopped2, ?_, hwalk2, hwanes1.trans hwanes2⟩
    exact Returns.append (g := fun fuel s => Timer.runSteps cfg fuel s as) ⟨n, hn⟩ hret2

lemma afterCallback (h : Walk cfg base last v s) (ht : t ∉ v) (hkind : listOf cfg s t = true) :
    ∃ s', Returns (fun fuel => afterCallback cfg fuel s t) s' ∧ Walk cfg base last v s' ∧
      Wanes cfg base last s s' ∧ s'.tick = s.tick := by
  obtain ⟨hwalk, hwanes⟩ := h.setActivated t false
  by_cases hrearm : (s.timer t).periodic ∧ (s.timer t).activated
  · have hself : (s.setActivated t false).timer t = { s.timer t with activated := false } :=
      setTimer_self
    have hkind' : listOf cfg (s.setActivated t false) t = true := by
      rw [listOf, hself]
      exact hkind
    have hample : Ample base last (s.setActivated t false)
        ((s.setActivated t false).timer t).initTick := by
      rw [hself]
      exact h.periods t hrearm.1
    obtain ⟨s', hret, hwalk', hwanes', htick, -⟩ := hwalk.start ht hkind' hample
    refine ⟨s', hret.imp fun n hn fuel hfuel => ?_, hwalk', hwanes.trans hwanes', htick⟩
    simp only [Timer.afterCallback, if_pos hrearm]
    exact hn fuel hfuel
  · refine ⟨_, ⟨0, fun fuel _ => ?_⟩, hwalk, hwanes, rfl⟩
    simp only [Timer.afterCallback, if_neg hrearm]

lemma softExpire (h : Walk cfg base last v (timerRemove cfg s t))
    (ht : t ∉ v) (hkind : listOf cfg s t = true) {callback : State X → List (SoftStep X)}
    (hallow : SoftAllowed cfg base last (timerRemove cfg s t) (callback (timerRemove cfg s t)))
    (hv : ∀ a ∈ callback (timerRemove cfg s t), Spares v a) :
    ∃ r, Returns (fun fuel => softExpire cfg fuel s t callback) r ∧ r.timer = t ∧ r.found = s ∧
      Walk cfg base last v r.finish ∧ Wanes cfg base last (timerRemove cfg s t) r.finish ∧
      r.returned.tick = r.finish.tick := by
  obtain ⟨returned, stopped, hret, hwalk, hwanes⟩ := runSteps h hallow hv
  have hkind' : listOf cfg returned t = true := by
    rw [listOf, hwanes.soft]
    exact hkind
  obtain ⟨finish, hret', hwalk', hwanes', htick⟩ := hwalk.afterCallback ht hkind'
  refine ⟨⟨t, s, returned, finish, stopped⟩, ?_, rfl, rfl, hwalk', hwanes.trans hwanes', htick.symm⟩
  exact Returns.bind (g := fun fuel p => do
    let finish ← Timer.afterCallback cfg fuel p.1 t
    .ok (Round.mk t s p.1 finish p.2)) hret (Returns.bind
      (g := fun _ finish => .ok (Round.mk t s returned finish stopped)) hret' (.const _))

end Walk

/-! ## Walk -/

def nodeOf (cfg : Config) : Option X → RowNode X
  | none => .head (true, cfg.levels - 1)
  | some t => .item (t, cfg.levels - 1)

omit [DecidableEq X] in
lemma SoftReady.walk (h : SoftReady cfg base last s) :
    ∃ v, s.links.next (.head (true, cfg.levels - 1)) = nodeOf cfg v ∧ Walk cfg base last v s := by
  obtain ⟨ord, starts, rows, hlists⟩ := h.lists
  have hrow : rowLists cfg.levels rows (true, cfg.levels - 1) = _ := rowLists_of_lt (last_lt cfg)
  have hsorted := (hlists.nested true).sorted (cfg.levels - 1) (last_lt cfg)
  have hpend : ∀ {x}, Pending cfg s true x ↔ x ∈ rows true (cfg.levels - 1) :=
    hlists.stored.pending_iff
  refine ⟨(rows true (cfg.levels - 1)).head?, ?_, ⟨ord, starts, rows, hlists, fun x hx => ?_⟩,
    fun a ha => hpend.mpr (mem_of_head? ha), h.arc, h.limit, h.tick, h.periods⟩
  · cases hxs : rows true (cfg.levels - 1) with
    | nil =>
      rw [hxs, map_nil] at hrow
      exact hlists.stored.isEmpty_iff.mpr hrow
    | cons t xs =>
      rw [hxs, map_cons] at hrow
      exact hlists.stored.next_head hrow
  · have hmem := hpend.mp hx.1
    cases hxs : rows true (cfg.levels - 1) with
    | nil =>
      rw [hxs] at hmem
      cases hmem
    | cons t xs =>
      rw [hxs] at hmem hsorted
      refine ⟨t, rfl, (mem_cons.mp hmem).imp_right fun hx => ?_⟩
      exact (pairwise_cons.mp hsorted).1 x hx

lemma Walk.next (h : Walk cfg base last (some t) s) (hexp : Expired s s.tick t) :
    ∃ v, s.links.next (nodeOf cfg (some t)) = nodeOf cfg v ∧ t ∉ v ∧
      Walk cfg base last v (timerRemove cfg s t) := by
  obtain ⟨ord, starts, rows, hlists, hbehind⟩ := h.lists
  have hpend : ∀ {x}, Pending cfg s true x ↔ x ∈ rows true (cfg.levels - 1) :=
    hlists.stored.pending_iff
  have ht := h.stands t rfl
  have hrow : rowLists cfg.levels rows (true, cfg.levels - 1) = _ := rowLists_of_lt (last_lt cfg)
  have hsorted := (hlists.nested true).sorted (cfg.levels - 1) (last_lt cfg)
  have hnodup := hlists.stored.nodup (k := true) (last_lt cfg)
  obtain ⟨us, vs, hxs⟩ := append_of_mem (hpend.mp ht)
  rw [hxs] at hrow hsorted hnodup
  simp only [hxs] at hpend
  have hpend' := fun x => h.pending_remove (x := t) (y := x)
  -- a timer before `t` would be reached as well, and `t` would not be behind it
  have hfront : ∀ u ∈ us, ¬ Early cfg base last s u := fun u hu hearly => by
    have hut : NotAfter s ord u t :=
      (pairwise_append.mp hsorted).2.2 u hu t mem_cons_self
    obtain ⟨a, ha, hua⟩ := hbehind u hearly
    obtain rfl := some.inj ha
    rcases hua with rfl | htu
    · exact (nodup_append.mp hnodup).2.2 u hu u mem_cons_self rfl
    · have heq := hut.1.antisymm (h.arc u hearly.1) (h.arc t ht) htu.1
      have hlt := hut.2 heq
      have hgt := htu.2 heq.symm
      omega
  have hwalk : ∀ v : Option X, t ∉ v → (∀ a ∈ v, a ∈ vs) →
      (∀ x ∈ vs, ∃ a ∈ v, x = a ∨ NotAfter s ord a x) →
      Walk cfg base last v (timerRemove cfg s t) := fun v htv hmem hvs => by
    refine ⟨⟨ord, starts, _, hlists.remove t, fun x hx => ?_⟩, fun a ha => ?_,
      fun x hx => h.arc x ((hpend' x).mp hx).2, h.limit, h.tick, h.periods⟩
    · obtain ⟨hxt, hx'⟩ := (hpend' x).mp hx.1
      rcases mem_append.mp (hpend.mp hx') with hu | hv
      · exact absurd ⟨hx', hx.2⟩ (hfront x hu)
      · exact hvs x ((mem_cons.mp hv).resolve_left hxt)
    · refine (hpend' a).mpr ⟨fun heq => htv (heq ▸ ha), hpend.mpr ?_⟩
      exact mem_append_right us (mem_cons_of_mem t (hmem a ha))
  rw [nodup_append] at hnodup
  have htvs := (nodup_cons.mp hnodup.2.1).1
  cases vs with
  | nil =>
    rw [map_append, map_cons, map_nil] at hrow
    refine ⟨none, hlists.stored.next_last hrow, not_mem_none t, hwalk none ?_ ?_ ?_⟩
    · exact not_mem_none t
    · exact nofun
    · exact nofun
  | cons a vs =>
    rw [map_append, map_cons, map_cons] at hrow
    have hta : t ∉ some a := fun heq => htvs (some.inj heq ▸ mem_cons_self)
    refine ⟨some a, hlists.stored.next_item hrow, hta, hwalk (some a) hta ?_ fun x hx => ?_⟩
    · exact fun b hb => some.inj hb ▸ mem_cons_self
    · have hvs := (pairwise_append.mp hsorted).2.1
      have hpair := (pairwise_cons.mp (pairwise_cons.mp hvs).2).1
      exact ⟨a, rfl, (mem_cons.mp hx).imp_right fun hx => hpair x hx⟩

/-- The node and the state of the loop before its `n`-th round. -/
inductive SoftAtRound (cfg : Config) (callback : ℕ → X → State X → List (SoftStep X))
    (s : State X) : ℕ → RowNode X → State X → Prop
  | zero : SoftAtRound cfg callback s 0 (s.links.next (.head (true, cfg.levels - 1))) s
  | succ {n fuel : ℕ} {s' : State X} {t : X × ℕ} {r : Round X}
      (hs : SoftAtRound cfg callback s n (.item t) s') (hexp : Expired s' s'.tick t.1)
      (hr : softExpire cfg fuel s' t.1 (callback n t.1) = .ok r) :
      SoftAtRound cfg callback s (n + 1) (s'.links.next (.item t)) r.finish

variable {callback : ℕ → X → State X → List (SoftStep X)}

omit [NeZero cfg.levels] in
lemma SoftAtRound.eq_of_zero {n : ℕ}
    {node : RowNode X} (h : SoftAtRound cfg callback s n node s') (hn : n = 0) : s' = s := by
  cases h with
  | zero => rfl
  | succ => cases hn

/-- The timeout functions that are called start, stop and change soft timers, with deadlines behind
`last`, and take time until `last`. -/
def SoftLawful (cfg : Config) (base last : BitVec 32)
    (callback : ℕ → X → State X → List (SoftStep X)) (s : State X) : Prop :=
  ∀ n s' t, SoftAtRound cfg callback s n (.item t) s' → Expired s' s'.tick t.1 →
    SoftAllowed cfg base last (timerRemove cfg s' t.1) (callback n t.1 (timerRemove cfg s' t.1))

/-- No timeout function starts or stops the timer that is behind its own timer in the list. -/
def SparesNext (cfg : Config) (callback : ℕ → X → State X → List (SoftStep X)) (s : State X) :
    Prop :=
  ∀ n s' t v, SoftAtRound cfg callback s n (.item t) s' → Expired s' s'.tick t.1 →
    s'.links.next (.item t) = nodeOf cfg v →
    ∀ a ∈ callback n t.1 (timerRemove cfg s' t.1), Spares v a

omit [NeZero cfg.levels] in
lemma softLoop_succ {rounds n : ℕ}
    {r : Round X} (hexp : Expired s s.tick t)
    (hround : softExpire cfg fuel s t (callback n t) = .ok r) :
    softLoop cfg fuel callback (rounds + 1) n s.tick (nodeOf cfg (some t)) s =
      (softLoop cfg fuel callback rounds (n + 1) r.returned.tick
        (s.links.next (nodeOf cfg (some t))) r.finish).map fun p => (p.1, r :: p.2) := by
  simp only [nodeOf]
  rw [softLoop, if_neg nofun]
  simp only [hexp, if_true, hround, ok_bind]
  cases softLoop cfg fuel callback rounds (n + 1) r.returned.tick
    (s.links.next (.item (t, cfg.levels - 1))) r.finish <;> rfl

omit [NeZero cfg.levels] in
/-- The loop ends at the end of the list and at a timer that is not expired. -/
lemma softLoop_stop {rounds n : ℕ}
    (hv : ∀ a ∈ v, ¬ Expired s s.tick a) :
    softLoop cfg fuel callback (rounds + 1) n s.tick (nodeOf cfg v) s = .ok (s, []) := by
  cases v with
  | none =>
    simp only [nodeOf]
    rw [softLoop, if_pos rfl]
  | some t =>
    simp only [nodeOf]
    rw [softLoop, if_neg nofun]
    simp only [hv t rfl, if_false]

omit [DecidableEq X] in
lemma Walk.kind (h : Walk cfg base last v s)
    (hx : Pending cfg s true x) : listOf cfg s x = true := by
  obtain ⟨ord, starts, rows, hlists, -⟩ := h.lists
  have hmem := hlists.stored.pending_iff.mp hx
  exact (hlists.kind true _ (last_lt cfg) x hmem).symm

/-- The loop from the node of `v` on, by induction on the number of timers whose deadlines are
reached by `last`. -/
lemma Walk.softLoop {s₀ : State X}
    (hlawful : SoftLawful cfg base last callback s₀) (hspares : SparesNext cfg callback s₀) (k : ℕ) :
    ∀ {n : ℕ} {v : Option X} {s : State X}, Walk cfg base last v s →
    SoftAtRound cfg callback s₀ n (nodeOf cfg v) s → {x | Early cfg base last s x}.ncard = k →
    ∃ s' log, (∃ N, ∀ fuel ≥ N, ∀ rounds ≥ N,
        softLoop cfg fuel callback rounds n s.tick (nodeOf cfg v) s = .ok (s', log)) ∧
      (∀ r ∈ log, Pending cfg r.found true r.timer) ∧
      ∀ x, Pending cfg s' true x → ¬ Expired s' s'.tick x := by
  induction k using Nat.strong_induction_on with
  | _ k ih =>
  intro n v s h hat hcard
  by_cases hstop : ∀ a ∈ v, ¬ Expired s s.tick a
  · refine ⟨s, [], ⟨1, fun fuel _ rounds hrounds => ?_⟩, nofun, fun x hx => h.not_expired hstop hx⟩
    obtain ⟨rounds, rfl⟩ := Nat.exists_eq_add_of_le' hrounds
    exact softLoop_stop hstop
  · push Not at hstop
    obtain ⟨t, rfl, hexp⟩ := hstop
    have ht := h.stands t rfl
    obtain ⟨v, hnext, htv, hwalk⟩ := h.next hexp
    obtain ⟨r, ⟨N, hret⟩, hrt, hrs, hwalk', hwanes, htick⟩ := hwalk.softExpire htv
      (h.kind ht) (hlawful n s _ hat hexp) (hspares n s _ v hat hexp hnext)
    have hat' : SoftAtRound cfg callback s₀ (n + 1) (nodeOf cfg v) r.finish :=
      hnext ▸ .succ hat hexp (hret N le_rfl)
    -- `t` was reached by `last`, and is not any more
    obtain ⟨ord, starts, rows, hlists, -⟩ := h.lists
    have hlt : {x | Early cfg base last r.finish x}.ncard < k := by
      rw [← hcard]
      apply Set.ncard_lt_ncard _ (hlists.stored.finite_pending.subset fun x hx => hx.1)
      refine Set.ssubset_iff_of_subset (fun x hx => ?_) |>.mpr
        ⟨t, ⟨ht, h.by_of_expired ht hexp⟩, fun hx => ?_⟩
      · obtain ⟨hx', -⟩ := hwanes.early x hx
        exact ⟨(h.pending_remove.mp hx'.1).2, hx'.2⟩
      · exact (h.pending_remove.mp (hwanes.early t hx).1.1).1 rfl
    obtain ⟨s', log, ⟨N', hloop⟩, hlog, hend⟩ := ih _ hlt hwalk' hat' rfl
    refine ⟨s', r :: log, ⟨max N N' + 1, fun fuel hfuel rounds hrounds => ?_⟩, fun r' hr' => ?_, hend⟩
    · obtain ⟨rounds, rfl⟩ := Nat.exists_eq_add_of_le' (show 1 ≤ rounds by omega)
      rw [softLoop_succ hexp (hret fuel (by omega)), hnext, htick,
        hloop fuel (by omega) rounds (by omega)]
      rfl
    · rcases mem_cons.mp hr' with rfl | hr'
      · rw [hrt, hrs]
        exact ht
      · exact hlog r' hr'

/-! ## One timer, and two -/

/-- At most one timer becomes due during the call, if one is due at its beginning. -/
def AtMostOneDue (cfg : Config) (base last : BitVec 32) (s : State X) : Prop :=
  ∀ x y, Pending cfg s true x → Expired s s.tick x → Early cfg base last s y → x = y

/-- With one timer the walk ends behind it, whatever is done to the timer that is there. -/
lemma Walk.softProcessed_of_one
    (h : Walk cfg base last v s)
    (hfirst : s.links.next (.head (true, cfg.levels - 1)) = nodeOf cfg v)
    (hlawful : SoftLawful cfg base last callback s) (hone : AtMostOneDue cfg base last s) :
    SoftProcessed cfg callback s := by
  have hat : SoftAtRound cfg callback s 0 (nodeOf cfg v) s := hfirst ▸ .zero
  by_cases hstop : ∀ a ∈ v, ¬ Expired s s.tick a
  · refine ⟨s, [], ⟨1, fun fuel hfuel => ?_⟩, nofun, fun x hx => h.not_expired hstop hx⟩
    obtain ⟨rounds, rfl⟩ := Nat.exists_eq_add_of_le' hfuel
    change Timer.softLoop _ _ _ _ _ _ _ _ = _
    rw [hfirst]
    exact softLoop_stop hstop
  · push Not at hstop
    obtain ⟨t, rfl, hexp⟩ := hstop
    have ht := h.stands t rfl
    obtain ⟨v, hnext, htv, hwalk⟩ := h.next hexp
    obtain ⟨ord, starts, rows, hlists, -⟩ := hwalk.lists
    have hnone : ∀ x, ¬ Early cfg base last (timerRemove cfg s t) x := fun x hx => by
      obtain ⟨hxt, hx'⟩ := h.pending_remove.mp hx.1
      exact hxt (hone t x ht hexp ⟨hx', hx.2⟩).symm
    -- nothing is left to walk to
    have hempty : Walk cfg base last none (timerRemove cfg s t) :=
      ⟨⟨ord, starts, rows, hlists, fun x hx => absurd hx (hnone x)⟩, nofun, hwalk.arc, hwalk.limit,
        hwalk.tick, hwalk.periods⟩
    obtain ⟨r, ⟨N, hret⟩, hrt, hrs, hwalk', hwanes, htick⟩ := hempty.softExpire
      (not_mem_none t) (h.kind ht) (hlawful 0 s _ hat hexp) fun a _ => spares_none a
    have hlate : ∀ a ∈ v, ¬ Expired r.finish r.finish.tick a := fun a ha hexp' => by
      have ha' := hwalk.stands a ha
      have hlate : Late base last r.finish a :=
        hwanes.late a ⟨hwalk.arc a ha', fun hby => hnone a ⟨ha', hby⟩⟩
      have hle := (before_iff hlate.1 (hwalk'.tick.inArc hwalk'.limit)).mp hexp'
      exact hlate.2 (le_trans hle hwalk'.tick)
    refine ⟨r.finish, [r], ⟨N + 2, fun fuel hfuel => ?_⟩, fun r' hr' => ?_,
      fun x hx => hwalk'.not_expired nofun hx⟩
    · obtain ⟨rounds, rfl⟩ := Nat.exists_eq_add_of_le' (show 2 ≤ fuel by omega)
      change Timer.softLoop _ _ _ _ _ _ _ _ = _
      rw [hfirst, softLoop_succ hexp (hret _ (by omega)), hnext, htick, softLoop_stop hlate]
      rfl
    · rw [mem_singleton.mp hr', hrt, hrs]
      exact ht

/-- The end of a round does nothing to another timer. -/
lemma afterCallback_other {a : X} {k : Bool} (h : WellLinked cfg s)
    (hat : a ≠ t) (hok : afterCallback cfg fuel s t = .ok s') :
    (Pending cfg s' k a → Pending cfg s k a) ∧ s'.timer a = s.timer a ∧ s'.tick = s.tick := by
  have hsame : (s.setActivated t false).timer a = s.timer a := setTimer_of_ne hat
  unfold afterCallback at hok
  split at hok
  · obtain ⟨rows, hwoven⟩ := h.setActivated t false
    obtain ⟨-, s1, -, hpend, hother, -, htick, -, hunique⟩ :=
      hwoven.start (lt_half_of_start hok)
    obtain rfl := hunique fuel s' hok
    refine ⟨fun hx => ?_, (hother a hat).trans hsame, htick⟩
    rw [hpend, or_iff_right fun heq => hat heq.1] at hx
    exact (pending_congr rfl).mp hx.2
  · obtain rfl := ok.inj hok
    exact ⟨(pending_congr rfl).mp, hsame, rfl⟩

omit [NeZero cfg.levels] in
lemma softLoop_eq_ok {rounds n : ℕ}
    {currentTick : BitVec 32} {log : List (Round X)} (hexp : Expired s currentTick t)
    (hok : softLoop cfg fuel callback rounds n currentTick (nodeOf cfg (some t)) s =
      .ok (s', log)) :
    ∃ rounds' r log', softExpire cfg fuel s t (callback n t) = .ok r ∧
      softLoop cfg fuel callback rounds' (n + 1) r.returned.tick
        (s.links.next (nodeOf cfg (some t))) r.finish = .ok (s', log') ∧ log = r :: log' := by
  cases rounds with
  | zero => cases hok
  | succ rounds =>
    simp only [nodeOf] at hok
    rw [softLoop, if_neg nofun] at hok
    simp only [hexp, if_true] at hok
    obtain ⟨r, hr, hok⟩ := bind_eq_ok.mp hok
    obtain ⟨⟨s1, log'⟩, hloop, heq⟩ := bind_eq_ok.mp hok
    obtain ⟨rfl, rfl⟩ := Prod.mk.inj (ok.inj heq)
    exact ⟨rounds, r, log', hr, hloop, rfl⟩

omit [NeZero cfg.levels] in
lemma softExpire_eq_ok {callback : State X → List (SoftStep X)} {r : Round X}
    (hok : softExpire cfg fuel s t callback = .ok r) :
    r.timer = t ∧ r.found = s ∧
      runSteps cfg fuel (timerRemove cfg s t) (callback (timerRemove cfg s t)) =
        .ok (r.returned, r.stopped) ∧ afterCallback cfg fuel r.returned t = .ok r.finish := by
  obtain ⟨⟨returned, stopped⟩, hrun, hrest⟩ := bind_eq_ok.mp hok
  obtain ⟨finish, hafter, heq⟩ := bind_eq_ok.mp hrest
  obtain rfl := ok.inj heq
  exact ⟨rfl, rfl, hrun, hafter⟩

/-- The first timeout function that is called lets time pass until `last` and stops the timer `a`.
The others do nothing. -/
def stopNext (s : State X) (last : BitVec 32) (a : X) : ℕ → X → State X → List (SoftStep X)
  | 0, _, _ => [.wait (last - s.tick), .act (.stop a)]
  | _ + 1, _, _ => []

omit [NeZero cfg.levels] in
lemma softLawful_stopNext {a : X} (htick : By base last s.tick) :
    SoftLawful cfg base last (stopNext s last a) s := by
  intro n s' t hat _
  cases n with
  | zero =>
    have hs := hat.eq_of_zero rfl
    subst s'
    refine ⟨?_, fun fuel s1 stopped _ => ⟨trivial, fun _ _ _ _ => trivial⟩⟩
    simp only [By, SoftPermits, timerRemove, BitVec.toNat_sub] at *
    omega
  | succ n => exact trivial

/-- If the timer behind the first one becomes due as well, and the timeout function of the first one
stops it, then it is run all the same. -/
lemma Walk.not_softProcessed_of_two {a : X} (h : Walk cfg base last (some t) s)
    (hfirst : s.links.next (.head (true, cfg.levels - 1)) = nodeOf cfg (some t))
    (hexp : Expired s s.tick t) (hnext : s.links.next (nodeOf cfg (some t)) = nodeOf cfg (some a))
    (hat : a ≠ t) (ha : Early cfg base last s a) (hact : (s.timer a).activated = true) :
    ¬ SoftProcessed cfg (stopNext s last a) s := by
  rintro ⟨s', log, ⟨N, hret⟩, hlog, -⟩
  have hloop : Timer.softLoop cfg N (stopNext s last a) N 0 s.tick (nodeOf cfg (some t)) s =
      .ok (s', log) := hfirst ▸ hret N le_rfl
  obtain ⟨rounds, r, log', hr, hloop', rfl⟩ := softLoop_eq_ok hexp hloop
  obtain ⟨-, -, hrun, hafter⟩ := softExpire_eq_ok hr
  -- the timeout function returns at `last`, with `a` taken out
  obtain ⟨ord, starts, rows, hlists, -⟩ := h.lists
  generalize hwaited : ({ timerRemove cfg s t with tick := s.tick + (last - s.tick) } : State X) =
    waited at hrun
  have hsame : waited.timer a = s.timer a := by rw [← hwaited]; rfl
  have hlinked : WellLinked cfg waited := by
    refine ⟨_, (hlists.woven.remove t).congr ?_ fun y => ?_⟩
    · rw [← hwaited]
    · rw [← hwaited]
  have hrun' : Timer.runSteps cfg N (timerRemove cfg s t) (stopNext s last a 0 t (timerRemove cfg s t)) =
      .ok (startRemove cfg waited a, [a]) := by
    simp only [stopNext, Timer.runSteps, Timer.softStep, ok_bind]
    rw [show ({ timerRemove cfg s t with
      tick := (timerRemove cfg s t).tick + (last - s.tick) } : State X) = waited from hwaited,
      act_stop (hsame ▸ hact)]
    rfl
  obtain ⟨hreturned, -⟩ := Prod.mk.inj (ok.inj (hrun.symm.trans hrun'))
  have htick : r.returned.tick = last := by
    rw [hreturned]
    change waited.tick = last
    rw [← hwaited]
    exact (BitVec.add_comm _ _).trans (BitVec.sub_add_cancel last s.tick)
  have hnot : ¬ Pending cfg r.returned true a := fun hpend => by
    obtain ⟨rows', hwoven⟩ := hlinked
    rw [hreturned] at hpend
    exact (hwoven.pending_remove.mp ((pending_congr rfl).mp hpend)).1 rfl
  have hdead : (r.returned.timer a).timeoutTick = (s.timer a).timeoutTick := by
    rw [hreturned, startRemove_self, hsame]
  have hlinked' : WellLinked cfg r.returned := by
    rw [hreturned]
    exact (hlinked.remove a).setActivated a false
  obtain ⟨hpend, htimer, -⟩ := afterCallback_other (k := true) hlinked' hat hafter
  -- the next node is that of `a`
  have hexp' : Expired r.finish r.returned.tick a := by
    rw [Expired, htimer, hdead, htick]
    exact (before_iff (h.arc a ha.1) h.limit).mpr ha.2
  rw [hnext] at hloop'
  obtain ⟨-, r', log'', hr', -, rfl⟩ := softLoop_eq_ok hexp' hloop'
  obtain ⟨htimer', hfound', -⟩ := softExpire_eq_ok hr'
  have hfalse := hlog r' (mem_cons_of_mem r mem_cons_self)
  rw [htimer', hfound'] at hfalse
  exact hnot (hpend hfalse)

/-- If two timers become due during a call, there are timeout functions with which a timer is run
that was stopped before. -/
lemma SoftReady.exists_not_softProcessed (h : SoftReady cfg base last s)
    (hact : ∀ x, Pending cfg s true x → (s.timer x).activated = true) (htwo : ¬ AtMostOneDue cfg base last s) :
    ∃ callback, SoftLawful cfg base last callback s ∧ ¬ SoftProcessed cfg callback s := by
  obtain ⟨v, hfirst, hwalk⟩ := h.walk
  simp only [AtMostOneDue, not_forall] at htwo
  obtain ⟨x, y, hx, hexpx, hy, hxy⟩ := htwo
  have hstop : ¬ ∀ a ∈ v, ¬ Expired s s.tick a := fun hstop => hwalk.not_expired hstop hx hexpx
  push Not at hstop
  obtain ⟨t, rfl, hexp⟩ := hstop
  obtain ⟨v, hnext, htv, hwalk'⟩ := hwalk.next hexp
  -- one of the two timers is not the first one
  obtain ⟨z, hzt, hz⟩ : ∃ z, z ≠ t ∧ Early cfg base last s z := by
    by_cases hxt : x = t
    · exact ⟨y, fun hyt => hxy (hxt.trans hyt.symm), hy⟩
    · exact ⟨x, hxt, hx, hwalk.by_of_expired hx hexpx⟩
  obtain ⟨ord', starts', rows', -, hbehind⟩ := hwalk'.lists
  obtain ⟨a, rfl, haz⟩ := hbehind z ⟨hwalk.pending_remove.mpr ⟨hzt, hz.1⟩, hz.2⟩
  obtain ⟨hat, ha⟩ := hwalk.pending_remove.mp (hwalk'.stands a rfl)
  have hby : By base last (s.timer a).timeoutTick := by
    rcases haz with rfl | haz
    · exact hz.2
    · exact le_trans ((before_iff (h.arc a ha) (h.arc z hz.1)).mp haz.1) hz.2
  exact ⟨stopNext s last a, softLawful_stopNext h.tick,
    hwalk.not_softProcessed_of_two hfirst hexp hnext hat ⟨ha, hby⟩ (hact a ha)⟩

omit [NeZero cfg.levels] in
/-- `rt_soft_timer_check` runs the timers that are expired, and only timers that are in the list, if
no timeout function starts or stops the timer behind its own. It does so for all timeout functions
exactly if at most one timer becomes due during the call. -/
theorem softProcessed_iff (hlevels : 0 < cfg.levels) (h : SoftReady cfg base last s)
    (hact : ∀ x, Pending cfg s true x → (s.timer x).activated = true) :
    (∀ callback, SoftLawful cfg base last callback s → SparesNext cfg callback s →
      SoftProcessed cfg callback s) ∧
    ((∀ callback, SoftLawful cfg base last callback s → SoftProcessed cfg callback s) ↔
      AtMostOneDue cfg base last s) := by
  have := NeZero.of_pos hlevels
  obtain ⟨v, hfirst, hwalk⟩ := h.walk
  refine ⟨fun callback hlawful hspares => ?_, fun hall => ?_, fun hone callback hlawful => ?_⟩
  · have hat : SoftAtRound cfg callback s 0 (nodeOf cfg v) s := hfirst ▸ .zero
    obtain ⟨s', log, ⟨N, hloop⟩, hlog, hend⟩ :=
      Walk.softLoop hlawful hspares _ hwalk hat rfl
    refine ⟨s', log, ⟨N, fun fuel hfuel => ?_⟩, hlog, hend⟩
    change softLoop _ _ _ _ _ _ _ _ = _
    rw [hfirst]
    exact hloop fuel hfuel fuel hfuel
  · by_contra htwo
    obtain ⟨callback, hlawful, hnot⟩ := h.exists_not_softProcessed hact htwo
    exact hnot (hall callback hlawful)
  · exact hwalk.softProcessed_of_one hfirst hlawful hone

def softTimer (_ : Bool) : RtTimer where
  timeoutTick := 0
  initTick := 1
  activated := false
  periodic := true
  soft := true

lemma exists_two_due : ∃ s : State Bool, SoftReady ⟨2, 3, true⟩ 0 1 s ∧
    ∀ x, Pending ⟨2, 3, true⟩ s true x ∧ Expired s s.tick x ∧ (s.timer x).activated = true := by
  obtain ⟨m, hreach, hring, htick, htimer⟩ : ∃ m : Machine Bool Bool,
      Reach ⟨2, 3, true⟩ (fun m a =>
        (NoOverlap m a ∧ StaysWithinHalf ⟨2, 3, true⟩ m a) ∧ SoftAlone m a) m ∧
      m.st.links.Ring (.head (true, 1)) [.item (false, 1), .item (true, 1)] ∧ m.st.tick = 1 ∧
      ∀ x, m.st.timer x = { softTimer x with timeoutTick := 1, activated := true } :=
    exists_of_run (fun _ _ => softAlone_of_test noOverlap_of_test) softTimer 0 (fun _ => rfl) 10
      (startActs false false ++ startActs true true ++ [.tick]) (by decide +kernel)
  obtain ⟨rows, inv⟩ := hreach.listInv fun _ _ h => h.1
  refine ⟨m.st, ⟨⟨_, _, rows, inv.lists⟩, fun x _ => ?_, by decide, ?_, fun x _ => ?_⟩,
    fun x => ⟨⟨_, hring, by cases x <;> simp⟩, ?_, ?_⟩⟩
  · rw [htimer]
    exact show InArc 0 1 by decide
  · rw [htick]
    decide
  · rw [Ample, htimer, htick]
    exact show (1 - 0 : BitVec 32).toNat < (1 - 0 : BitVec 32).toNat + (1 : BitVec 32).toNat ∧
      (1 - 0 : BitVec 32).toNat + (1 : BitVec 32).toNat < half by decide
  · rw [Expired, htimer, htick]
    exact show (1 - 1 : BitVec 32).toNat < half by decide
  · rw [htimer]

/-- Two timers are due, and their timeout functions do nothing. -/
theorem softProcessed_two : ∃ s : State Bool, SoftReady ⟨2, 3, true⟩ 0 1 s ∧
    (∀ x, Pending ⟨2, 3, true⟩ s true x ∧ Expired s s.tick x) ∧
    SoftProcessed ⟨2, 3, true⟩ (fun _ _ _ => []) s := by
  obtain ⟨s, hready, hdue⟩ := exists_two_due
  refine ⟨s, hready, fun x => ⟨(hdue x).1, (hdue x).2.1⟩, ?_⟩
  apply (softProcessed_iff (by decide) hready fun x _ => (hdue x).2.2).1
  · exact fun _ _ _ _ _ => trivial
  · exact fun _ _ _ _ _ _ _ a ha => by cases ha

/-- Two timers are due, and the timeout function of the first one stops the second one. -/
theorem not_softProcessed_stopped : ∃ (s : State Bool)
    (callback : ℕ → Bool → State Bool → List (SoftStep Bool)),
    SoftReady ⟨2, 3, true⟩ 0 1 s ∧ (∀ x, Pending ⟨2, 3, true⟩ s true x ∧ Expired s s.tick x) ∧
    SoftLawful ⟨2, 3, true⟩ 0 1 callback s ∧ ¬ SoftProcessed ⟨2, 3, true⟩ callback s := by
  obtain ⟨s, hready, hdue⟩ := exists_two_due
  have htwo : ¬ AtMostOneDue ⟨2, 3, true⟩ 0 1 s := fun hone => by
    obtain ⟨v, -, hwalk⟩ := hready.walk
    have heq := hone false true (hdue false).1 (hdue false).2.1
      ⟨(hdue true).1, hwalk.by_of_expired (hdue true).1 (hdue true).2.1⟩
    cases heq
  obtain ⟨callback, hlawful, hnot⟩ :=
    hready.exists_not_softProcessed (fun x _ => (hdue x).2.2) htwo
  exact ⟨s, callback, hready, fun x => ⟨(hdue x).1, (hdue x).2.1⟩, hlawful, hnot⟩

end Timer
