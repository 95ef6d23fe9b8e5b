import TempSns.Timer.Check

/-!
# The soft timer thread

`rt_thread_timer_entry` waits until the next soft timer is due and then checks the soft timers. The
deadline of the next timer is read with `rt_timer_list_next_timeout`, which stands for an empty list
with the value `RT_TICK_MAX`. The thread sleeps with `rt_thread_delay`: its own thread timer, a hard
timer, is started with the number of ticks that remain, and `rt_timer_check` wakes the thread in a
clock interrupt. So a sleep lasts until the next clock interrupt at least.
-/

namespace Timer

open Links WrapTime

variable {X : Type} [DecidableEq X] {cfg : Config} [NeZero cfg.levels] {s s' : State X}
  {rows : Bool → ℕ → List X} {ord : X → ℕ} {starts fuel : ℕ} {x y t thread : X}

def rtTickMax : BitVec 32 := 0xffffffff

def rtTimerListNextTimeout (cfg : Config) (s : State X) (soft : Bool) :
    Except Fault (BitVec 32) := do
  let first ← firstTimer cfg s soft
  match first with
  | none => .ok rtTickMax
  | some t => .ok (s.timer t).timeoutTick

/-- `rt_thread_suspend` of the thread with the timer `thread`: the timer is stopped anyway. -/
def rtThreadSuspend (cfg : Config) (s : State X) (thread : X) : State X :=
  (rtTimerStop cfg s thread).2

/-- `rt_thread_delay` up to the call of the scheduler. -/
def rtThreadDelay (cfg : Config) (fuel : ℕ) (s : State X) (thread : X) (tick : BitVec 32) :
    Except Fault (State X) :=
  rtTimerStart cfg fuel (rtTimerControl (rtThreadSuspend cfg s thread) thread (.setTime tick))
    thread

/-- What the timer thread does before it checks the timers. -/
inductive Wait where
  /-- It is suspended without a timeout. -/
  | suspended
  /-- It sleeps until its thread timer expires. -/
  | asleep
  /-- It goes on at once. -/
  | awake
  deriving DecidableEq, Repr

/-- The loop body of `rt_thread_timer_entry` up to the check of the timers. -/
def threadTimerWait (cfg : Config) (fuel : ℕ) (s : State X) (thread : X) :
    Except Fault (Wait × State X) := do
  let nextTimeout ← rtTimerListNextTimeout cfg s true
  if nextTimeout = rtTickMax then .ok (.suspended, rtThreadSuspend cfg s thread)
  else if (nextTimeout - s.tick).toNat < half then
    let s ← rtThreadDelay cfg fuel s thread (nextTimeout - s.tick)
    .ok (.asleep, s)
  else .ok (.awake, s)

/-! ## Length of the sleep -/

/-- The soft timer `x` has the earliest deadline of the soft timers in the list. -/
def Earliest (cfg : Config) (s : State X) (x : X) : Prop :=
  Pending cfg s true x ∧
    ∀ y, Pending cfg s true y → Before (s.timer x).timeoutTick (s.timer y).timeoutTick

/-- The `n`-th clock interrupt from now on is the first one in which the timer is expired. -/
def ExpiresIn (s : State X) (x : X) (n : ℕ) : Prop :=
  0 < n ∧ Expired s (s.tick + BitVec.ofNat 32 n) x ∧
    ∀ m, 0 < m → m < n → ¬ Expired s (s.tick + BitVec.ofNat 32 m) x

/-- The timer thread is suspended without a timeout only if no soft timer is in the list. It sleeps
only until a deadline that is ahead, and no longer than until the earliest deadline. -/
def SleepsInTime (cfg : Config) (thread : X) (s : State X) : Prop :=
  ∃ w s', Returns (fun fuel => threadTimerWait cfg fuel s thread) (w, s') ∧
    (w = .suspended → ∀ x, ¬ Pending cfg s true x) ∧
    (w = .asleep → Pending cfg s' false thread ∧ ∃ n, ExpiresIn s' thread n ∧
      ∀ x, Earliest cfg s x → Before s.tick (s.timer x).timeoutTick ∧
        n ≤ ((s.timer x).timeoutTick - s.tick).toNat)

lemma Before.eq_of_before {a b : BitVec 32} (hab : Before a b) (hba : Before b a) : a = b := by
  simp only [Before, half, BitVec.toNat_sub] at hab hba
  apply BitVec.eq_of_toNat_eq
  omega

omit [DecidableEq X] [NeZero cfg.levels] in
lemma Earliest.timeoutTick_eq (hx : Earliest cfg s x) (hy : Earliest cfg s y) :
    (s.timer x).timeoutTick = (s.timer y).timeoutTick :=
  Before.eq_of_before (hx.2 y hy.1) (hy.2 x hx.1)

lemma Lists.nextTimeout (h : Lists cfg s ord starts rows) :
    (rtTimerListNextTimeout cfg s true = .ok rtTickMax ∧ ∀ x, ¬ Pending cfg s true x) ∨
      ∃ t, rtTimerListNextTimeout cfg s true = .ok (s.timer t).timeoutTick ∧ Earliest cfg s t := by
  rcases h.firstTimer true with ⟨hfirst, hnone⟩ | ⟨t, hfirst, hpend, hmin⟩
  · refine .inl ⟨?_, hnone⟩
    rw [rtTimerListNextTimeout, hfirst, ok_bind]
  · refine .inr ⟨t, ?_, hpend, hmin⟩
    rw [rtTimerListNextTimeout, hfirst, ok_bind]

lemma rtThreadSuspend_frame (cfg : Config) (s : State X) (thread : X) :
    ((rtThreadSuspend cfg s thread).timer thread).soft = (s.timer thread).soft ∧
      (rtThreadSuspend cfg s thread).tick = s.tick := by
  unfold rtThreadSuspend rtTimerStop
  split
  · exact ⟨soft_setTimer rfl, rfl⟩
  · exact ⟨rfl, rfl⟩

lemma WellLinked.rtThreadDelay (h : WellLinked cfg s)
    (hthread : listOf cfg s thread = false) {tick : BitVec 32} (htick : tick.toNat < half) :
    ∃ s', Returns (fun fuel => rtThreadDelay cfg fuel s thread tick) s' ∧
      Pending cfg s' false thread ∧ (s'.timer thread).timeoutTick = s.tick + tick ∧
      s'.tick = s.tick := by
  obtain ⟨hsoft, htick'⟩ := rtThreadSuspend_frame cfg s thread
  obtain ⟨rows, hwoven⟩ := (h.stop thread).control thread (.setTime tick)
  generalize hset : rtTimerControl (rtTimerStop cfg s thread).2 thread (.setTime tick) = set at hwoven
  have hself : set.timer thread =
      { (rtThreadSuspend cfg s thread).timer thread with initTick := tick } := by
    rw [← hset]
    exact setTimer_self
  have hkind : listOf cfg set thread = false := by
    rw [listOf, hself]
    rw [listOf, ← hsoft] at hthread
    exact hthread
  have hsettick : set.tick = s.tick := by
    rw [← hset]
    exact htick'
  obtain ⟨-, s', -, hpend, -, hself', htick'', hret, -⟩ :=
    hwoven.start (x := thread) (by rw [hself]; exact htick)
  refine ⟨s', ?_, (hpend false thread).mpr (.inl ⟨rfl, hkind.symm⟩), ?_, htick''.trans hsettick⟩
  · rw [← hset] at hret
    exact hret
  · rw [hself', hself, hsettick]

omit [DecidableEq X] in
lemma expiresIn_of_ahead {ticks : BitVec 32} (hpos : 0 < ticks.toNat) (hlt : ticks.toNat < half)
    (hdead : (s.timer x).timeoutTick = s.tick + ticks) : ExpiresIn s x ticks.toNat := by
  refine ⟨hpos, ?_, fun m hm hmn => ?_⟩
  · simp only [Expired, hdead, BitVec.toNat_sub, BitVec.toNat_add, BitVec.toNat_ofNat, half] at hlt ⊢
    omega
  · simp only [Expired, hdead, BitVec.toNat_sub, BitVec.toNat_add, BitVec.toNat_ofNat, half] at hlt ⊢
    omega

omit [NeZero cfg.levels] in
lemma Earliest.not_sleepsInTime (ht : Earliest cfg s t)
    (hnext : rtTimerListNextTimeout cfg s true = .ok (s.timer t).timeoutTick)
    (hmax : (s.timer t).timeoutTick = rtTickMax) : ¬ SleepsInTime cfg thread s := by
  rintro ⟨w, s', hret, hsuspend, -⟩
  have hret' : Returns (fun fuel => threadTimerWait cfg fuel s thread)
      (.suspended, rtThreadSuspend cfg s thread) := by
    refine ⟨0, fun fuel _ => ?_⟩
    change threadTimerWait cfg fuel s thread = _
    rw [threadTimerWait, hnext, ok_bind, if_pos hmax]
  obtain ⟨rfl, -⟩ := Prod.mk.inj (hret.unique hret')
  exact hsuspend rfl t ht.1

/-- A deadline that is ahead: the thread timer is started with the ticks that remain. A sleep of no
ticks lasts until the next clock interrupt. -/
lemma Earliest.sleepsInTime_iff_of_ahead (ht : Earliest cfg s t)
    (hnext : rtTimerListNextTimeout cfg s true = .ok (s.timer t).timeoutTick)
    (h : WellLinked cfg s) (hthread : listOf cfg s thread = false)
    (hmax : (s.timer t).timeoutTick ≠ rtTickMax)
    (hlt : ((s.timer t).timeoutTick - s.tick).toNat < half) :
    SleepsInTime cfg thread s ↔ (s.timer t).timeoutTick ≠ s.tick := by
  obtain ⟨s', ⟨n, hdelay⟩, hpend, hdead, htick⟩ := h.rtThreadDelay hthread hlt
  have hret : Returns (fun fuel => threadTimerWait cfg fuel s thread) (.asleep, s') := by
    refine ⟨n, fun fuel hfuel => ?_⟩
    change threadTimerWait cfg fuel s thread = _
    have hok : rtThreadDelay cfg fuel s thread _ = .ok s' := hdelay fuel hfuel
    rw [threadTimerWait, hnext, ok_bind, if_neg hmax, if_pos hlt, hok, ok_bind]
  constructor
  · rintro ⟨w, s'', hret', -, hsleep⟩ heq
    obtain ⟨rfl, rfl⟩ := Prod.mk.inj (hret'.unique hret)
    obtain ⟨-, n, hexpires, hle⟩ := hsleep rfl
    have hn := (hle t ht).2
    rw [heq, BitVec.sub_self] at hn
    have hpos := hexpires.1
    simp only [BitVec.toNat_ofNat] at hn
    omega
  · intro hne
    have hpos : 0 < ((s.timer t).timeoutTick - s.tick).toNat := by
      refine Nat.pos_of_ne_zero fun hzero => hne (BitVec.eq_of_toNat_eq ?_)
      simp only [BitVec.toNat_sub] at hzero
      omega
    have hdead' : (s'.timer thread).timeoutTick =
        s'.tick + ((s.timer t).timeoutTick - s.tick) := by rw [hdead, htick]
    refine ⟨.asleep, s', hret, nofun, fun _ => ⟨hpend, _, expiresIn_of_ahead hpos hlt hdead',
      fun x hx => ?_⟩⟩
    rw [hx.timeoutTick_eq ht]
    exact ⟨hlt, le_rfl⟩

omit [NeZero cfg.levels] in
/-- For soft timers in order and any tick, the timer thread sleeps in time exactly if the earliest
deadline is neither `RT_TICK_MAX` nor the current tick. -/
theorem sleepsInTime_iff (hlevels : 0 < cfg.levels) (h : Lists cfg s ord starts rows)
    (hthread : listOf cfg s thread = false) :
    SleepsInTime cfg thread s ↔ ∀ x, Earliest cfg s x → (s.timer x).timeoutTick ≠ rtTickMax ∧
        (s.timer x).timeoutTick ≠ s.tick := by
  have := NeZero.of_pos hlevels
  rcases h.nextTimeout with ⟨hnext, hnone⟩ | ⟨t, hnext, ht⟩
  · -- the list is empty
    refine ⟨fun _ x hx => absurd hx.1 (hnone x), fun _ => ?_⟩
    refine ⟨.suspended, rtThreadSuspend cfg s thread, ⟨0, fun fuel _ => ?_⟩, fun _ => hnone, nofun⟩
    change threadTimerWait cfg fuel s thread = _
    rw [threadTimerWait, hnext, ok_bind, if_pos rfl]
  -- the condition is about the deadline that is read
  have hall : (∀ x, Earliest cfg s x → (s.timer x).timeoutTick ≠ rtTickMax ∧
      (s.timer x).timeoutTick ≠ s.tick) ↔
      (s.timer t).timeoutTick ≠ rtTickMax ∧ (s.timer t).timeoutTick ≠ s.tick :=
    ⟨fun hall => hall t ht, fun h x hx => hx.timeoutTick_eq ht ▸ h⟩
  rw [hall]
  by_cases hmax : (s.timer t).timeoutTick = rtTickMax
  · exact ⟨fun hsleeps => absurd hsleeps (ht.not_sleepsInTime hnext hmax),
      fun hne => absurd hmax hne.1⟩
  by_cases hlt : ((s.timer t).timeoutTick - s.tick).toNat < half
  · rw [ht.sleepsInTime_iff_of_ahead hnext ⟨rows, h.woven⟩ hthread hmax hlt]
    exact ⟨fun hne => ⟨hmax, hne⟩, fun hne => hne.2⟩
  · -- the deadline has passed
    refine ⟨fun _ => ⟨hmax, fun heq => hlt ?_⟩, fun _ => ?_⟩
    · rw [heq, BitVec.sub_self]
      decide
    · refine ⟨.awake, s, ⟨0, fun fuel _ => ?_⟩, nofun, nofun⟩
      change threadTimerWait cfg fuel s thread = _
      rw [threadTimerWait, hnext, ok_bind, if_neg hmax, if_neg hlt]

/-- The soft timer `true` with the time 1, and the timer `false` of the timer thread. -/
def oneSoftTimer (x : Bool) : RtTimer where
  timeoutTick := 0
  initTick := 1
  activated := false
  periodic := false
  soft := x

lemma exists_oneSoftTimer (tick : BitVec 32) : ∃ (s : State Bool) (ord : Bool → ℕ)
    (starts : ℕ) (rows : Bool → ℕ → List Bool), Lists ⟨2, 3, true⟩ s ord starts rows ∧
      listOf ⟨2, 3, true⟩ s false = false ∧ s.tick = tick ∧
      (s.timer true).timeoutTick = tick + 1 ∧ Earliest ⟨2, 3, true⟩ s true ∧
      ∀ x, Pending ⟨2, 3, true⟩ s true x → x = true := by
  have hinit : ListInv ⟨2, 3, true⟩ (.init oneSoftTimer tick : Machine Bool Unit) (fun _ _ => []) :=
    ListInv.init oneSoftTimer tick
  have hempty : ∀ k y, ¬ Pending ⟨2, 3, true⟩ _ k y := ListInv.not_pending_init oneSoftTimer tick
  have hlt : (1 : BitVec 32).toNat < half := by decide
  obtain ⟨-, s, -, hpend, hother, hself, htick, ⟨n, hret⟩, -⟩ :=
    hinit.lists.woven.start (x := true) hlt
  have hbase : InArc (tick + 1) (tick + 1) := before_refl (tick + 1)
  obtain ⟨rows, hlists⟩ := hinit.lists.start hlt hbase
    (fun y hy => absurd hy (hempty _ y)) (hret n le_rfl)
  have honly : ∀ x, Pending ⟨2, 3, true⟩ s true x → x = true := fun x hx => by
    rw [hpend, or_iff_left fun hx => hempty _ x hx.2] at hx
    exact hx.1
  refine ⟨s, _, _, rows, hlists, ?_, htick, ?_, ⟨(hpend true true).mpr (.inl ⟨rfl, rfl⟩), ?_⟩, honly⟩
  · rw [listOf, hother false (by decide)]
    rfl
  · rw [hself]
    rfl
  · intro y hy
    rw [honly y hy]
    exact before_refl _

/-- One soft timer is pending, one tick ahead. -/
theorem sleepsInTime_ahead : ∃ (s : State Bool) (ord : Bool → ℕ) (starts : ℕ)
    (rows : Bool → ℕ → List Bool), Lists ⟨2, 3, true⟩ s ord starts rows ∧
      listOf ⟨2, 3, true⟩ s false = false ∧ Pending ⟨2, 3, true⟩ s true true ∧
      SleepsInTime ⟨2, 3, true⟩ false s := by
  obtain ⟨s, ord, starts, rows, hlists, hthread, htick, hdead, hfirst, honly⟩ :=
    exists_oneSoftTimer 5
  refine ⟨s, ord, starts, rows, hlists, hthread, hfirst.1, ?_⟩
  apply (sleepsInTime_iff (by decide) hlists hthread).mpr
  intro x hx
  rw [honly x hx.1, hdead, htick]
  decide

/-- One soft timer is pending with the deadline `RT_TICK_MAX`, and the timer thread is suspended
without a timeout. -/
theorem not_sleepsInTime_rtTickMax : ∃ (s : State Bool) (ord : Bool → ℕ) (starts : ℕ)
    (rows : Bool → ℕ → List Bool), Lists ⟨2, 3, true⟩ s ord starts rows ∧
      listOf ⟨2, 3, true⟩ s false = false ∧ Pending ⟨2, 3, true⟩ s true true ∧
      (s.timer true).timeoutTick = s.tick + 1 ∧ ¬ SleepsInTime ⟨2, 3, true⟩ false s := by
  obtain ⟨s, ord, starts, rows, hlists, hthread, htick, hdead, hfirst, honly⟩ :=
    exists_oneSoftTimer 0xfffffffe
  refine ⟨s, ord, starts, rows, hlists, hthread, hfirst.1, htick ▸ hdead, ?_⟩
  rcases hlists.nextTimeout with ⟨-, hnone⟩ | ⟨t, hnext, ht⟩
  · exact absurd hfirst.1 (hnone true)
  · refine ht.not_sleepsInTime hnext ?_
    rw [honly t ht.1, hdead]
    rfl

end Timer
