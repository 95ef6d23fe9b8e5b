import TempSns.Timer.Expiry

/-!
# Termination of `rt_timer_check`

A timer that is started again at the tick of the call gets the deadline tick plus time. If the time
is not zero and less than half the range, that deadline has not been reached. So each round takes
one timer from those that are due and adds none, and the loop ends (`Fair`). This does not need the
lists to be in order.

`rt_timer_start` accepts the time zero as well. A timer with this time is due again as soon as it is
started, and the loop runs it for ever (`Stuck`).
-/

namespace Timer

open Links WrapTime Except List

variable {X : Type} [DecidableEq X] {cfg : Config} [NeZero cfg.levels] {s s' : State X}
  {base : BitVec 32} {rows : Bool → ℕ → List X} {ord : X → ℕ} {starts fuel : ℕ} {x y t : X}
  {callback : State X → List (Action X)}

/-- The time of the timer is accepted by `rt_timer_start`, and it is not zero. -/
def Timely (s : State X) (x : X) : Prop :=
  0 < (s.timer x).initTick.toNat ∧ (s.timer x).initTick.toNat < half

/-- What the timeout function of `t` does: it may stop and change timers and start its own timer. A
time that it sets is accepted by `rt_timer_start` and not zero. -/
def Modest (t : X) : Action X → Prop
  | .start x => x = t
  | .stop _ => True
  | .control _ (.setTime time) => 0 < time.toNat ∧ time.toNat < half
  | .control _ _ => True

/-- `rt_timer_check` returns, whatever the timeout functions do, if they start no other timer. -/
def CheckReturns (cfg : Config) (s : State X) : Prop :=
  ∀ callback : ℕ → X → State X → List (Action X),
    (∀ n t s, ∀ a ∈ callback n t s, Modest t a) →
    ∃ r, Returns (fun fuel => rtTimerCheck cfg fuel callback s) r

/-- The pending hard timers are in the order of their deadlines, which lie on one arc of half the
range with the tick. -/
def InOrder (cfg : Config) (s : State X) : Prop :=
  ∃ base ord starts rows, Lists cfg s ord starts rows ∧ InArc base s.tick ∧
    ∀ x, Pending cfg s false x → InArc base (s.timer x).timeoutTick

/-! ## Loop ends -/

/-- The times of the timer `t` and of the timers that are due are not zero, and `t` is a hard timer that
is not due. -/
structure Fair (cfg : Config) (t : X) (s : State X) : Prop where
  linked : WellLinked cfg s
  times : ∀ x, x = t ∨ Due cfg s x → Timely s x
  hard : listOf cfg s t = false
  not_due : ¬ Due cfg s t

omit [DecidableEq X] in
/-- A deadline that is set now has not been reached. -/
lemma not_expired_start (hpos : 0 < (s.timer x).initTick.toNat)
    (hlt : (s.timer x).initTick.toNat < half) :
    ¬ (s.tick - (s.tick + (s.timer x).initTick)).toNat < half := by
  have htick := s.tick.isLt
  simp only [BitVec.toNat_sub, BitVec.toNat_add, half] at hlt ⊢
  omega

namespace Fair

section

variable (h : Fair cfg t s)

include h

omit [NeZero cfg.levels] in
lemma setTimer {r : RtTimer}
    (hdead : r.timeoutTick = (s.timer x).timeoutTick) (hsoft : r.soft = (s.timer x).soft)
    (htime : Timely s x → 0 < r.initTick.toNat ∧ r.initTick.toNat < half) :
    Fair cfg t (s.setTimer x r) ∧ Shrinks cfg s (s.setTimer x r) := by
  have hshrinks : Shrinks cfg s (s.setTimer x r) :=
    .of_deadlines rfl (fun y hy => (pending_congr rfl).mp hy.1) fun y _ =>
      timer_setTimer (f := RtTimer.timeoutTick) hdead
  refine ⟨⟨?_, fun y hy => ?_, ?_, hshrinks.not_due h.not_due⟩, hshrinks⟩
  · obtain ⟨rows, hwoven⟩ := h.linked
    exact ⟨rows, hwoven.setTimer hsoft⟩
  · have hy' := h.times y (hy.imp_right fun hdue => (hshrinks.due y hdue).1)
    by_cases hyx : y = x
    · subst hyx
      rw [Timely, setTimer_self]
      exact htime hy'
    · rw [Timely, setTimer_of_ne hyx]
      exact hy'
  · have hkind : ((s.setTimer x r).timer t).soft = (s.timer t).soft := soft_setTimer hsoft
    rw [listOf, hkind]
    exact h.hard

omit [NeZero cfg.levels] in
lemma control {cmd : Command} (ha : Modest t (.control x cmd)) :
    Fair cfg t (rtTimerControl s x cmd) ∧ Shrinks cfg s (rtTimerControl s x cmd) := by
  cases cmd with
  | setTime time => exact h.setTimer rfl rfl fun _ => ha
  | setOneshot => exact h.setTimer rfl rfl id
  | setPeriodic => exact h.setTimer rfl rfl id

lemma remove (x : X) :
    Fair cfg t (timerRemove cfg s x) ∧ Shrinks cfg s (timerRemove cfg s x) := by
  have hshrinks := Shrinks.remove h.linked x
  exact ⟨⟨h.linked.remove x, fun y hy => h.times y (hy.imp_right fun hdue =>
    (hshrinks.due y hdue).1), h.hard, hshrinks.not_due h.not_due⟩, hshrinks⟩

lemma start : ∃ s', Returns (fun fuel => rtTimerStart cfg fuel s t) s' ∧ Fair cfg t s' ∧
      Shrinks cfg s s' := by
  obtain ⟨rows, hwoven⟩ := h.linked
  obtain ⟨hpos, hlt⟩ := h.times t (.inl rfl)
  obtain ⟨rows', s', hwoven', hpend, hother, hself, htick, hret, -⟩ := hwoven.start hlt
  have hnot : ¬ Due cfg s' t := by
    rintro ⟨-, hexp⟩
    rw [Expired, hself, htick] at hexp
    exact not_expired_start hpos hlt hexp
  have hne : ∀ y, Due cfg s' y → y ≠ t := fun y hy heq => hnot (heq ▸ hy)
  have hshrinks : Shrinks cfg s s' := by
    refine .of_deadlines htick (fun y hy => ?_) fun y hy => by rw [hother y (hne y hy)]
    exact (((hpend false y).mp hy.1).resolve_left fun heq => hne y hy heq.1).2
  refine ⟨s', hret, ⟨⟨rows', hwoven'⟩, fun y hy => ?_, ?_, hnot⟩, hshrinks⟩
  · by_cases hyt : y = t
    · subst hyt
      rw [Timely, hself]
      exact ⟨hpos, hlt⟩
    · rw [Timely, hother y hyt]
      exact h.times y (hy.imp_right fun hdue => (hshrinks.due y hdue).1)
  · rw [listOf, hself]
    exact h.hard

lemma act {a : Action X} (ha : Modest t a) :
    ∃ s' stopped, Returns (fun fuel => act cfg fuel s a) (s', stopped) ∧ Fair cfg t s' ∧
      Shrinks cfg s s' := by
  cases a with
  | start x =>
    obtain rfl : x = t := ha
    obtain ⟨s', hret, hfair, hshrinks⟩ := h.start
    exact ⟨s', [], hret.map fun s => (s, []), hfair, hshrinks⟩
  | stop x =>
    cases hact : (s.timer x).activated with
    | true =>
      obtain ⟨hfair, hshrinks⟩ := h.remove x
      obtain ⟨hfair', hshrinks'⟩ := hfair.setTimer (x := x) (r := { s.timer x with activated := false })
        rfl rfl id
      exact ⟨startRemove cfg s x, [x], ⟨0, fun fuel _ => act_stop hact fuel⟩, hfair',
        hshrinks.trans hshrinks'⟩
    | false => exact ⟨s, [], ⟨0, fun fuel _ => act_stop_inactive hact fuel⟩, h, .refl s⟩
  | control x cmd =>
    obtain ⟨hfair, hshrinks⟩ := h.control ha
    exact ⟨_, [], .const _, hfair, hshrinks⟩

end

lemma runActions {as : List (Action X)} : ∀ {s : State X}, Fair cfg t s → (∀ a ∈ as, Modest t a) →
    ∃ s' stopped, Returns (fun fuel => runActions cfg fuel s as) (s', stopped) ∧ Fair cfg t s' ∧
      Shrinks cfg s s' := by
  induction as with
  | nil =>
    intro s h _
    exact ⟨s, [], .const _, h, .refl s⟩
  | cons a as ih =>
    intro s h has
    obtain ⟨s1, stopped1, hret1, hfair1, hshrinks1⟩ := h.act (has a mem_cons_self)
    obtain ⟨s2, stopped2, hret2, hfair2, hshrinks2⟩ :=
      ih hfair1 fun b hb => has b (mem_cons_of_mem a hb)
    refine ⟨s2, stopped1 ++ stopped2, ?_, hfair2, hshrinks1.trans hshrinks2⟩
    exact Returns.append (g := fun fuel s => Timer.runActions cfg fuel s as) hret1 hret2

lemma afterCallback (h : Fair cfg t s) :
    ∃ s', Returns (fun fuel => afterCallback cfg fuel s t) s' ∧ Fair cfg t s' ∧
      Shrinks cfg s s' := by
  obtain ⟨hfair, hshrinks⟩ := h.setTimer (x := t) (r := { s.timer t with activated := false })
    rfl rfl id
  by_cases hrearm : (s.timer t).periodic ∧ (s.timer t).activated
  · obtain ⟨s', hret, hfair', hshrinks'⟩ := hfair.start
    refine ⟨s', hret.imp fun n hn fuel hfuel => ?_, hfair', hshrinks.trans hshrinks'⟩
    simp only [Timer.afterCallback, if_pos hrearm]
    exact hn fuel hfuel
  · refine ⟨_, ⟨0, fun fuel _ => ?_⟩, hfair, hshrinks⟩
    simp only [Timer.afterCallback, if_neg hrearm]
    rfl

end Fair

/-- The times of the timers that are due are not zero. -/
structure AllFair (cfg : Config) (s : State X) : Prop where
  linked : WellLinked cfg s
  times : ∀ x, Due cfg s x → Timely s x

namespace AllFair

lemma expire (h : AllFair cfg s) (ht : Due cfg s t) (hcall : ∀ s, ∀ a ∈ callback s, Modest t a) :
    ∃ r, Returns (fun fuel => expire cfg fuel s t callback) r ∧ AllFair cfg r.finish ∧
      Shrinks cfg s r.finish ∧ r.returned.tick = r.finish.tick ∧ ¬ Due cfg r.finish t := by
  obtain ⟨rows, hwoven⟩ := h.linked
  have hshrinks := Shrinks.remove h.linked t
  have hremoved : Fair cfg t (timerRemove cfg s t) := by
    refine ⟨⟨_, hwoven.remove t⟩, fun y hy => ?_, ?_,
      fun hdue => (hwoven.pending_remove.mp hdue.1).1 rfl⟩
    · rcases hy with rfl | hy
      · exact h.times y ht
      · exact h.times y (hshrinks.due y hy).1
    · exact (hwoven.kind false _ (last_lt cfg) t (hwoven.stored.pending_iff.mp ht.1)).symm
  obtain ⟨returned, stopped, hret, hfair, hshrinks'⟩ :=
    hremoved.runActions (hcall (timerRemove cfg s t))
  obtain ⟨finish, hret', hfair', hshrinks''⟩ := hfair.afterCallback
  exact ⟨⟨t, s, returned, finish, stopped⟩, expire_returns hret hret',
    ⟨hfair'.linked, fun y hy => hfair'.times y (.inr hy)⟩,
    (hshrinks.trans hshrinks').trans hshrinks'', hshrinks''.tick.symm, hfair'.not_due⟩

/-- The loop returns, by induction on the number of timers that are due. -/
lemma checkLoop {callback : ℕ → X → State X → List (Action X)}
    (hcall : ∀ n t s, ∀ a ∈ callback n t s, Modest t a) (k : ℕ) :
    ∀ {n : ℕ} {s : State X}, AllFair cfg s → {x | Due cfg s x}.ncard = k →
    ∃ r N, ∀ fuel ≥ N, ∀ rounds ≥ N, checkLoop cfg fuel callback rounds n s.tick s = .ok r := by
  induction k using Nat.strong_induction_on with
  | _ k ih =>
  intro n s h hcard
  obtain ⟨rows, hwoven⟩ := h.linked
  have hfirst := hwoven.stored.firstTimer_eq false
  have hpend : ∀ t ∈ (rows false (cfg.levels - 1)).head?, Pending cfg s false t := fun t ht =>
    hwoven.stored.pending_iff.mpr (mem_of_head? ht)
  generalize (rows false (cfg.levels - 1)).head? = first at hfirst hpend
  by_cases hstop : ∀ t, first = some t → ¬ Expired s s.tick t
  · exact ⟨(s, []), 1, checkLoop_stop hfirst hstop⟩
  · push Not at hstop
    obtain ⟨t, rfl, hexp⟩ := hstop
    have hdue : Due cfg s t := ⟨hpend t rfl, hexp⟩
    obtain ⟨r, ⟨N, hret⟩, hfair, hshrinks, htick, hnot⟩ := h.expire hdue (hcall n t)
    have hlt := hwoven.stored.ncard_due_lt hshrinks hdue hnot
    obtain ⟨⟨s', log⟩, N', hloop⟩ := ih _ (hcard ▸ hlt) hfair rfl
    exact ⟨(s', r :: log), _, checkLoop_round hfirst hexp hret htick hloop⟩

end AllFair

/-! ## The loop does not end -/

/-- The hard timer `x` has the time zero, and it is periodic if `periodic`. The pending hard timers
are in order. -/
structure Loose (cfg : Config) (base : BitVec 32) (x : X) (periodic : Bool) (s : State X) :
    Prop where
  lists : ∃ ord starts rows, Lists cfg s ord starts rows
  tick : InArc base s.tick
  arc : ∀ y, Pending cfg s false y → InArc base (s.timer y).timeoutTick
  hard : listOf cfg s x = false
  zero : (s.timer x).initTick = 0
  period : periodic = true → (s.timer x).periodic = true

/-- The timer `x` is due as well. With `periodic` it will be started again. -/
structure Stuck (cfg : Config) (base : BitVec 32) (x : X) (periodic : Bool) (s : State X) : Prop
    extends Loose cfg base x periodic s where
  due : Due cfg s x
  activated : periodic = true → (s.timer x).activated = true

/-- The timeout function of `x` does nothing if `x` is `periodic`, else it starts `x` again. Any other
timer is stopped by its own timeout function. -/
def Dwells (x : X) (periodic : Bool) (callback : ℕ → X → State X → List (Action X)) : Prop :=
  ∀ n s, callback n x s = (if periodic then [] else [.start x]) ∧
    ∀ t, t ≠ x → callback n t s = [.stop t]

variable {p : Bool}

lemma Loose.remove (h : Loose cfg base x p s) (t : X) :
    Loose cfg base x p (timerRemove cfg s t) := by
  obtain ⟨ord, starts, rows, hlists⟩ := h.lists
  exact ⟨⟨ord, starts, _, hlists.remove t⟩, h.tick,
    fun y hy => h.arc y (hlists.woven.pending_remove.mp hy).2, h.hard, h.zero, h.period⟩

omit [NeZero cfg.levels] in
lemma Loose.setActivated (h : Loose cfg base x p s) (t : X) (b : Bool) :
    Loose cfg base x p (s.setActivated t b) := by
  obtain ⟨ord, starts, rows, hlists⟩ := h.lists
  have hsame : ∀ y, ((s.setActivated t b).timer y).timeoutTick = (s.timer y).timeoutTick ∧
      ((s.setActivated t b).timer y).soft = (s.timer y).soft ∧
      ((s.setActivated t b).timer y).initTick = (s.timer y).initTick ∧
      ((s.setActivated t b).timer y).periodic = (s.timer y).periodic := fun y => by
    by_cases hyt : y = t <;> simp [State.setActivated, State.setTimer, hyt]
  refine ⟨⟨ord, starts, rows, hlists.congr rfl (fun y _ => (hsame y).1) fun y => (hsame y).2.1⟩, h.tick,
    fun y hy => ?_, ?_, ?_, ?_⟩
  · rw [(hsame y).1]
    exact h.arc y ((pending_congr rfl).mp hy)
  · rw [listOf, (hsame x).2.1]
    exact h.hard
  · rw [(hsame x).2.2.1]
    exact h.zero
  · rw [(hsame x).2.2.2]
    exact h.period

/-- A timer with the time zero is due as soon as it is started. -/
lemma Loose.start (h : Loose cfg base x p s)
    (hok : rtTimerStart cfg fuel s x = .ok s') : Stuck cfg base x p s' ∧ s'.tick = s.tick := by
  obtain ⟨ord, starts, rows, hlists⟩ := h.lists
  have hlt : (s.timer x).initTick.toNat < half := by
    rw [h.zero]
    decide
  have hdead : s.tick + (s.timer x).initTick = s.tick := by
    rw [h.zero]
    exact BitVec.add_zero _
  obtain ⟨-, s1, -, hpend, hother, hself, htick, -, hunique⟩ := hlists.woven.start hlt
  obtain rfl := hunique fuel s' hok
  rw [hdead] at hself
  have hlists' := hlists.start hlt (hdead ▸ h.tick) (by rw [h.hard]; exact h.arc) hok
  refine ⟨⟨⟨⟨_, _, hlists'⟩, htick ▸ h.tick, fun y hy => ?_, ?_, ?_, ?_⟩, ⟨?_, ?_⟩, fun _ => ?_⟩,
    htick⟩
  · by_cases hyx : y = x
    · rw [hyx, hself]
      exact h.tick
    · rw [hpend, or_iff_right fun heq => hyx heq.1] at hy
      rw [hother y hyx]
      exact h.arc y hy.2
  · rw [listOf, hself]
    exact h.hard
  · rw [hself]
    exact h.zero
  · rw [hself]
    exact h.period
  · rw [hpend]
    exact .inl ⟨rfl, h.hard.symm⟩
  · rw [Expired, hself, htick]
    exact before_refl s.tick
  · rw [hself]

namespace Stuck

section

variable (h : Stuck cfg base x p s)

include h

lemma remove (hxt : x ≠ t) : Stuck cfg base x p (timerRemove cfg s t) := by
  obtain ⟨ord, starts, rows, hlists⟩ := h.lists
  exact ⟨h.toLoose.remove t, ⟨hlists.woven.pending_remove.mpr ⟨hxt, h.due.1⟩, h.due.2⟩, h.activated⟩

omit [NeZero cfg.levels] in
lemma setActivated {b : Bool} (hxt : x ≠ t ∨ p = false) :
    Stuck cfg base x p (s.setActivated t b) := by
  have hdead : ((s.setActivated t b).timer x).timeoutTick = (s.timer x).timeoutTick := by
    by_cases hxt : x = t <;> simp [State.setActivated, State.setTimer, hxt]
  refine ⟨h.toLoose.setActivated t b, ⟨(pending_congr rfl).mpr h.due.1, ?_⟩, fun hp => ?_⟩
  · rw [Expired, hdead]
    exact h.due.2
  · have hne : x ≠ t := hxt.resolve_right (by simp [hp])
    rw [activated_setActivated_of_ne hne]
    exact h.activated hp

lemma expire_other (hxt : x ≠ t) (hcall : ∀ s, callback s = [.stop t]) {r : Round X}
    (hok : expire cfg fuel s t callback = .ok r) :
    Stuck cfg base x p r.finish ∧ r.returned.tick = r.finish.tick := by
  obtain ⟨hrun, hafter⟩ := expire_eq_ok hok
  generalize r.returned = returned at hrun hafter ⊢
  generalize r.finish = finish at hafter ⊢
  have hremoved := h.remove hxt
  -- the timer is not activated any more
  obtain ⟨hstuck, hact⟩ : Stuck cfg base x p returned ∧ (returned.timer t).activated = false := by
    rw [hcall] at hrun
    obtain ⟨⟨s1, stopped1⟩, hstop, hrest⟩ := bind_eq_ok.mp hrun
    obtain ⟨⟨s2, stopped2⟩, hnil, heq⟩ := bind_eq_ok.mp hrest
    obtain ⟨rfl, -⟩ := Prod.mk.inj (ok.inj hnil)
    obtain ⟨rfl, -⟩ := Prod.mk.inj (ok.inj heq)
    cases hact : ((timerRemove cfg s t).timer t).activated with
    | true =>
      simp only [Timer.act, rtTimerStop, hact, if_true] at hstop
      obtain ⟨rfl, -⟩ := Prod.mk.inj (ok.inj hstop)
      exact ⟨(hremoved.remove hxt).setActivated (.inl hxt), activated_setActivated⟩
    | false =>
      simp only [Timer.act, rtTimerStop, hact, Bool.false_eq_true, if_false] at hstop
      obtain ⟨rfl, -⟩ := Prod.mk.inj (ok.inj hstop)
      exact ⟨hremoved, hact⟩
  simp only [Timer.afterCallback, hact, Bool.false_eq_true, and_false, if_false] at hafter
  obtain rfl := ok.inj hafter
  exact ⟨hstuck.setActivated (.inl hxt), rfl⟩

lemma expire_self (hcall : ∀ s, callback s = if p then [] else [.start x]) {r : Round X}
    (hok : expire cfg fuel s x callback = .ok r) :
    Stuck cfg base x p r.finish ∧ r.returned.tick = r.finish.tick := by
  obtain ⟨hrun, hafter⟩ := expire_eq_ok hok
  generalize r.returned = returned at hrun hafter ⊢
  generalize r.finish = finish at hafter ⊢
  have hremoved := h.toLoose.remove x
  rw [hcall] at hrun
  cases p with
  | true =>
    obtain ⟨rfl, -⟩ := Prod.mk.inj (ok.inj hrun)
    have hrearm : ((timerRemove cfg s x).timer x).periodic ∧
        ((timerRemove cfg s x).timer x).activated := ⟨h.period rfl, h.activated rfl⟩
    simp only [Timer.afterCallback, if_pos hrearm] at hafter
    obtain ⟨hstuck, htick⟩ := (hremoved.setActivated x false).start hafter
    exact ⟨hstuck, htick.symm⟩
  | false =>
    obtain ⟨⟨s1, stopped1⟩, hact, hrest⟩ := bind_eq_ok.mp hrun
    obtain ⟨⟨s2, stopped2⟩, hnil, heq⟩ := bind_eq_ok.mp hrest
    obtain ⟨rfl, -⟩ := Prod.mk.inj (ok.inj hnil)
    obtain ⟨rfl, -⟩ := Prod.mk.inj (ok.inj heq)
    obtain ⟨s3, hstart, heq⟩ := map_eq_ok.mp hact
    obtain ⟨rfl, -⟩ := Prod.mk.inj heq
    obtain ⟨hstuck, -⟩ := hremoved.start hstart
    unfold Timer.afterCallback at hafter
    split at hafter
    · -- it was made periodic, and is started once more
      obtain ⟨hstuck', htick⟩ := (hstuck.toLoose.setActivated x false).start hafter
      exact ⟨hstuck', htick.symm⟩
    · obtain rfl := ok.inj hafter
      exact ⟨hstuck.setActivated (.inr rfl), rfl⟩

end

/-- The loop does not return: the timer is due before every round. -/
lemma checkLoop_ne
    {callback : ℕ → X → State X → List (Action X)} (hcall : Dwells x p callback) {rounds n : ℕ}
    (h : Stuck cfg base x p s) (r : State X × List (Round X)) :
    checkLoop cfg fuel callback rounds n s.tick s ≠ .ok r := by
  induction rounds generalizing n s r with
  | zero => exact nofun
  | succ rounds ih =>
    intro hok
    obtain ⟨ord, starts, rows, hlists⟩ := h.lists
    obtain ⟨first, hfirst, hok⟩ := bind_eq_ok.mp hok
    rcases hlists.firstTimer false with ⟨-, hnone⟩ | ⟨t, hfirst', hpend, hmin⟩
    · exact hnone x h.due.1
    obtain rfl := ok.inj (hfirst.symm.trans hfirst')
    -- the first timer is not later than `x`
    have hexp : Expired s s.tick t :=
      (hmin x h.due.1).trans (h.arc t hpend) (h.arc x h.due.1) h.tick h.due.2
    simp only [hexp, if_true] at hok
    obtain ⟨round, hround, hok⟩ := bind_eq_ok.mp hok
    obtain ⟨r', hloop, -⟩ := bind_eq_ok.mp hok
    have hnext : Stuck cfg base x p round.finish ∧ round.returned.tick = round.finish.tick := by
      by_cases hxt : x = t
      · subst hxt
        exact h.expire_self (fun s => (hcall n s).1) hround
      · exact h.expire_other hxt (fun s => (hcall n s).2 t (Ne.symm hxt)) hround
    rw [hnext.2] at hloop
    exact ih hnext.1 r' hloop

end Stuck

omit [NeZero cfg.levels] in
/-- In every state after complete calls in which `rt_timer_start` accepts the times of the timers that
are due: `rt_timer_check` returns for all timeout functions if these times are not zero. If the timers
are in order it returns for all of them only then. -/
theorem checkReturns_iff (hlevels : 0 < cfg.levels) (hs : Started cfg s)
    (haccept : ∀ x, Due cfg s x → (s.timer x).initTick.toNat < half) :
    ((∀ x, Due cfg s x → (s.timer x).initTick ≠ 0) → CheckReturns cfg s) ∧
      (InOrder cfg s → (CheckReturns cfg s ↔ ∀ x, Due cfg s x → (s.timer x).initTick ≠ 0)) := by
  have := NeZero.of_pos hlevels
  have hreturns : (∀ x, Due cfg s x → (s.timer x).initTick ≠ 0) → CheckReturns cfg s := by
    intro hzero callback hcall
    have hfair : AllFair cfg s := by
      refine ⟨hs.wellLinked, fun x hx => ⟨Nat.pos_of_ne_zero fun heq => ?_, haccept x hx⟩⟩
      exact hzero x hx (BitVec.eq_of_toNat_eq heq)
    obtain ⟨r, N, hloop⟩ := AllFair.checkLoop hcall _ hfair rfl
    exact ⟨r, N, fun fuel hfuel => hloop fuel hfuel fuel hfuel⟩
  refine ⟨hreturns, fun horder => ⟨fun hall x hx hzero => ?_, hreturns⟩⟩
  obtain ⟨base, ord, starts, rows, hlists, htick, harc⟩ := horder
  have hhard : listOf cfg s x = false := by
    have hrow := hlists.stored.pending_iff.mp hx.1
    exact (hlists.kind false _ (last_lt cfg) x hrow).symm
  have hstuck : Stuck cfg base x false s :=
    ⟨⟨⟨ord, starts, rows, hlists⟩, htick, harc, hhard, hzero, nofun⟩, hx, nofun⟩
  -- the timer starts itself again, the others stop themselves
  obtain ⟨r, N, hret⟩ := hall (fun _ t _ => if t = x then [.start x] else [.stop t]) (by
    intro n t s' a ha
    by_cases htx : t = x
    · rw [if_pos htx, mem_singleton] at ha
      rw [ha, htx]
      exact rfl
    · rw [if_neg htx, mem_singleton] at ha
      rw [ha]
      exact trivial)
  have hdwells : Dwells x false fun (_ : ℕ) t (_ : State X) =>
      if t = x then [Action.start x] else [.stop t] :=
    fun n s' => ⟨if_pos rfl, fun t htx => if_neg htx⟩
  exact hstuck.checkLoop_ne hdwells r (hret N le_rfl)

/-- Two periodic timers with the time 1 that are both due. -/
theorem checkReturns_periodic : ∃ s : State Bool, Started ⟨2, 3, false⟩ s ∧
    (∀ x, (s.timer x).timeoutTick = s.tick) ∧ CheckReturns ⟨2, 3, false⟩ s := by
  obtain ⟨s, hstarts, htimer⟩ := exists_of_okWith
    (P := fun s : State Bool => ∀ x, (s.timer x).timeoutTick = 1 ∧ (s.timer x).initTick = 1)
    (show okWith _ (do
      let s ← rtTimerStart ⟨2, 3, false⟩ 10 ⟨periodicTimer, ⟨id, id⟩, 0, 0⟩ false
      rtTimerStart ⟨2, 3, false⟩ 10 s true) = true by decide +kernel)
  obtain ⟨s1, hfirst, hsecond⟩ := bind_eq_ok.mp hstarts
  have hstarted : Started ⟨2, 3, false⟩ { s with tick := 1 } :=
    (((Started.init periodicTimer 0).start hfirst).start hsecond).time 1
  refine ⟨{ s with tick := 1 }, hstarted, fun x => (htimer x).1,
    (checkReturns_iff (by decide) hstarted fun x _ => ?_).1 fun x _ => ?_⟩
  · rw [(htimer x).2]
    decide
  · rw [(htimer x).2]
    decide

/-- A periodic timer with the time 0 is accepted, and `rt_timer_check` does not return although the
timeout function does nothing. -/
theorem not_checkReturns_zero : ∃ s : State Unit, Started ⟨1, 3, false⟩ s ∧
    (s.timer ()).periodic = true ∧ (s.timer ()).initTick = 0 ∧
    (∀ fuel r, rtTimerCheck ⟨1, 3, false⟩ fuel (fun _ _ _ => []) s ≠ .ok r) ∧
    ¬ CheckReturns ⟨1, 3, false⟩ s := by
  let zero : Unit → RtTimer := fun _ => ⟨0, 0, false, true, false⟩
  have hinit : ListInv ⟨1, 3, false⟩ (.init zero 0 : Machine Unit Unit) (fun _ _ => []) :=
    ListInv.init zero 0
  have lists := hinit.lists
  have hloose : Loose ⟨1, 3, false⟩ 0 () true (⟨zero, ⟨id, id⟩, 0, 0⟩ : State Unit) := by
    refine ⟨⟨_, _, _, lists⟩, by decide, fun y hy => ?_, rfl, rfl, fun _ => rfl⟩
    exact absurd hy (ListInv.not_pending_init zero 0 false y)
  obtain ⟨s, hstart, -⟩ := exists_of_okWith (P := fun _ : State Unit => True)
    (show okWith _ (rtTimerStart ⟨1, 3, false⟩ 10 ⟨zero, ⟨id, id⟩, 0, 0⟩ ()) = true by decide +kernel)
  obtain ⟨hstuck, -⟩ := hloose.start hstart
  have hdwells : Dwells () true fun (_ : ℕ) (_ : Unit) (_ : State Unit) => [] :=
    fun n s' => ⟨rfl, fun t ht => absurd rfl ht⟩
  have hnever : ∀ fuel r, rtTimerCheck ⟨1, 3, false⟩ fuel (fun _ _ _ => []) s ≠ .ok r :=
    fun fuel r => hstuck.checkLoop_ne hdwells r
  refine ⟨s, (Started.init zero 0).start hstart, hstuck.period rfl, hstuck.zero, hnever, fun hall => ?_⟩
  obtain ⟨r, N, hret⟩ := hall (fun _ _ _ => []) fun n t s' a ha => by cases ha
  exact hnever N r (hret N le_rfl)

end Timer
