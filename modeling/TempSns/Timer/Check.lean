import TempSns.Timer.Woven

/-!
# Expiry of the hard timers

`rt_timer_check` for timeout functions that start and stop other timers. The deadlines, the current
tick and the deadlines that are set during the call lie on one arc of half the range that starts at
`base` (`Ready`, `Room`). Then the expired timers are those at the front of the list. Each round
takes away one of them, and nothing that a timeout function does adds another (`Shrinks`): a timer
that is started during the call gets a deadline behind the current tick. So the loop ends, and the
rounds go through expired timers in the order of their deadlines.
-/

namespace Timer

open Links WrapTime SortedInsert List

variable {X C : Type} [DecidableEq X] [DecidableEq C] {cfg : Config} [NeZero cfg.levels] {s s' : State X}
  {base : BitVec 32} {rows rows' : Bool → ℕ → List X} {ord : X → ℕ} {starts : ℕ} {x y t : X}

/-- The time is not zero, and a deadline set with it now lies on the arc. -/
def Room (base : BitVec 32) (s : State X) (time : BitVec 32) : Prop :=
  0 < time.toNat ∧ (s.tick - base).toNat + time.toNat < half

/-- The hard timers are in order, and their deadlines and the tick are on one arc. -/
structure Ready (cfg : Config) (base : BitVec 32) (s : State X) : Prop where
  lists : ∃ ord starts rows, Lists cfg s ord starts rows
  arc : ∀ x, Pending cfg s false x → InArc base (s.timer x).timeoutTick
  tick : InArc base s.tick
  periods : ∀ x, (s.timer x).periodic = true → Room base s (s.timer x).initTick
  activated : ∀ x, Pending cfg s false x → (s.timer x).activated = true

/-- A pending timer whose deadline has been reached. -/
def Due (cfg : Config) (s : State X) (x : X) : Prop := Pending cfg s false x ∧ Expired s s.tick x

/-- From `s` to `s'` no timer became due. -/
structure Shrinks (cfg : Config) (s s' : State X) : Prop where
  tick : s'.tick = s.tick
  due : ∀ x, Due cfg s' x → Due cfg s x ∧ (s'.timer x).timeoutTick = (s.timer x).timeoutTick

section

omit [DecidableEq X] [NeZero cfg.levels]

lemma Shrinks.refl (s : State X) : Shrinks cfg s s := ⟨rfl, fun _ hx => ⟨hx, rfl⟩⟩

lemma Shrinks.trans {s'' : State X} (h : Shrinks cfg s s') (h' : Shrinks cfg s' s'') :
    Shrinks cfg s s'' := by
  refine ⟨h'.tick.trans h.tick, fun x hx => ?_⟩
  obtain ⟨hx', heq'⟩ := h'.due x hx
  obtain ⟨hx'', heq⟩ := h.due x hx'
  exact ⟨hx'', heq'.trans heq⟩

lemma Shrinks.not_due (h : Shrinks cfg s s') (hx : ¬ Due cfg s x) : ¬ Due cfg s' x :=
  fun hx' => hx (h.due x hx').1

/-- No timer was linked with a deadline that has been reached, and no such deadline changed. -/
lemma Shrinks.of_deadlines (htick : s'.tick = s.tick)
    (hpend : ∀ y, Due cfg s' y → Pending cfg s false y)
    (hdead : ∀ y, Due cfg s' y → (s'.timer y).timeoutTick = (s.timer y).timeoutTick) :
    Shrinks cfg s s' := by
  refine ⟨htick, fun y hy => ⟨⟨hpend y hy, ?_⟩, hdead y hy⟩⟩
  have hexp := hy.2
  rwa [Expired, htick, hdead y hy] at hexp

end

lemma Shrinks.remove (h : WellLinked cfg s) (x : X) : Shrinks cfg s (timerRemove cfg s x) := by
  obtain ⟨rows, hwoven⟩ := h
  exact .of_deadlines rfl (fun y hy => (hwoven.pending_remove.mp hy.1).2) fun _ _ => rfl

/-! ## Parts of a round -/

lemma Ready.remove (h : Ready cfg base s) (x : X) :
    Ready cfg base (timerRemove cfg s x) ∧ Shrinks cfg s (timerRemove cfg s x) ∧
      ∀ k y, Pending cfg (timerRemove cfg s x) k y ↔ y ≠ x ∧ Pending cfg s k y := by
  obtain ⟨ord, starts, rows, hlists⟩ := h.lists
  have hpend : ∀ y, Pending cfg (timerRemove cfg s x) false y → Pending cfg s false y :=
    fun y hy => (hlists.woven.pending_remove.mp hy).2
  exact ⟨⟨⟨ord, starts, _, hlists.remove x⟩, fun y hy => h.arc y (hpend y hy), h.tick, h.periods,
    fun y hy => h.activated y (hpend y hy)⟩, .remove ⟨rows, hlists.woven⟩ x,
    fun k y => hlists.woven.pending_remove⟩

/-- A change of a timer that is neither its kind nor the deadline of a linked timer. -/
lemma Ready.setTimer (h : Ready cfg base s) {r : RtTimer}
    (hdead : Linked cfg s x → r.timeoutTick = (s.timer x).timeoutTick)
    (hsoft : r.soft = (s.timer x).soft) (hperiod : r.periodic = true → Room base s r.initTick)
    (hact : Pending cfg s false x → r.activated = true) :
    Ready cfg base (s.setTimer x r) ∧ Shrinks cfg s (s.setTimer x r) := by
  obtain ⟨ord, starts, rows, hlists⟩ := h.lists
  have hdead' : ∀ y, Linked cfg s y →
      ((s.setTimer x r).timer y).timeoutTick = (s.timer y).timeoutTick := fun y hy => by
    by_cases hyx : y = x
    · subst hyx
      rw [setTimer_self, hdead hy]
    · rw [setTimer_of_ne hyx]
  have hpend : ∀ y, Pending cfg (s.setTimer x r) false y ↔ Pending cfg s false y :=
    fun y => pending_congr rfl
  refine ⟨⟨⟨ord, starts, rows, hlists.congr rfl (fun y hy => ?_) fun y => ?_⟩, fun y hy => ?_,
    h.tick, fun y hy => ?_, fun y hy => ?_⟩, .of_deadlines rfl (fun y hy => (hpend y).mp hy.1)
    fun y hy => hdead' y ⟨false, (hpend y).mp hy.1⟩⟩
  · by_contra hne
    exact hy (hlists.woven.unlinked fun hlinked => hne (hdead' y hlinked))
  · exact soft_setTimer hsoft
  · rw [hdead' y ⟨false, (hpend y).mp hy⟩]
    exact h.arc y ((hpend y).mp hy)
  · by_cases hyx : y = x
    · subst hyx
      rw [setTimer_self] at hy ⊢
      exact hperiod hy
    · rw [setTimer_of_ne hyx] at hy ⊢
      exact h.periods y hy
  · by_cases hyx : y = x
    · subst hyx
      rw [setTimer_self]
      exact hact ((hpend y).mp hy)
    · rw [setTimer_of_ne hyx]
      exact h.activated y ((hpend y).mp hy)

omit [DecidableEq X] in
lemma Room.deadline {time : BitVec 32} (hroom : Room base s time) (htick : InArc base s.tick) :
    InArc base (s.tick + time) ∧ ¬ Before (s.tick + time) s.tick := by
  obtain ⟨hpos, hlt⟩ := hroom
  simp only [InArc, Before, half, BitVec.toNat_sub, BitVec.toNat_add] at *
  omega

/-- The first critical section of `rt_timer_start`, which is also what a successful `rt_timer_stop`
does. -/
lemma Ready.startRemove (h : Ready cfg base s) (x : X) :
    Ready cfg base (startRemove cfg s x) ∧ Shrinks cfg s (startRemove cfg s x) ∧
      ∀ k y, Pending cfg (startRemove cfg s x) k y ↔ y ≠ x ∧ Pending cfg s k y := by
  obtain ⟨hremove, hshrink, hpend⟩ := h.remove x
  obtain ⟨hready, hshrink'⟩ := hremove.setTimer (x := x) (r := { s.timer x with activated := false })
    (fun _ => rfl) rfl (h.periods x) fun hx => absurd rfl ((hpend false x).mp hx).1
  exact ⟨hready, hshrink.trans hshrink', fun k y => (pending_congr rfl).trans (hpend k y)⟩

lemma Ready.start (h : Ready cfg base s) (hroom : Room base s (s.timer x).initTick)
    (hsoft : listOf cfg s x = true →
      ∀ y, Pending cfg s true y → InArc base (s.timer y).timeoutTick) :
    ∃ s', Returns (fun fuel => rtTimerStart cfg fuel s x) s' ∧ Ready cfg base s' ∧
      Shrinks cfg s s' ∧ (∀ y, Linked cfg s' y ↔ y = x ∨ Linked cfg s y) ∧
      (∀ y ≠ x, s'.timer y = s.timer y) ∧
      (s'.timer x).timeoutTick = s.tick + (s.timer x).initTick ∧
      (s'.timer x).activated = true ∧ ¬ Due cfg s' x := by
  obtain ⟨ord, starts, rows, hlists⟩ := h.lists
  obtain ⟨hbase, hlate⟩ := hroom.deadline h.tick
  have hlt : (s.timer x).initTick.toNat < half := lt_of_le_of_lt (Nat.le_add_left _ _) hroom.2
  obtain ⟨-, s', -, hpend, hother, hself, htick, ⟨n, hret⟩, -⟩ := hlists.woven.start hlt
  have harc : ∀ y, Pending cfg s (listOf cfg s x) y → InArc base (s.timer y).timeoutTick :=
    fun y hy => by
      cases hk : listOf cfg s x with
      | false => exact h.arc y (hk ▸ hy)
      | true => exact hsoft hk y (hk ▸ hy)
  obtain ⟨rows', hlists'⟩ := hlists.start hlt hbase harc (hret n le_rfl)
  have hpend' : ∀ y ≠ x, Pending cfg s' false y → Pending cfg s false y := fun y hyx hy =>
    (((hpend false y).mp hy).resolve_left fun heq => hyx heq.1).2
  -- the deadline of the timer itself is behind the tick
  have hdue : ¬ Due cfg s' x := fun hx => by
    have hexp := hx.2
    rw [Expired, hself, htick] at hexp
    exact hlate hexp
  have hne : ∀ y, Due cfg s' y → y ≠ x := fun y hy heq => hdue (heq ▸ hy)
  refine ⟨s', ⟨n, hret⟩, ⟨⟨_, _, rows', hlists'⟩, fun y hy => ?_, ?_, fun y hy => ?_,
    fun y hy => ?_⟩, .of_deadlines htick (fun y hy => hpend' y (hne y hy) hy.1) fun y hy => ?_,
    fun y => ?_, hother, ?_, ?_, hdue⟩
  · by_cases hyx : y = x
    · rw [hyx, hself]
      exact hbase
    · rw [hother y hyx]
      exact h.arc y (hpend' y hyx hy)
  · rw [htick]
    exact h.tick
  · by_cases hyx : y = x
    · rw [hyx, hself, Room, htick]
      exact hroom
    · rw [hother y hyx] at hy ⊢
      rw [Room, htick]
      exact h.periods y hy
  · by_cases hyx : y = x
    · rw [hyx, hself]
    · rw [hother y hyx]
      exact h.activated y (hpend' y hyx hy)
  · rw [hother y (hne y hy)]
  · simp only [Linked, hpend, exists_or, exists_and_left, exists_eq, and_true]
    by_cases hyx : y = x <;> simp [hyx]
  · rw [hself]
  · rw [hself]

/-! ## Timeout functions -/

/-- The timeout function of `t` may do this in `s`: start or stop another timer, or change a timer,
with a time that is not zero and a deadline on the arc. -/
def Permits (cfg : Config) (base : BitVec 32) (t : X) (s : State X) : Action X → Prop
  | .start x => x ≠ t ∧ Room base s (s.timer x).initTick ∧
      (listOf cfg s x = true → ∀ y, Pending cfg s true y → InArc base (s.timer y).timeoutTick)
  | .stop x => x ≠ t
  | .control x (.setTime time) => (s.timer x).periodic = true → Room base s time
  | .control _ .setOneshot => True
  | .control x .setPeriodic => Room base s (s.timer x).initTick

/-- The timeout function of `t` may do all this, one after the other. -/
def Allowed (cfg : Config) (base : BitVec 32) (t : X) : State X → List (Action X) → Prop
  | _, [] => True
  | s, a :: as => Permits cfg base t s a ∧
      ∀ fuel s' stopped, act cfg fuel s a = .ok (s', stopped) → Allowed cfg base t s' as

/-- What holds in `s'` after a part of the timeout function of `t`, called in `s`. -/
structure During (cfg : Config) (base : BitVec 32) (t : X) (s s' : State X) : Prop where
  ready : Ready cfg base s'
  shrinks : Shrinks cfg s s'
  unlinked : ¬ Linked cfg s' t
  activated : (s'.timer t).activated = (s.timer t).activated
  soft : (s'.timer t).soft = (s.timer t).soft

omit [DecidableEq X] [NeZero cfg.levels] in
lemma During.trans {s'' : State X} (h : During cfg base t s s') (h' : During cfg base t s' s'') :
    During cfg base t s s'' :=
  ⟨h'.ready, h.shrinks.trans h'.shrinks, h'.unlinked, h'.activated.trans h.activated,
    h'.soft.trans h.soft⟩

lemma Ready.control (h : Ready cfg base s) {cmd : Command}
    (hp : Permits cfg base t s (.control x cmd)) :
    Ready cfg base (rtTimerControl s x cmd) ∧ Shrinks cfg s (rtTimerControl s x cmd) := by
  cases cmd with
  | setTime time => exact h.setTimer (fun _ => rfl) rfl hp (h.activated x)
  | setOneshot => exact h.setTimer (fun _ => rfl) rfl nofun (h.activated x)
  | setPeriodic => exact h.setTimer (fun _ => rfl) rfl (fun _ => hp) (h.activated x)

omit [NeZero cfg.levels] in
lemma act_stop (hact : (s.timer x).activated = true) (fuel : ℕ) :
    act cfg fuel s (.stop x) = .ok (startRemove cfg s x, [x]) := by
  simp [act, rtTimerStop, hact, startRemove]

omit [NeZero cfg.levels] in
lemma act_stop_inactive (hact : (s.timer x).activated = false) (fuel : ℕ) :
    act cfg fuel s (.stop x) = .ok (s, []) := by
  simp [act, rtTimerStop, hact]

lemma Ready.act (h : Ready cfg base s) (ht : ¬ Linked cfg s t)
    {a : Action X} (hp : Permits cfg base t s a) :
    ∃ s' stopped, Returns (fun fuel => act cfg fuel s a) (s', stopped) ∧ During cfg base t s s' ∧
      ∀ x ∈ stopped, ¬ Due cfg s' x := by
  cases a with
  | start x =>
    obtain ⟨hxt, hroom, hsoft⟩ := hp
    obtain ⟨s', hret, hready, hshrink, hlinked, hother, -⟩ := h.start hroom hsoft
    refine ⟨s', [], hret.map fun s => (s, []), ⟨hready, hshrink, fun hx => ?_, ?_, ?_⟩, by simp⟩
    · exact ((hlinked t).mp hx).elim hxt.symm ht
    · rw [hother t hxt.symm]
    · rw [hother t hxt.symm]
  | stop x =>
    obtain ⟨hready, hshrink, hpend⟩ := h.startRemove x
    cases hact : (s.timer x).activated with
    | true =>
      have hself : (Timer.startRemove cfg s x).timer t = s.timer t :=
        setTimer_of_ne (Ne.symm hp)
      refine ⟨_, [x], ⟨0, fun fuel _ => act_stop hact fuel⟩,
        ⟨hready, hshrink, fun ⟨k, hx⟩ => ?_, ?_, ?_⟩, ?_⟩
      · exact ht ⟨k, ((hpend k t).mp hx).2⟩
      · rw [hself]
      · rw [hself]
      · intro y hy hdue
        exact ((hpend false y).mp hdue.1).1 (mem_singleton.mp hy)
    | false =>
      exact ⟨s, [], ⟨0, fun fuel _ => act_stop_inactive hact fuel⟩, ⟨h, .refl s, ht, rfl, rfl⟩,
        by simp⟩
  | control x cmd =>
    obtain ⟨hready, hshrink⟩ := h.control hp
    obtain ⟨hlinks, hact, hsoft⟩ := control_frame s x t cmd
    exact ⟨_, [], .const _, ⟨hready, hshrink, fun hx => ht ((linked_congr hlinks).mp hx), hact,
      hsoft⟩, by simp⟩

/-- A timeout function returns; a timer that it stops is not due afterwards. -/
lemma Ready.runActions {as : List (Action X)} :
    ∀ {s : State X}, Ready cfg base s → ¬ Linked cfg s t → Allowed cfg base t s as →
    ∃ s' stopped, Returns (fun fuel => runActions cfg fuel s as) (s', stopped) ∧
      During cfg base t s s' ∧ ∀ x ∈ stopped, ¬ Due cfg s' x := by
  induction as with
  | nil =>
    intro s h ht _
    exact ⟨s, [], .const _, ⟨h, .refl s, ht, rfl, rfl⟩, by simp⟩
  | cons a as ih =>
    intro s h ht hallow
    obtain ⟨s1, stopped1, hret1, hduring1, hdue1⟩ := h.act ht hallow.1
    obtain ⟨n, hn⟩ := hret1
    obtain ⟨s2, stopped2, hret2, hduring2, hdue2⟩ := ih hduring1.ready hduring1.unlinked
      (hallow.2 n s1 stopped1 (hn n le_rfl))
    refine ⟨s2, stopped1 ++ stopped2, ?_, hduring1.trans hduring2, fun x hx => ?_⟩
    · exact Returns.append (g := fun fuel s => Timer.runActions cfg fuel s as) ⟨n, hn⟩ hret2
    · rcases mem_append.mp hx with hx | hx
      · exact hduring2.shrinks.not_due (hdue1 x hx)
      · exact hdue2 x hx

/-! ## Loop -/

/-- A periodic timer is pending again at the end of its round, one period behind the tick at which
its timeout function returned; any other timer is in no list. -/
def Rearmed (cfg : Config) (r : Round X) : Prop :=
  if (r.returned.timer r.timer).periodic then
    Linked cfg r.finish r.timer ∧ (r.finish.timer r.timer).activated = true ∧
      (r.finish.timer r.timer).timeoutTick =
        r.returned.tick + (r.returned.timer r.timer).initTick
  else ¬ Linked cfg r.finish r.timer ∧ (r.finish.timer r.timer).activated = false

lemma Ready.afterCallback (h : Ready cfg base s)
    (ht : ¬ Linked cfg s t) (hact : (s.timer t).activated = true) (hhard : listOf cfg s t = false) :
    ∃ s', Returns (fun fuel => afterCallback cfg fuel s t) s' ∧ Ready cfg base s' ∧
      Shrinks cfg s s' ∧ ¬ Due cfg s' t ∧
      ∀ found stopped, Rearmed cfg ⟨t, found, s, s', stopped⟩ := by
  obtain ⟨hready, hshrink⟩ := h.setTimer (x := t) (r := { s.timer t with activated := false })
    (fun _ => rfl) rfl (h.periods t) fun hx => absurd ⟨false, hx⟩ ht
  have hnot : ¬ Linked cfg (s.setActivated t false) t := fun hx => ht ((linked_congr rfl).mp hx)
  cases hper : (s.timer t).periodic with
  | true =>
    have hself : (s.setActivated t false).timer t = { s.timer t with activated := false } :=
      setTimer_self
    have hhard' : listOf cfg (s.setActivated t false) t ≠ true := by
      rw [listOf, hself]
      simpa [listOf] using hhard
    obtain ⟨s', hret, hready', hshrink', hlinked, -, hdead, hact', hdue⟩ := Ready.start (x := t)
      hready (by rw [setTimer_self]; exact h.periods t hper) fun hk => absurd hk hhard'
    refine ⟨s', ?_, hready', hshrink.trans hshrink', hdue, fun found stopped => ?_⟩
    · refine hret.imp fun n hn fuel hfuel => ?_
      simp only [Timer.afterCallback, hper, hact, and_self, if_true]
      exact hn fuel hfuel
    · rw [Rearmed, if_pos hper]
      refine ⟨(hlinked t).mpr (Or.inl rfl), hact', ?_⟩
      rw [hdead, setTimer_self]
      rfl
  | false =>
    refine ⟨s.setActivated t false, ?_, hready, hshrink, fun hx => hnot ⟨false, hx.1⟩,
      fun found stopped => ?_⟩
    · simp only [Timer.afterCallback, hper]
      exact .const _
    · rw [Rearmed, if_neg (by simp [hper])]
      exact ⟨hnot, activated_setActivated⟩

omit [NeZero cfg.levels] in
lemma expire_returns {callback : State X → List (Action X)} {returned finish : State X}
    {stopped : List X} (hrun : Returns (fun fuel =>
      runActions cfg fuel (timerRemove cfg s t) (callback (timerRemove cfg s t))) (returned, stopped))
    (hafter : Returns (fun fuel => afterCallback cfg fuel returned t) finish) :
    Returns (fun fuel => expire cfg fuel s t callback) ⟨t, s, returned, finish, stopped⟩ :=
  Returns.bind (g := fun fuel (p : State X × List X) => do
    let finish ← afterCallback cfg fuel p.1 t
    .ok (Round.mk t s p.1 finish p.2)) hrun (Returns.bind
      (g := fun _ finish => .ok (Round.mk t s returned finish stopped)) hafter (.const _))

/-- A round returns. Neither its timer nor one that its timeout function stopped is due at its
end. -/
lemma Ready.expire (h : Ready cfg base s)
    (ht : Pending cfg s false t) {callback : State X → List (Action X)}
    (hallow : Allowed cfg base t (timerRemove cfg s t) (callback (timerRemove cfg s t))) :
    ∃ r, Returns (fun fuel => expire cfg fuel s t callback) r ∧ r.timer = t ∧ r.found = s ∧
      Ready cfg base r.finish ∧ Shrinks cfg s r.finish ∧ r.returned.tick = r.finish.tick ∧
      (∀ x, x = t ∨ x ∈ r.stopped → ¬ Due cfg r.finish x) ∧ Rearmed cfg r := by
  obtain ⟨hremoved, hshrink, hpend⟩ := h.remove t
  have hnot : ¬ Linked cfg (timerRemove cfg s t) t := fun ⟨k, hx⟩ => ((hpend k t).mp hx).1 rfl
  obtain ⟨returned, stopped, hret, hduring, hstopped⟩ :=
    hremoved.runActions hnot hallow
  have hact : (returned.timer t).activated = true := hduring.activated.trans (h.activated t ht)
  have hhard : listOf cfg returned t = false := by
    obtain ⟨ord, starts, rows, hlists⟩ := h.lists
    rw [listOf, hduring.soft]
    exact (hlists.kind false _ (last_lt cfg) t (hlists.stored.pending_iff.mp ht)).symm
  obtain ⟨finish, hret', hready, hshrink', hdue, hrearmed⟩ :=
    hduring.ready.afterCallback hduring.unlinked hact hhard
  refine ⟨⟨t, s, returned, finish, stopped⟩, expire_returns hret hret', rfl, rfl, hready,
    (hshrink.trans hduring.shrinks).trans hshrink', hshrink'.tick.symm, ?_, hrearmed s stopped⟩
  rintro x (rfl | hx)
  · exact hdue
  · exact hshrink'.not_due (hstopped x hx)

lemma Stored.firstTimer_eq (hst : Stored cfg s rows) (k : Bool) :
    firstTimer cfg s k = .ok (rows k (cfg.levels - 1)).head? := by
  have hrow : rowLists cfg.levels rows (k, _) = _ := rowLists_of_lt (last_lt cfg)
  unfold Timer.firstTimer
  cases hxs : rows k (cfg.levels - 1) with
  | nil =>
    rw [hxs, map_nil] at hrow
    rw [if_pos (hst.isEmpty_iff.mpr hrow)]
    rfl
  | cons t xs =>
    rw [hxs, map_cons] at hrow
    have hne : ¬ s.links.isEmpty (.head (k, cfg.levels - 1)) := by
      rw [hst.isEmpty_iff, hrow]
      simp
    rw [if_neg hne, hst.next_head hrow]
    rfl

/-- The loop looks at a pending timer with the earliest deadline. -/
lemma Lists.firstTimer (h : Lists cfg s ord starts rows) (k : Bool) :
    (firstTimer cfg s k = .ok none ∧ ∀ x, ¬ Pending cfg s k x) ∨
      ∃ t, firstTimer cfg s k = .ok (some t) ∧ Pending cfg s k t ∧
        ∀ x, Pending cfg s k x → Before (s.timer t).timeoutTick (s.timer x).timeoutTick := by
  have hsorted := (h.nested k).sorted (cfg.levels - 1) (last_lt cfg)
  simp only [h.stored.pending_iff, h.stored.firstTimer_eq]
  cases hxs : rows k (cfg.levels - 1) with
  | nil => simp
  | cons t xs =>
    refine Or.inr ⟨t, rfl, mem_cons_self, fun x hx => ?_⟩
    rw [hxs, pairwise_cons] at hsorted
    rcases mem_cons.mp hx with rfl | hx
    · exact before_refl _
    · exact (hsorted.1 x hx).1

/-- The state of the loop before its `n`-th round. -/
inductive AtRound (cfg : Config) (callback : ℕ → X → State X → List (Action X)) (s : State X) :
    ℕ → State X → Prop
  | zero : AtRound cfg callback s 0 s
  | succ {n fuel : ℕ} {s' : State X} {t : X} {r : Round X} (hs : AtRound cfg callback s n s')
      (hfirst : firstTimer cfg s' false = .ok (some t))
      (hr : expire cfg fuel s' t (callback n t) = .ok r) : AtRound cfg callback s (n + 1) r.finish

/-- The timeout functions that are called start and stop other timers, with times that are not
zero and deadlines on the arc. -/
def Lawful (cfg : Config) (base : BitVec 32) (callback : ℕ → X → State X → List (Action X))
    (s : State X) : Prop :=
  ∀ n s' t, AtRound cfg callback s n s' → firstTimer cfg s' false = .ok (some t) →
    Allowed cfg base t (timerRemove cfg s' t) (callback n t (timerRemove cfg s' t))

/-- What a call of `rt_timer_check` in `s` that returns in `s'` did. -/
structure Processed (cfg : Config) (s s' : State X) (log : List (Round X)) : Prop where
  /-- Every timer was pending and its deadline was reached. -/
  due : ∀ r ∈ log, Due cfg r.found r.timer
  /-- The timers were run in the order of their deadlines. -/
  sorted : log.Pairwise fun r r' => Before (r.found.timer r.timer).timeoutTick
    (r'.found.timer r'.timer).timeoutTick
  /-- A timer that was stopped was not run any more. -/
  stopped : log.Pairwise fun r r' => r'.timer ∉ r.stopped
  /-- Exactly the periodic timers were started again. -/
  rearmed : ∀ r ∈ log, Rearmed cfg r
  /-- No deadline of a pending timer has been reached. -/
  none_due : ∀ x, ¬ Due cfg s' x
  tick : s'.tick = s.tick

section

omit [DecidableEq X]

lemma Stored.finite_pending (hst : Stored cfg s rows) {k : Bool} :
    {x | Pending cfg s k x}.Finite :=
  (rows k (cfg.levels - 1)).finite_toSet.subset fun _ hx => hst.pending_iff.mp hx

lemma Stored.finite_due (hst : Stored cfg s rows) : {x | Due cfg s x}.Finite :=
  hst.finite_pending.subset fun _ hx => hx.1

/-- A round in which timers stop to be due leaves fewer of them. -/
lemma Stored.ncard_due_lt (hst : Stored cfg s rows) (hshrink : Shrinks cfg s s') (ht : Due cfg s t)
    (hnot : ¬ Due cfg s' t) : {x | Due cfg s' x}.ncard < {x | Due cfg s x}.ncard := by
  apply Set.ncard_lt_ncard _ hst.finite_due
  exact (Set.ssubset_iff_of_subset fun x hx => (hshrink.due x hx).1).mpr ⟨t, ht, hnot⟩

end

section

variable {callback : ℕ → X → State X → List (Action X)} {n : ℕ}

omit [NeZero cfg.levels] in
lemma checkLoop_stop {first : Option X} (hfirst : firstTimer cfg s false = .ok first)
    (hexp : ∀ t, first = some t → ¬ Expired s s.tick t) :
    ∀ fuel ≥ 1, ∀ rounds ≥ 1, checkLoop cfg fuel callback rounds n s.tick s = .ok (s, []) := by
  intro fuel _ rounds hrounds
  obtain ⟨rounds, rfl⟩ := Nat.exists_eq_add_of_le' hrounds
  cases first with
  | none => simp [checkLoop, hfirst]
  | some t => simp [checkLoop, hfirst, hexp t rfl]

omit [NeZero cfg.levels] in
lemma checkLoop_round {N N' : ℕ} {r : Round X} {s' : State X} {log : List (Round X)}
    (hfirst : firstTimer cfg s false = .ok (some t)) (hexp : Expired s s.tick t)
    (hret : ∀ fuel ≥ N, expire cfg fuel s t (callback n t) = .ok r)
    (htick : r.returned.tick = r.finish.tick)
    (hloop : ∀ fuel ≥ N', ∀ rounds ≥ N',
      checkLoop cfg fuel callback rounds (n + 1) r.finish.tick r.finish = .ok (s', log)) :
    ∀ fuel ≥ max N N' + 1, ∀ rounds ≥ max N N' + 1,
      checkLoop cfg fuel callback rounds n s.tick s = .ok (s', r :: log) := by
  intro fuel hfuel rounds hrounds
  obtain ⟨rounds, rfl⟩ := Nat.exists_eq_add_of_le' (show 1 ≤ rounds by omega)
  rw [checkLoop, hfirst, ok_bind]
  simp only [hexp, if_true]
  rw [hret fuel (by omega), ok_bind, htick, hloop fuel (by omega) rounds (by omega), ok_bind]

end

lemma Ready.checkLoop {callback : ℕ → X → State X → List (Action X)}
    {s₀ : State X} (hlaw : Lawful cfg base callback s₀) (k : ℕ) :
    ∀ {n : ℕ} {s : State X}, Ready cfg base s → {x | Due cfg s x}.ncard = k →
    AtRound cfg callback s₀ n s →
    ∃ s' log N, (∀ fuel ≥ N, ∀ rounds ≥ N, checkLoop cfg fuel callback rounds n s.tick s =
        .ok (s', log)) ∧
      Processed cfg s s' log ∧ ∀ r ∈ log, Due cfg s r.timer ∧
        (r.found.timer r.timer).timeoutTick = (s.timer r.timer).timeoutTick := by
  induction k using Nat.strong_induction_on with
  | _ k ih =>
  intro n s h hcard hat
  obtain ⟨ord, starts, rows, hlists⟩ := h.lists
  rcases hlists.firstTimer false with ⟨hfirst, hnone⟩ | ⟨t, hfirst, hpend, hmin⟩
  · exact ⟨s, [], 1, checkLoop_stop hfirst nofun, ⟨by simp, .nil, .nil, by simp,
      fun x hx => hnone x hx.1, rfl⟩, by simp⟩
  by_cases hexp : Expired s s.tick t
  · obtain ⟨r, ⟨N, hret⟩, rfl, rfl, hready, hshrink, htick, hstop, hrearmed⟩ :=
      h.expire hpend (hlaw n s t hat hfirst)
    have hlt := hlists.stored.ncard_due_lt hshrink ⟨hpend, hexp⟩ (hstop _ (Or.inl rfl))
    obtain ⟨s', log, N', hloop, hproc, hlog⟩ := ih _ (hcard ▸ hlt) hready rfl
      (hat.succ hfirst (hret N le_rfl))
    have hlog' : ∀ r' ∈ log, Due cfg r.found r'.timer ∧
        (r'.found.timer r'.timer).timeoutTick = (r.found.timer r'.timer).timeoutTick :=
      fun r' hr' => by
        obtain ⟨hdue, heq⟩ := hlog r' hr'
        exact ⟨(hshrink.due _ hdue).1, heq.trans (hshrink.due _ hdue).2⟩
    refine ⟨s', r :: log, _, checkLoop_round hfirst hexp hret htick hloop, ⟨?_, ?_, ?_, ?_,
      hproc.none_due, hproc.tick.trans hshrink.tick⟩, ?_⟩
    · exact forall_mem_cons.mpr ⟨⟨hpend, hexp⟩, hproc.due⟩
    · refine pairwise_cons.mpr ⟨fun r' hr' => ?_, hproc.sorted⟩
      rw [(hlog' r' hr').2]
      exact hmin _ (hlog' r' hr').1.1
    · exact pairwise_cons.mpr ⟨fun r' hr' hmem => hstop _ (Or.inr hmem) (hlog r' hr').1,
        hproc.stopped⟩
    · exact forall_mem_cons.mpr ⟨hrearmed, hproc.rearmed⟩
    · exact forall_mem_cons.mpr ⟨⟨⟨hpend, hexp⟩, rfl⟩, hlog'⟩
  · -- the first deadline is not reached, so no other one is
    refine ⟨s, [], 1, checkLoop_stop hfirst (by simpa using hexp), ⟨by simp, .nil, .nil, by simp,
      fun x hx => hexp ?_, rfl⟩, by simp⟩
    exact (hmin x hx.1).trans (h.arc t hpend) (h.arc x hx.1) h.tick hx.2

end Timer
