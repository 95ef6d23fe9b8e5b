import TempSns.Timer.Sorted

/-!
# The activation flag

A timer should have `RT_TIMER_FLAG_ACTIVATED` set exactly while it is linked. `FlagInv` states both
directions. A linked timer is activated, also while its own timeout function runs, up to the moment at
which an expiry function clears the flag and starts the timer again. An activated timer is linked,
except from the removal by an expiry function to the end of its restart, and from the critical section
of a stop to the update of the flag. Both are kept by every step if calls on one timer do not overlap
and a timeout function returns with its own timer unlinked, unless that timer is periodic and activated
(`ReleasesTimer`).

Both expiry functions clear the flag of a one-shot timer after its timeout function, without a look
at the lists: a timer that was started again by its own timeout function stays linked with the flag
cleared.
-/

namespace Timer

open Links WrapTime Machine

variable {X C : Type} [DecidableEq X] [DecidableEq C] {cfg : Config} [NeZero cfg.levels] {s s' : State X}
  {m m' : Machine X C} {rows : Bool → ℕ → List X} {ord : X → ℕ} {starts : ℕ} {x y : X} {c : C}
  {fuel : ℕ} {a : Act X C} {p : Call X} {b : Bool}

/-- The timer is in a timer list. -/
def Linked (cfg : Config) (s : State X) (x : X) : Prop := ∃ k, Pending cfg s k x

omit [DecidableEq X] in
lemma Stored.linked_iff (hst : Stored cfg s rows) :
    Linked cfg s x ↔ ∃ k, x ∈ rows k (cfg.levels - 1) :=
  exists_congr fun _ => hst.pending_iff

omit [DecidableEq X] [NeZero cfg.levels] in
lemma linked_congr (hlinks : s'.links = s.links) : Linked cfg s' x ↔ Linked cfg s x := by
  unfold Linked Pending
  rw [hlinks]

section

variable (h : Lists cfg s ord starts rows)

include h

lemma Lists.linked_remove : Linked cfg (timerRemove cfg s x) y ↔ y ≠ x ∧ Linked cfg s y := by
  rw [(h.remove x).stored.linked_iff, h.stored.linked_iff, ← exists_and_left]
  exact exists_congr fun k => (h.stored.nodup (last_lt cfg)).mem_erase_iff

lemma Lists.linked_insert (hx : Unlinked cfg rows x) (hhalf : WithinHalf cfg s x)
    (hok : startInsert cfg fuel s x = .ok s') :
    (Linked cfg s' y ↔ y = x ∨ Linked cfg s y) ∧ s'.timer = (s.setActivated x true).timer := by
  obtain ⟨rows', hlists, -, hmem, htimer, -⟩ := h.insert hx hhalf hok
  refine ⟨?_, htimer⟩
  rw [hlists.stored.linked_iff, h.stored.linked_iff]
  constructor
  · rintro ⟨k, hk⟩
    exact ((hmem k y).mp hk).imp (fun h => h.1) fun h => ⟨k, h⟩
  · rintro (rfl | ⟨k, hk⟩)
    · exact ⟨_, (hmem _ _).mpr (.inl ⟨rfl, rfl⟩)⟩
    · exact ⟨k, (hmem k y).mpr (.inr hk)⟩

omit [DecidableEq X] in
lemma Lists.not_linked (hx : Unlinked cfg rows x) : ¬ Linked cfg s x := by
  rw [h.stored.linked_iff]
  rintro ⟨k, hk⟩
  exact hx k _ (last_lt cfg) hk

end

/-! ## Invariant -/

/-- The timeout function of the timer runs. -/
def Fires (m : Machine X C) (x : X) : Prop :=
  (∃ k, m.check = some k ∧ k.firing = some x) ∨ ∃ k, m.softCheck = some k ∧ k.firing = some x

/-- An expiry function has cleared the flag of the timer and is about to start it again. -/
def Rearming (m : Machine X C) (x : X) : Prop := ∃ c, m.call c = .rearm x

/-- An expiry function is processing the timer, or a stop of it has not cleared its flag yet. -/
def Exempt (m : Machine X C) (x : X) : Prop :=
  (∃ c, m.call c = .rearm x ∨ m.call c = .stopRemoved x) ∨ Fires m x

/-- A linked timer is activated and an activated timer is linked, where nothing is in progress. -/
def FlagInv (cfg : Config) (m : Machine X C) (x : X) : Prop :=
  (¬ Rearming m x → Linked cfg m.st x → (m.st.timer x).activated = true) ∧
    (¬ Exempt m x → (m.st.timer x).activated = true → Linked cfg m.st x)

/-- What is in progress for the timer is still in progress after the step. -/
def Keeps (m m' : Machine X C) (x : X) : Prop :=
  (Rearming m x → Rearming m' x) ∧ (Exempt m x → Exempt m' x)

/-- A timeout function returns with its own timer unlinked, or activated and periodic. -/
def ReleasesTimer (cfg : Config) (m : Machine X C) : Act X C → Prop
  | .checkNext => ∀ k t, m.check = some k → k.firing = some t → Linked cfg m.st t →
      (m.st.timer t).periodic = true ∧ (m.st.timer t).activated = true
  | .softNext => ∀ k t, m.softCheck = some k → k.firing = some t → Linked cfg m.st t →
      (m.st.timer t).periodic = true ∧ (m.st.timer t).activated = true
  | _ => True

namespace FlagInv

omit [DecidableEq X] [DecidableEq C] [NeZero cfg.levels] in
lemma of_iff (h : (m.st.timer x).activated = true ↔ Linked cfg m.st x) : FlagInv cfg m x :=
  ⟨fun _ => h.mpr, fun _ => h.mp⟩

omit [DecidableEq C] [DecidableEq X] in
lemma init {timer : X → RtTimer} {tick : BitVec 32} (hinit : ∀ x, (timer x).activated = false) :
    FlagInv cfg (.init timer tick : Machine X C) x := by
  have hst : Stored cfg (.init timer tick : Machine X C).st (fun _ _ => []) :=
    (ListInv.init timer tick).lists.stored
  apply of_iff
  rw [hst.linked_iff]
  simp [Machine.init, hinit]

omit [DecidableEq X] [DecidableEq C] [NeZero cfg.levels] in
/-- A step that leaves the flag and the links of the timer. -/
lemma congr (h : FlagInv cfg m x) (hflag : (m'.st.timer x).activated = (m.st.timer x).activated)
    (hlinks : Linked cfg m'.st x ↔ Linked cfg m.st x) (hkeeps : Keeps m m' x) :
    FlagInv cfg m' x := by
  unfold FlagInv
  rw [hflag, hlinks]
  exact ⟨fun hno => h.1 fun hre => hno (hkeeps.1 hre), fun hno => h.2 fun hex => hno (hkeeps.2 hex)⟩

omit [DecidableEq C] [NeZero cfg.levels] in
/-- A step that decides about the timer `x` and leaves the flags and links of all others. -/
lemma of_others (h : ∀ y, FlagInv cfg m y) (x : X)
    (hother : ∀ y ≠ x, (m'.st.timer y).activated = (m.st.timer y).activated ∧
      (Linked cfg m'.st y ↔ Linked cfg m.st y))
    (hkeeps : ∀ y ≠ x, Keeps m m' y) (hself : FlagInv cfg m' x) : ∀ y, FlagInv cfg m' y := by
  intro y
  by_cases hyx : y = x
  · exact hyx ▸ hself
  · exact (h y).congr (hother y hyx).1 (hother y hyx).2 (hkeeps y hyx)

omit [DecidableEq X] [DecidableEq C] [NeZero cfg.levels] in
lemma of_same (h : ∀ y, FlagInv cfg m y)
    (hsame : ∀ y, (m'.st.timer y).activated = (m.st.timer y).activated)
    (hlinks : m'.st.links = m.st.links) (hkeeps : ∀ y, Keeps m m' y) : ∀ y, FlagInv cfg m' y :=
  fun y => (h y).congr (hsame y) (linked_congr hlinks) (hkeeps y)

end FlagInv

omit [DecidableEq X] in
/-- A context moves that is not at work for the timer. -/
lemma keeps_setCall (hc : m.call c ≠ .rearm y ∧ m.call c ≠ .stopRemoved y) :
    Keeps m (m.setCall c p) y := by
  have hcall : ∀ c', m.call c' = .rearm y ∨ m.call c' = .stopRemoved y →
      (m.setCall c p).call c' = m.call c' := by
    intro c' hc'
    have hcc : c' ≠ c := by
      rintro rfl
      exact hc'.elim hc.1 hc.2
    simp [setCall, hcc]
  refine ⟨Exists.imp fun c' hc' => ?_, Or.imp_left (Exists.imp fun c' hc' => ?_)⟩
  · rwa [hcall c' (.inl hc')]
  · rwa [hcall c' hc']

lemma activated_setTimer_of_ne {t : RtTimer} (hyx : y ≠ x) :
    ((s.setTimer x t).timer y).activated = (s.timer y).activated := by
  simp [State.setTimer, hyx]

@[simp] lemma activated_setActivated : ((s.setActivated x b).timer x).activated = b := by
  simp [State.setActivated, State.setTimer]

lemma activated_setActivated_of_ne (hyx : y ≠ x) :
    ((s.setActivated x b).timer y).activated = (s.timer y).activated :=
  activated_setTimer_of_ne hyx

namespace FlagInv

variable (h : ∀ y, FlagInv cfg m y)

include h

/-- The first critical section of `rt_timer_start`. -/
lemma startRemove (inv : ListInv cfg m rows)
    (hc : m.call c = .startEntered x ∨ m.call c = .rearm x) :
    ∀ y, FlagInv cfg ({ m with st := startRemove cfg m.st x }.setCall c (.startRemoved x)) y := by
  have hlinked : ∀ y, Linked cfg (Timer.startRemove cfg m.st x) y ↔ y ≠ x ∧ Linked cfg m.st y :=
    fun y => inv.lists.linked_remove
  refine of_others h x (fun y hyx => ⟨activated_setActivated_of_ne hyx, ?_⟩) (fun y hyx => ?_)
    (of_iff ?_)
  · exact (hlinked y).trans (and_iff_right hyx)
  · apply keeps_setCall (m := { m with st := Timer.startRemove cfg m.st x })
    rcases hc with hc | hc <;> simp [hc, hyx.symm]
  · show ((Timer.startRemove cfg m.st x).timer x).activated = true ↔
      Linked cfg (Timer.startRemove cfg m.st x) x
    rw [hlinked]
    simp [Timer.startRemove]

omit [NeZero cfg.levels] in
lemma startTick (hc : m.call c = .startRemoved x) (hok : startTick m.st x = .ok s) :
    ∀ y, FlagInv cfg ({ m with st := s }.setCall c (.startTicked x)) y := by
  obtain ⟨-, hok⟩ := ite_eq_ok.mp hok
  obtain rfl := Except.ok.inj hok
  refine of_same h (fun y => ?_) rfl fun y =>
    keeps_setCall (m := { m with st := _ }) (by simp [hc])
  by_cases hyx : y = x <;> simp [setCall, State.setTimer, hyx]

/-- The second critical section of `rt_timer_start`. -/
lemma startInsert (inv : ListInv cfg m rows)
    (hc : m.call c = .startTicked x) (hhalf : WithinHalf cfg m.st x)
    (hok : startInsert cfg fuel m.st x = .ok s) :
    ∀ y, FlagInv cfg ({ m with
      st := s
      order := Function.update m.order x m.starts
      starts := m.starts + 1
      stopped := Function.update m.stopped x false }.setCall c .idle) y := by
  have hins : ∀ y, (Linked cfg s y ↔ y = x ∨ Linked cfg m.st y) ∧
      s.timer = (m.st.setActivated x true).timer := fun y =>
    inv.lists.linked_insert (inv.starting c x (.inr hc)) hhalf hok
  have hflag : ∀ y, (s.timer y).activated = ((m.st.setActivated x true).timer y).activated :=
    fun y => by rw [(hins y).2]
  refine of_others h x (fun y hyx => ⟨?_, ?_⟩) (fun y _ => ?_) (of_iff ?_)
  · exact (hflag y).trans (activated_setActivated_of_ne hyx)
  · exact (hins y).1.trans (or_iff_right hyx)
  · exact keeps_setCall (m := { m with st := _, order := _, starts := _, stopped := _ })
      (by simp [hc])
  · show (s.timer x).activated = true ↔ Linked cfg s x
    rw [hflag, (hins x).1]
    simp

/-- The critical section of `rt_timer_stop`; the flag follows. -/
lemma stopRemove (inv : ListInv cfg m rows) (hc : m.call c = .stopChecked x) :
    ∀ y, FlagInv cfg ({ m with st := timerRemove cfg m.st x }.setCall c (.stopRemoved x)) y := by
  refine of_others h x (fun y hyx => ⟨rfl, ?_⟩) (fun y _ => ?_) ⟨fun _ hlinked => ?_, fun hex => ?_⟩
  · exact inv.lists.linked_remove.trans (and_iff_right hyx)
  · exact keeps_setCall (m := { m with st := _ }) (by simp [hc])
  · exact absurd rfl (inv.lists.linked_remove.mp hlinked).1
  · exact absurd (.inl ⟨c, .inr (by simp [setCall])⟩) hex

lemma stopClear (inv : ListInv cfg m rows) (hc : m.call c = .stopRemoved x) :
    ∀ y, FlagInv cfg ({ m with
      st := m.st.setActivated x false
      stopped := Function.update m.stopped x true }.setCall c .idle) y := by
  refine of_others h x (fun y hyx => ⟨activated_setActivated_of_ne hyx, linked_congr rfl⟩)
    (fun y hyx => ?_) (of_iff ?_)
  · exact keeps_setCall (m := { m with st := _, stopped := _ }) (by simp [hc, hyx.symm])
  · show ((m.st.setActivated x false).timer x).activated = true ↔
      Linked cfg (m.st.setActivated x false) x
    have hnot : ¬ Linked cfg (m.st.setActivated x false) x := fun hlinked =>
      inv.lists.not_linked (inv.stopping c x hc) ((linked_congr rfl).mp hlinked)
    simp [hnot]

omit [NeZero cfg.levels] in
/-- The end of a timeout function in either expiry function, which goes on in `m'`. -/
lemma callbackReturned (hc : m.call c = .idle) {t : X} (hrel : Linked cfg m.st t →
      (m.st.timer t).periodic = true ∧ (m.st.timer t).activated = true)
    (hst : m'.st = (m.callbackReturned c t).st) (hcall : m'.call = (m.callbackReturned c t).call)
    (hfires : ∀ y ≠ t, Fires m y → Fires m' y) : ∀ y, FlagInv cfg m' y := by
  have hst' : m'.st = m.st.setActivated t false := hst.trans Machine.callbackReturned_frame.1
  have hlinks : ∀ y, Linked cfg m'.st y ↔ Linked cfg m.st y := fun y =>
    linked_congr (by rw [hst']; rfl)
  have hcalls : ∀ c', m.call c' ≠ .idle → m'.call c' = m.call c' := fun c' hc' => by
    have hcc : c' ≠ c := fun heq => hc' (heq ▸ hc)
    rw [hcall, Machine.callbackReturned]
    split <;> simp [Machine.setCall, hcc]
  refine of_others h t (fun y hyt => ⟨?_, hlinks y⟩) (fun y hyt => ⟨?_, Or.imp ?_ (hfires y hyt)⟩) ?_
  · rw [hst']
    exact activated_setActivated_of_ne hyt
  · rintro ⟨c', hc'⟩
    exact ⟨c', by rwa [hcalls c' (by simp [hc'])]⟩
  · rintro ⟨c', hc'⟩
    refine ⟨c', ?_⟩
    rwa [hcalls c' (by rcases hc' with hc' | hc' <;> simp [hc'])]
  · by_cases hper : (m.st.timer t).periodic = true ∧ (m.st.timer t).activated = true
    · -- the timer is about to be started again
      have hrearm : m'.call c = .rearm t := by
        rw [hcall, Machine.callbackReturned, if_pos hper]
        simp [Machine.setCall]
      exact ⟨fun hno => absurd ⟨c, hrearm⟩ hno, fun hno => absurd (.inl ⟨c, .inl hrearm⟩) hno⟩
    · have hnot : ¬ Linked cfg m.st t := fun hlinked => hper (hrel hlinked)
      apply of_iff
      rw [hlinks, hst', activated_setActivated]
      simp [hnot]

omit [DecidableEq C] in
/-- An expiry function takes out the timer `t` and calls its timeout function. -/
lemma fire (inv : ListInv cfg m rows) {t : X}
    (hst : m'.st = timerRemove cfg m.st t) (hcall : m'.call = m.call)
    (hfires : ∀ y, Fires m y → Fires m' y) (hself : Fires m' t) : ∀ y, FlagInv cfg m' y := by
  have hlinked : ∀ y, Linked cfg m'.st y ↔ y ≠ t ∧ Linked cfg m.st y := fun y => by
    rw [hst]
    exact inv.lists.linked_remove
  refine of_others h t (fun y hyt => ⟨by rw [hst]; rfl, ?_⟩) (fun y _ => ⟨?_, Or.imp ?_ (hfires y)⟩)
    ⟨fun _ hin => absurd rfl ((hlinked t).mp hin).1, fun hex => absurd (.inr hself) hex⟩
  · rw [hlinked, and_iff_right hyt]
  · exact fun ⟨c, hc⟩ => ⟨c, hcall ▸ hc⟩
  · rw [hcall]
    exact id

lemma step (inv : ListInv cfg m rows)
    (hhalf : StaysWithinHalf cfg m a) (hrel : ReleasesTimer cfg m a)
    (hok : m.step cfg fuel a = some m') : ∀ y, FlagInv cfg m' y := by
  cases moves_step hok with
  | start c x hidle | stop c x hidle =>
    exact of_same h (fun _ => rfl) rfl fun y => keeps_setCall (by simp [hidle])
  | stopNot => exact h
  | control c x cmd =>
    refine of_same h (fun y => ?_) (by cases cmd <;> rfl) fun _ => ⟨id, id⟩
    by_cases hyx : y = x <;> cases cmd <;> simp [rtTimerControl, State.setTimer, hyx]
  | startRemove c x hc => exact startRemove h inv hc
  | startTick c x st hc hst => exact startTick h hc hst
  | startInsert c x st hc hst => exact startInsert h inv hc (hhalf x hc) hst
  | stopRemove c x hc => exact stopRemove h inv hc
  | stopClear c x hc => exact stopClear h inv hc
  | tick => exact of_same h (fun _ => rfl) rfl fun _ => ⟨id, id⟩
  -- an expiry function that has no timer to run makes none exempt
  | checkEnter c hnone =>
    exact of_same h (fun _ => rfl) rfl fun y => ⟨id, Or.imp_right (Or.imp_left (by simp [hnone]))⟩
  | softEnter c hnone =>
    exact of_same h (fun _ => rfl) rfl fun y => ⟨id, Or.imp_right (Or.imp_right (by simp [hnone]))⟩
  | checkEnd k hk hidle hf =>
    exact of_same h (fun _ => rfl) rfl fun y => ⟨id, Or.imp_right (Or.imp_left (by simp [hk, hf]))⟩
  | softEnd k hk hf =>
    exact of_same h (fun _ => rfl) rfl fun y => ⟨id, Or.imp_right (Or.imp_right (by simp [hk, hf]))⟩
  | checkFire k t hk hf =>
    exact fire h inv (t := t) rfl rfl (fun y => Or.imp_left (by simp [hk, hf])) (.inl ⟨_, rfl, rfl⟩)
  | softFire k t hk hf =>
    exact fire h inv (t := t.1) rfl rfl (fun y => Or.imp_right (by simp [hk, hf]))
      (.inr ⟨_, rfl, rfl⟩)
  | checkReturn k t hk hidle hf =>
    refine callbackReturned h hidle (hrel k t hk hf) rfl rfl fun y hyt hy => ?_
    rcases hy with hcheck | hsoft
    · simp [hk, hf, hyt.symm] at hcheck
    · exact .inr (by simpa only [(callbackReturned_frame (m := m)).2.2.1] using hsoft)
  | softReturn k t hk hidle hf =>
    refine callbackReturned h hidle (hrel k t hk hf) rfl rfl fun y hyt hy => ?_
    rcases hy with hcheck | hsoft
    · exact .inl (by simpa only [(callbackReturned_frame (m := m)).2.1] using hcheck)
    · simp [hk, hf, hyt.symm] at hsoft

end FlagInv

/-- A test for `ReleasesTimer`: the timer of a timeout function that returns is periodic and
activated. -/
def releases (m : Machine X C) : Act X C → Bool
  | .checkNext => m.check.all fun k => k.firing.all fun t =>
      (m.st.timer t).periodic && (m.st.timer t).activated
  | .softNext => m.softCheck.all fun k => k.firing.all fun t =>
      (m.st.timer t).periodic && (m.st.timer t).activated
  | _ => true

/-- Periodic hard timers. -/
def periodicTimer (_ : Bool) : RtTimer where
  timeoutTick := 0
  initTick := 1
  activated := false
  periodic := true
  soft := false

end Timer
