import TempSns.Timer.Flags

/-!
# Timer lists that need not be in order

The calls keep the lists linked whatever the deadlines are: every row is stored and is a sublist of
the row below it (`Woven`). `rt_timer_start` returns in each such state and puts the timer into its
list; where it puts it depends on the deadlines and is left open here.

`Started` are the states that complete calls lead to, with any tick values between them.
-/

namespace Timer

open Links WrapTime Except

variable {X : Type} [DecidableEq X] {cfg : Config} [NeZero cfg.levels] {s s' : State X}
  {rows : Bool → ℕ → List X} {base : BitVec 32} {ord : X → ℕ} {starts fuel : ℕ} {k : Bool} {x y t : X}
  {r : RtTimer} {callback : State X → List (Action X)}

omit [DecidableEq X] [NeZero cfg.levels] in
lemma pending_congr (hlinks : s'.links = s.links) : Pending cfg s' k x ↔ Pending cfg s k x := by
  unfold Pending
  rw [hlinks]

lemma setTimer_of_ne (hyx : y ≠ x) : (s.setTimer x r).timer y = s.timer y := by
  simp [State.setTimer, hyx]

@[simp] lemma setTimer_self : (s.setTimer x r).timer x = r := by
  simp [State.setTimer]

lemma timer_setTimer {α : Type} {f : RtTimer → α} (hr : f r = f (s.timer x)) :
    f ((s.setTimer x r).timer y) = f (s.timer y) := by
  by_cases hyx : y = x
  · rw [hyx, setTimer_self, hr]
  · rw [setTimer_of_ne hyx]

lemma soft_setTimer (hr : r.soft = (s.timer x).soft) :
    ((s.setTimer x r).timer y).soft = (s.timer y).soft :=
  timer_setTimer hr

omit [NeZero cfg.levels] in
lemma startRemove_self :
    (startRemove cfg s x).timer x = { s.timer x with activated := false } := setTimer_self

lemma control_frame (s : State X) (x y : X) (cmd : Command) :
    (rtTimerControl s x cmd).links = s.links ∧
      ((rtTimerControl s x cmd).timer y).activated = (s.timer y).activated ∧
      ((rtTimerControl s x cmd).timer y).soft = (s.timer y).soft := by
  by_cases hyx : y = x <;> cases cmd <;> simp [rtTimerControl, State.setTimer, hyx]

/-- The rows are stored, each one is a sublist of the row below it, and they hold timers of their
kind. -/
structure Woven (cfg : Config) (s : State X) (rows : Bool → ℕ → List X) : Prop where
  stored : Stored cfg s rows
  sublist : ∀ k l, l + 1 < cfg.levels → (rows k l).Sublist (rows k (l + 1))
  kind : ∀ k, ∀ l < cfg.levels, ∀ x ∈ rows k l, k = listOf cfg s x

omit [DecidableEq X] [NeZero cfg.levels] in
lemma Lists.woven (h : Lists cfg s ord starts rows) : Woven cfg s rows :=
  ⟨h.stored, fun k => (h.nested k).sublist, h.kind⟩

namespace Woven

section

variable (h : Woven cfg s rows)

include h

omit [DecidableEq X] [NeZero cfg.levels] in
lemma sublist_last {l : ℕ} (hl : l < cfg.levels) :
    (rows k l).Sublist (rows k (cfg.levels - 1)) := by
  have hnested : Nested cfg.levels (fun _ _ => True) (rows k) :=
    ⟨fun _ _ => List.pairwise_of_forall fun _ _ => trivial, h.sublist k⟩
  exact hnested.sublist_last hl

omit [DecidableEq X] in
lemma unlinked (hx : ¬ Linked cfg s x) : Unlinked cfg rows x := by
  rw [h.stored.linked_iff, not_exists] at hx
  exact fun k l hl hmem => hx k ((h.sublist_last hl).subset hmem)

omit [DecidableEq X] [NeZero cfg.levels] in
lemma congr (hlinks : s'.links = s.links)
    (hsoft : ∀ y, (s'.timer y).soft = (s.timer y).soft) : Woven cfg s' rows := by
  refine ⟨?_, h.sublist, fun k l hl y hy => ?_⟩
  · rw [Stored, hlinks]
    exact h.stored
  · rw [h.kind k l hl y hy, listOf, listOf, hsoft]

omit [NeZero cfg.levels] in
lemma setTimer (hr : r.soft = (s.timer x).soft) : Woven cfg (s.setTimer x r) rows :=
  h.congr rfl fun _ => soft_setTimer hr

omit [NeZero cfg.levels] in
lemma remove (x : X) : Woven cfg (timerRemove cfg s x) (fun k l => (rows k l).erase x) where
  stored := stored_timerRemove h.stored x
  sublist k l hl := (h.sublist k l hl).erase x
  kind k l hl y hy := h.kind k l hl y (List.mem_of_mem_erase hy)

lemma pending_remove : Pending cfg (timerRemove cfg s x) k y ↔ y ≠ x ∧ Pending cfg s k y := by
  rw [(h.remove x).stored.pending_iff, h.stored.pending_iff]
  exact (h.stored.nodup (last_lt cfg)).mem_erase_iff

/-- The second critical section of `rt_timer_start` returns and puts the timer into its list. -/
lemma insert (hx : ¬ Linked cfg s x) : ∃ rows' s', Woven cfg s' rows' ∧
      (∀ k y, Pending cfg s' k y ↔ (y = x ∧ k = listOf cfg s x) ∨ Pending cfg s k y) ∧
      s'.timer = (s.setActivated x true).timer ∧ s'.tick = s.tick ∧
      Returns (fun fuel => startInsert cfg fuel s x) s' ∧
      ∀ fuel s1, startInsert cfg fuel s x = .ok s1 → s1 = s' := by
  have hun := h.unlinked hx
  generalize hk : listOf cfg s x = k
  have hfirst : 0 < cfg.levels → rows k 0 = [] ++ rows k 0 := fun _ => rfl
  obtain ⟨us, vs, hcut, hsubs, -, hwalk⟩ := walkRows_cut h.stored (h.sublist k)
    (s.timer x).timeoutTick cfg.levels (Nat.zero_add _) hfirst nofun
  obtain ⟨m, s', hm, hstored, htimer, htick, hret⟩ := startInsert_cut h.stored hun hk
    (fun i hi => (hcut i (Nat.zero_le i) hi).1) hwalk
  have hlast : m ≤ cfg.levels - 1 := by omega
  have hsoft : ∀ y, (s'.timer y).soft = (s.timer y).soft := fun y => by
    rw [htimer]
    by_cases hyx : y = x <;> simp [State.setActivated, State.setTimer, hyx]
  -- every row has the old timers, and the new one from row `m` on
  have hmem : ∀ k', ∀ i < cfg.levels, ∀ y,
      y ∈ (if k' = k ∧ m ≤ i then us i ++ x :: vs i else rows k' i) ↔
        (y = x ∧ k' = k ∧ m ≤ i) ∨ y ∈ rows k' i := by
    intro k' i hi y
    by_cases hins : k' = k ∧ m ≤ i
    · rw [if_pos hins, hins.1, (hcut i (Nat.zero_le i) hi).1]
      simp only [List.mem_append, List.mem_cons, hins.2, and_true]
      tauto
    · rw [if_neg hins]
      simp [hins]
  refine ⟨_, s', ⟨hstored, fun k' l hl => ?_, fun k' l hl y hy => ?_⟩, fun k' y => ?_, htimer, htick,
    ?_, fun fuel s1 hok => ?_⟩
  · by_cases hins : k' = k ∧ m ≤ l
    · rw [if_pos hins, if_pos ⟨hins.1, by omega⟩]
      obtain ⟨hus, hvs⟩ := hsubs l (Nat.zero_le l) hl
      exact hus.append (hvs.cons_cons x)
    · rw [if_neg hins]
      by_cases hins' : k' = k ∧ m ≤ l + 1
      · rw [if_pos hins', hins'.1, (hcut l (Nat.zero_le l) (by omega)).1]
        obtain ⟨hus, hvs⟩ := hsubs l (Nat.zero_le l) hl
        exact hus.append (hvs.cons x)
      · rw [if_neg hins']
        exact h.sublist k' l hl
  · rw [listOf, hsoft]
    rcases (hmem k' l hl y).mp hy with ⟨rfl, rfl, -⟩ | hy
    · exact hk.symm
    · exact h.kind k' l hl y hy
  · rw [hstored.pending_iff, h.stored.pending_iff, hmem k' _ (last_lt cfg)]
    simp [hlast]
  · refine ⟨(rows k (cfg.levels - 1)).length + 1, fun fuel hfuel => ?_⟩
    refine (hret fuel).resolve_right ?_
    rintro ⟨-, i, hi, hle⟩
    have hlen := (h.sublist_last hi (k := k)).length_le
    omega
  · rcases hret fuel with hok' | ⟨herr, -⟩
    · exact ok.inj (hok.symm.trans hok')
    · rw [herr] at hok
      cases hok

end

/-- The state in which `rt_timer_start` enters its second critical section. -/
def ticked (cfg : Config) (s : State X) (x : X) : State X :=
  (startRemove cfg s x).setTimer x { s.timer x with
    activated := false
    timeoutTick := s.tick + (s.timer x).initTick }

section

omit [NeZero cfg.levels]

lemma ticked_self : (ticked cfg s x).timer x = { s.timer x with
    activated := false
    timeoutTick := s.tick + (s.timer x).initTick } := setTimer_self

lemma ticked_of_ne (hyx : y ≠ x) : (ticked cfg s x).timer y = s.timer y := by
  rw [ticked, setTimer_of_ne hyx]
  exact setTimer_of_ne hyx

lemma soft_ticked : ((ticked cfg s x).timer y).soft = (s.timer y).soft := by
  by_cases hyx : y = x
  · rw [hyx, ticked_self]
  · rw [ticked_of_ne hyx]

lemma startTick_eq (hlt : (s.timer x).initTick.toNat < half) :
    startTick (startRemove cfg s x) x = .ok (ticked cfg s x) := by
  rw [startTick, startRemove_self, if_pos hlt]
  rfl

end

/-- `rt_timer_start` of a timer that it accepts returns. The timer is pending with its new deadline,
the others are as before. -/
lemma start (h : Woven cfg s rows) (hlt : (s.timer x).initTick.toNat < half) :
    ∃ rows' s', Woven cfg s' rows' ∧ (∀ k y, Pending cfg s' k y ↔
        (y = x ∧ k = listOf cfg s x) ∨ (y ≠ x ∧ Pending cfg s k y)) ∧
      (∀ y ≠ x, s'.timer y = s.timer y) ∧
      s'.timer x = { s.timer x with
        activated := true
        timeoutTick := s.tick + (s.timer x).initTick } ∧ s'.tick = s.tick ∧
      Returns (fun fuel => rtTimerStart cfg fuel s x) s' ∧
      ∀ fuel s1, rtTimerStart cfg fuel s x = .ok s1 → s1 = s' := by
  have hpend : ∀ k y, Pending cfg (ticked cfg s x) k y ↔ y ≠ x ∧ Pending cfg s k y := fun k y => by
    rw [← h.pending_remove]
    exact pending_congr rfl
  have hticked : Woven cfg (ticked cfg s x) (fun k l => (rows k l).erase x) :=
    (h.remove x).congr rfl fun _ => soft_ticked
  obtain ⟨rows', s', hwoven, hpend', htimer, htick, ⟨n, hn⟩, hunique⟩ :=
    hticked.insert (x := x) fun ⟨k, hx⟩ => ((hpend k x).mp hx).1 rfl
  have hstart : ∀ fuel, rtTimerStart cfg fuel s x = startInsert cfg fuel (ticked cfg s x) x :=
    fun fuel => by
      rw [rtTimerStart, startTick_eq hlt, ok_bind]
  refine ⟨rows', s', hwoven, fun k y => ?_, fun y hyx => ?_, ?_, htick, ⟨n, fun fuel hfuel => ?_⟩,
    fun fuel s1 hok => ?_⟩
  · rw [hpend', hpend, listOf, soft_ticked]
    rfl
  · rw [htimer]
    exact (setTimer_of_ne hyx).trans (ticked_of_ne hyx)
  · rw [htimer]
    simp [State.setActivated, ticked_self]
  · change rtTimerStart cfg fuel s x = .ok s'
    rw [hstart]
    exact hn fuel hfuel
  · rw [hstart] at hok
    exact hunique fuel s1 hok

end Woven

lemma Lists.start (h : Lists cfg s ord starts rows)
    (hlt : (s.timer x).initTick.toNat < half) (hbase : InArc base (s.tick + (s.timer x).initTick))
    (harc : ∀ y, Pending cfg s (listOf cfg s x) y → InArc base (s.timer y).timeoutTick)
    (hok : rtTimerStart cfg fuel s x = .ok s') :
    ∃ rows', Lists cfg s' (Function.update ord x starts) (starts + 1) rows' := by
  have hremoved := h.remove x
  have hun := h.unlinked_remove x
  have hticked : Lists cfg (Woven.ticked cfg s x) ord starts (fun k l => (rows k l).erase x) := by
    refine hremoved.congr rfl (fun y hy => ?_) fun _ => Woven.soft_ticked
    have hyx : y ≠ x := fun heq => hy (heq ▸ hun)
    rw [Woven.ticked_of_ne hyx]
    rfl
  have hhalf : WithinHalf cfg (Woven.ticked cfg s x) x := by
    refine ⟨base, by rw [Woven.ticked_self]; exact hbase, fun y hy => ?_⟩
    rw [listOf, Woven.soft_ticked] at hy
    obtain ⟨hyx, hpend⟩ := h.woven.pending_remove.mp ((pending_congr rfl).mp hy)
    rw [Woven.ticked_of_ne hyx]
    exact harc y hpend
  rw [rtTimerStart, Woven.startTick_eq hlt, ok_bind] at hok
  obtain ⟨rows', hlists, -⟩ := hticked.insert hun hhalf hok
  exact ⟨rows', hlists⟩

/-! ## Complete calls -/

omit [NeZero cfg.levels] in
lemma lt_half_of_start (hok : rtTimerStart cfg fuel s x = .ok s') :
    (s.timer x).initTick.toNat < half := by
  obtain ⟨s1, htick, -⟩ := bind_eq_ok.mp hok
  obtain ⟨hlt, -⟩ := ite_eq_ok.mp htick
  rw [startRemove_self] at hlt
  exact hlt

omit [NeZero cfg.levels] in
lemma expire_eq_ok {r : Round X} (hok : expire cfg fuel s t callback = .ok r) :
    runActions cfg fuel (timerRemove cfg s t) (callback (timerRemove cfg s t)) =
      .ok (r.returned, r.stopped) ∧ afterCallback cfg fuel r.returned t = .ok r.finish := by
  obtain ⟨⟨returned, stopped⟩, hrun, hrest⟩ := bind_eq_ok.mp hok
  obtain ⟨finish, hafter, heq⟩ := bind_eq_ok.mp hrest
  obtain rfl := ok.inj heq
  exact ⟨hrun, hafter⟩

def WellLinked (cfg : Config) (s : State X) : Prop := ∃ rows, Woven cfg s rows

namespace WellLinked

section

variable (h : WellLinked cfg s)

include h

lemma start (hok : rtTimerStart cfg fuel s x = .ok s') : WellLinked cfg s' := by
  obtain ⟨rows, hwoven⟩ := h
  obtain ⟨rows', s1, hwoven', -, -, -, -, -, hunique⟩ :=
    hwoven.start (lt_half_of_start hok)
  obtain rfl := hunique fuel s' hok
  exact ⟨rows', hwoven'⟩

section

omit [NeZero cfg.levels]

lemma setActivated (x : X) (b : Bool) : WellLinked cfg (s.setActivated x b) :=
  h.imp fun _ hwoven => hwoven.setTimer rfl

lemma remove (x : X) : WellLinked cfg (timerRemove cfg s x) :=
  let ⟨_, hwoven⟩ := h
  ⟨_, hwoven.remove x⟩

lemma stop (x : X) : WellLinked cfg (rtTimerStop cfg s x).2 := by
  unfold rtTimerStop
  split
  · exact (h.remove x).setActivated x false
  · exact h

lemma control (x : X) (cmd : Command) : WellLinked cfg (rtTimerControl s x cmd) := by
  obtain ⟨rows, hwoven⟩ := h
  exact ⟨rows, hwoven.congr (control_frame s x x cmd).1 fun y => (control_frame s x y cmd).2.2⟩

end

lemma act {a : Action X} {stopped : List X}
    (hok : act cfg fuel s a = .ok (s', stopped)) : WellLinked cfg s' := by
  cases a with
  | start x =>
    obtain ⟨s1, hstart, heq⟩ := map_eq_ok.mp hok
    obtain ⟨rfl, -⟩ := Prod.mk.inj heq
    exact h.start hstart
  | stop x =>
    have hstop := h.stop x
    unfold Timer.act at hok
    dsimp only at hok
    generalize rtTimerStop cfg s x = r at hok hstop
    obtain ⟨e, s1⟩ := r
    have heq : s1 = s' := by cases e <;> cases hok <;> rfl
    exact heq ▸ hstop
  | control x cmd =>
    obtain ⟨rfl, -⟩ := Prod.mk.inj (ok.inj hok)
    exact h.control x cmd

end

section

variable (h : WellLinked cfg s)

include h

lemma runActions {as : List (Action X)} {stopped : List X} (hok : runActions cfg fuel s as = .ok (s', stopped)) :
    WellLinked cfg s' := by
  induction as generalizing s stopped with
  | nil =>
    obtain ⟨rfl, -⟩ := Prod.mk.inj (ok.inj hok)
    exact h
  | cons a as ih =>
    obtain ⟨⟨s1, stopped1⟩, hact, hrest⟩ := bind_eq_ok.mp hok
    obtain ⟨⟨s2, stopped2⟩, hrun, heq⟩ := bind_eq_ok.mp hrest
    obtain ⟨rfl, -⟩ := Prod.mk.inj (ok.inj heq)
    exact ih (h.act hact) hrun

lemma afterCallback (hok : afterCallback cfg fuel s t = .ok s') : WellLinked cfg s' := by
  unfold Timer.afterCallback at hok
  split at hok
  · exact (h.setActivated t false).start hok
  · exact ok.inj hok ▸ h.setActivated t false

lemma expire {r : Round X} (hok : expire cfg fuel s t callback = .ok r) :
    WellLinked cfg r.finish := by
  obtain ⟨hrun, hafter⟩ := expire_eq_ok hok
  exact ((h.remove t).runActions hrun).afterCallback hafter

lemma checkLoop {callback : ℕ → X → State X → List (Action X)}
    {rounds n : ℕ} {tick : BitVec 32} {log : List (Round X)}
    (hok : checkLoop cfg fuel callback rounds n tick s = .ok (s', log)) : WellLinked cfg s' := by
  induction rounds generalizing n tick s log with
  | zero => cases hok
  | succ rounds ih =>
    obtain ⟨first, -, hok⟩ := bind_eq_ok.mp hok
    cases first with
    | none =>
      obtain ⟨rfl, -⟩ := Prod.mk.inj (ok.inj hok)
      exact h
    | some t =>
      dsimp only at hok
      split at hok
      · obtain ⟨round, hround, hok⟩ := bind_eq_ok.mp hok
        obtain ⟨⟨s1, log1⟩, hloop, heq⟩ := bind_eq_ok.mp hok
        obtain ⟨rfl, -⟩ := Prod.mk.inj (ok.inj heq)
        exact ih (h.expire hround) hloop
      · obtain ⟨rfl, -⟩ := Prod.mk.inj (ok.inj hok)
        exact h

end

end WellLinked

/-- The states after complete calls, with any tick values between them. -/
inductive Started (cfg : Config) : State X → Prop
  | init (timer : X → RtTimer) (tick : BitVec 32) : Started cfg ⟨timer, ⟨id, id⟩, 0, tick⟩
  | start {s s' : State X} {x : X} {fuel : ℕ} (hs : Started cfg s)
      (hok : rtTimerStart cfg fuel s x = .ok s') : Started cfg s'
  | stop {s : State X} (hs : Started cfg s) (x : X) : Started cfg (rtTimerStop cfg s x).2
  | control {s : State X} (hs : Started cfg s) (x : X) (cmd : Command) :
      Started cfg (rtTimerControl s x cmd)
  | time {s : State X} (hs : Started cfg s) (tick : BitVec 32) : Started cfg { s with tick := tick }
  | check {s s' : State X} {fuel : ℕ} {callback : ℕ → X → State X → List (Action X)}
      {log : List (Round X)} (hs : Started cfg s)
      (hok : rtTimerCheck cfg fuel callback s = .ok (s', log)) : Started cfg s'

lemma Started.wellLinked (hs : Started cfg s) : WellLinked cfg s := by
  induction hs with
  | init timer tick =>
    have hinit : ListInv cfg (.init timer tick : Machine X Unit) (fun _ _ => []) :=
      ListInv.init timer tick
    exact ⟨_, hinit.lists.woven⟩
  | start _ hok ih => exact ih.start hok
  | stop _ x ih => exact ih.stop x
  | control _ x cmd ih => exact ih.control x cmd
  | time _ tick ih => exact ih.imp fun _ hwoven => hwoven.congr rfl fun _ => rfl
  | check _ hok ih => exact ih.checkLoop hok

end Timer
