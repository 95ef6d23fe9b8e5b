import TempSns.Timer.Check

/-!
# `rt_timer_check` in the reachable states

The pending hard timers of a state that is reached without overlapping calls are in order and
activated, so that the results about the loop apply to it. What remains to be shown is that the
timers whose flag may be out of date are not pending hard timers: outside `rt_timer_check` an expiry
function is at work on soft timers only (`KindInv`).
-/

namespace Timer

open Links WrapTime List Option

variable {X C : Type} [DecidableEq X] [DecidableEq C] {cfg : Config} [NeZero cfg.levels] {s s' : State X}
  {m m' : Machine X C} {rows : Bool → ℕ → List X} {ord : X → ℕ} {starts : ℕ} {x y : X}
  {base : BitVec 32} {n : RowNode X} {fuel : ℕ}

/-! ## Kind of a timer -/

omit [NeZero cfg.levels] in
lemma soft_startInsert (hok : startInsert cfg fuel s x = .ok s') :
    (s'.timer y).soft = (s.timer y).soft := by
  obtain ⟨rowHeads, -, hok⟩ := bind_eq_ok.mp hok
  split at hok
  · cases hok
  · obtain rfl := Except.ok.inj hok
    exact soft_setTimer rfl

/-- The node of `rt_soft_timer_check`: the head of the soft list, or a soft timer. -/
def SoftNode (cfg : Config) (s : State X) (n : RowNode X) : Prop :=
  n = .head (true, cfg.levels - 1) ∨ ∃ t, n = .item (t, cfg.levels - 1) ∧ listOf cfg s t = true

/-- `rt_soft_timer_check` goes from soft timer to soft timer, also if the node it stands on was
taken out of its list. -/
lemma Lists.softNode_next (h : Lists cfg s ord starts rows)
    (hn : SoftNode cfg s n) : SoftNode cfg s (s.links.next n) := by
  have hlast := last_lt cfg
  have hring := h.stored.ring (true, cfg.levels - 1)
  rw [rowLists_of_lt hlast, List.map_map] at hring
  -- the nodes of the soft list
  have hmem : ∀ n ∈ (rows true (cfg.levels - 1)).map (Node.item ∘ fun x => (x, cfg.levels - 1)),
      SoftNode cfg s n := fun n hn => by
    obtain ⟨t, ht, rfl⟩ := List.mem_map.mp hn
    exact .inr ⟨t, rfl, (h.kind true _ hlast t ht).symm⟩
  rcases hn with rfl | ⟨t, rfl, hsoft⟩
  · rcases List.mem_cons.mp hring.next_mem with heq | hin
    · exact .inl heq
    · exact hmem _ hin
  · by_cases ht : t ∈ rows true (cfg.levels - 1)
    · obtain ⟨us, vs, hrow⟩ := List.append_of_mem ht
      rw [hrow, List.map_append, List.map_cons] at hring hmem
      have hnext := hring.rotate.next_mem
      simp only [List.mem_cons, List.mem_append] at hnext hmem
      rcases hnext with heq | hin | heq | hin
      · exact hmem _ (.inr (.inl heq))
      · exact hmem _ (.inr (.inr hin))
      · exact .inl heq
      · exact hmem _ (.inl hin)
    · have hself := h.stored.self (t, cfg.levels - 1) fun j hj => by
        obtain ⟨-, heq, hj⟩ := mem_rowLists.mp hj
        rw [← heq] at hj
        rw [h.kind j.1 _ hlast t hj, hsoft] at hj
        exact ht hj
      rw [(ring_nil.mp hself).1]
      exact .inr ⟨t, rfl, hsoft⟩

/-- Outside `rt_timer_check`, an expiry function is at work on soft timers only. -/
structure KindInv (cfg : Config) (m : Machine X C) : Prop where
  rearm : ∀ c x, m.call c = .rearm x →
    (∃ k, m.check = some k ∧ k.ctx = c) ∨ listOf cfg m.st x = true
  firing : ∀ k x, m.softCheck = some k → k.firing = some x → listOf cfg m.st x = true
  node : ∀ k, m.softCheck = some k → SoftNode cfg m.st k.node

omit [DecidableEq X] [NeZero cfg.levels] in
lemma SoftNode.congr (hsoft : ∀ x, (s'.timer x).soft = (s.timer x).soft)
    (h : SoftNode cfg s n) : SoftNode cfg s' n := by
  refine h.imp_right fun ⟨t, hn, ht⟩ => ⟨t, hn, ?_⟩
  rwa [listOf, hsoft]

namespace KindInv

omit [DecidableEq X] [DecidableEq C] [NeZero cfg.levels] in
lemma init (timer : X → RtTimer) (tick : BitVec 32) :
    KindInv cfg (.init timer tick : Machine X C) :=
  ⟨by simp [Machine.init], by simp [Machine.init], by simp [Machine.init]⟩

omit [DecidableEq C] [DecidableEq X] [NeZero cfg.levels] in
/-- A step outside the expiry functions. -/
lemma mono (h : KindInv cfg m) (hsoft : ∀ x, (m'.st.timer x).soft = (m.st.timer x).soft)
    (hcall : ∀ c x, m'.call c = .rearm x → m.call c = .rearm x) (hcheck : m'.check = m.check)
    (hsoftCheck : m'.softCheck = m.softCheck) : KindInv cfg m' := by
  refine ⟨fun c x hc => ?_, fun k x hk hf => ?_, fun k hk => ?_⟩
  · rw [hcheck, listOf, hsoft]
    exact h.rearm c x (hcall c x hc)
  · rw [listOf, hsoft]
    exact h.firing k x (hsoftCheck ▸ hk) hf
  · exact (h.node k (hsoftCheck ▸ hk)).congr hsoft

omit [DecidableEq X] [NeZero cfg.levels] in
/-- A context goes on with something else than the start of a periodic timer. -/
lemma of_call (h : KindInv cfg m) {c : C} {p : Call X} (hp : ∀ x, p ≠ .rearm x)
    (hcall : m'.call = Function.update m.call c p)
    (hsoft : ∀ x, (m'.st.timer x).soft = (m.st.timer x).soft) (hcheck : m'.check = m.check)
    (hsoftCheck : m'.softCheck = m.softCheck) : KindInv cfg m' := by
  refine h.mono hsoft (fun c' x hc => ?_) hcheck hsoftCheck
  rw [hcall] at hc
  by_cases hcc : c' = c
  · simp [hcc, hp] at hc
  · simpa [hcc] using hc

lemma soft_callbackReturned {c : C} {t : X} :
    ((m.callbackReturned c t).st.timer y).soft = (m.st.timer y).soft := by
  rw [Machine.callbackReturned_frame.1]
  exact soft_setTimer rfl

lemma step (h : KindInv cfg m) (inv : ListInv cfg m rows)
    {a : Act X C} (hok : m.step cfg fuel a = some m') : KindInv cfg m' := by
  cases Machine.moves_step hok with
  | start c x => exact h.of_call (p := .startEntered x) (by simp) rfl (fun _ => rfl) rfl rfl
  | stop c x => exact h.of_call (p := .stopChecked x) (by simp) rfl (fun _ => rfl) rfl rfl
  | stopNot => exact h
  | control c x cmd =>
    exact h.mono (fun y => (control_frame m.st x y cmd).2.2) (fun _ _ hc => hc) rfl rfl
  | startRemove c x =>
    exact h.of_call (p := .startRemoved x) (by simp) rfl (fun _ => soft_setTimer rfl) rfl rfl
  | startTick c x st _ hst =>
    obtain ⟨-, ⟨⟩⟩ := ite_eq_ok.mp hst
    exact h.of_call (p := .startTicked x) (by simp) rfl (fun _ => soft_setTimer rfl) rfl rfl
  | startInsert c x st _ hst =>
    exact h.of_call (p := .idle) (by simp) rfl (fun _ => soft_startInsert hst) rfl rfl
  | stopRemove c x => exact h.of_call (p := .stopRemoved x) (by simp) rfl (fun _ => rfl) rfl rfl
  | stopClear c x =>
    exact h.of_call (p := .idle) (by simp) rfl (fun _ => soft_setTimer rfl) rfl rfl
  | tick => exact h.mono (fun _ => rfl) (fun _ _ hc => hc) rfl rfl
  | checkEnter c hnone =>
    exact ⟨fun c x hc => .inr ((h.rearm c x hc).resolve_left (by simp [hnone])), h.firing, h.node⟩
  | checkEnd k hk hidle =>
    -- the context of the check is idle
    refine ⟨fun c x hc => .inr ((h.rearm c x hc).resolve_left ?_), h.firing, h.node⟩
    rintro ⟨k', hk', rfl⟩
    obtain rfl := some.inj (hk.symm.trans hk')
    cases hidle.symm.trans hc
  | checkFire k t hk =>
    refine ⟨fun c x hc => (h.rearm c x hc).imp_left ?_, h.firing, h.node⟩
    rintro ⟨k', hk', rfl⟩
    obtain rfl := some.inj (hk.symm.trans hk')
    exact ⟨_, rfl, rfl⟩
  | checkReturn k t hk =>
    obtain ⟨-, -, hsoftCheck, hcall⟩ :=
      Machine.callbackReturned_frame (m := m) (c := k.ctx) (t := t)
    refine ⟨fun c x hc => ?_, fun k' x hk' hf' => ?_, fun k' hk' => ?_⟩
    · -- the context of the check, or one that was there before
      rcases hcall c x hc with ⟨rfl, -⟩ | hc
      · exact .inl ⟨_, rfl, rfl⟩
      · rw [listOf, soft_callbackReturned]
        refine (h.rearm c x hc).imp_left ?_
        rintro ⟨k', hk', rfl⟩
        obtain rfl := some.inj (hk.symm.trans hk')
        exact ⟨_, rfl, rfl⟩
    · rw [listOf, soft_callbackReturned]
      exact h.firing k' x (hsoftCheck ▸ hk') hf'
    · exact (h.node k' (hsoftCheck ▸ hk')).congr fun _ => soft_callbackReturned
  | softEnter c =>
    refine ⟨h.rearm, ?_, ?_⟩
    · rintro k x ⟨⟩ ⟨⟩
    · rintro k ⟨⟩
      exact inv.lists.softNode_next (.inl rfl)
  | softEnd => exact ⟨h.rearm, by simp, by simp⟩
  | softFire k t hk hf hnode =>
    have hsoft := h.node k hk
    refine ⟨h.rearm, ?_, ?_⟩
    · rintro k' x ⟨⟩ ⟨⟩
      rw [hnode] at hsoft
      rcases hsoft with hhead | ⟨t', heq, ht'⟩
      · cases hhead
      · obtain rfl := Node.item.inj heq
        exact ht'
    · rintro k' ⟨⟩
      exact (inv.lists.softNode_next hsoft).congr fun _ => rfl
  | softReturn k t hk hidle hf =>
    obtain ⟨-, hcheck, -, hcall⟩ := Machine.callbackReturned_frame (m := m) (c := k.ctx) (t := t)
    refine ⟨fun c x hc => ?_, ?_, ?_⟩
    · rw [listOf, soft_callbackReturned]
      rcases hcall c x hc with ⟨-, rfl⟩ | hc
      · exact .inr (h.firing k x hk hf)
      · rw [hcheck]
        exact h.rearm c x hc
    · rintro k' x ⟨⟩ ⟨⟩
    · rintro k' ⟨⟩
      exact (h.node k hk).congr fun _ => soft_callbackReturned

end KindInv

end Timer
