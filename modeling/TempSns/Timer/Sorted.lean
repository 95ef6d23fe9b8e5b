import TempSns.Timer.Machine

/-!
# The timer lists under interleaved calls

`ListInv` is the invariant of the lists: the rows are sorted by deadline with equal deadlines in the
order of their starts, each row is a sublist of the row below it, and a timer on which a start or a
stop is at work is in no row. Each part of a call keeps it (`ListInv.step`), if no start of a timer
begins between the two critical sections of another start of it, and none links the timer between
the critical section of a stop of it and the end of that stop (`NoOverlap`). `SoftAlone` says that no
other context changes the soft timer list while `rt_soft_timer_check`, which does not disable the
interrupts, works on it; only then is that work one step.
-/

namespace Timer

open Links WrapTime SortedInsert Function List Option

variable {X C : Type} [DecidableEq X] [DecidableEq C] {cfg : Config} {s s' : State X}
  {m m' : Machine X C} {rows : Bool → ℕ → List X} {ord : X → ℕ} {starts : ℕ} {k : Bool} {x y : X}
  {P : Machine X C → Act X C → Prop} {base : BitVec 32} {fuel : ℕ}
  {ok : Machine X C → Act X C → Bool} {c : C} {p : Call X} {l : ℕ}

/-- `a` may stand before `b`: its deadline is before that of `b`, or they are equal and `a` was
started first. -/
def NotAfter (s : State X) (ord : X → ℕ) (a b : X) : Prop :=
  Before (s.timer a).timeoutTick (s.timer b).timeoutTick ∧
    ((s.timer a).timeoutTick = (s.timer b).timeoutTick → ord a < ord b)

def Unlinked (cfg : Config) (rows : Bool → ℕ → List X) (x : X) : Prop :=
  ∀ k, ∀ l < cfg.levels, x ∉ rows k l

/-- The rows are stored, sorted and nested. -/
structure Lists (cfg : Config) (s : State X) (ord : X → ℕ) (starts : ℕ)
    (rows : Bool → ℕ → List X) : Prop where
  stored : Stored cfg s rows
  nested : ∀ k, Nested cfg.levels (NotAfter s ord) (rows k)
  kind : ∀ k, ∀ l < cfg.levels, ∀ x ∈ rows k l, k = listOf cfg s x
  order : ∀ k, ∀ l < cfg.levels, ∀ x ∈ rows k l, ord x < starts

/-- The pending timers: those in the last row of the list `k`. -/
def Pending (cfg : Config) (s : State X) (k : Bool) (x : X) : Prop :=
  ∃ xs, s.links.Ring (.head (k, cfg.levels - 1)) xs ∧ .item (x, cfg.levels - 1) ∈ xs

omit [DecidableEq X] in
lemma Stored.pending_iff (hst : Stored cfg s rows) [NeZero cfg.levels] :
    Pending cfg s k x ↔ x ∈ rows k (cfg.levels - 1) := by
  have hring := hst.ring (k, cfg.levels - 1)
  rw [rowLists_of_lt (last_lt cfg)] at hring
  constructor
  · rintro ⟨xs, hxs, hmem⟩
    rw [hxs.unique hring] at hmem
    simpa using hmem
  · exact fun hmem => ⟨_, hring, by simpa using hmem⟩

namespace Lists

variable (h : Lists cfg s ord starts rows)

include h

omit [DecidableEq X] in
lemma congr (hlinks : s'.links = s.links)
    (hdead : ∀ y, ¬ Unlinked cfg rows y → (s'.timer y).timeoutTick = (s.timer y).timeoutTick)
    (hsoft : ∀ y, (s'.timer y).soft = (s.timer y).soft) : Lists cfg s' ord starts rows := by
  refine ⟨?_, fun k => ⟨fun l hl => ?_, (h.nested k).sublist⟩, fun k l hl x hx => ?_, h.order⟩
  · rw [Stored, hlinks]
    exact h.stored
  · have hd : ∀ y ∈ rows k l, (s'.timer y).timeoutTick = (s.timer y).timeoutTick :=
      fun y hy => hdead y fun hun => hun k l hl hy
    refine ((h.nested k).sorted l hl).imp_of_mem fun {a b} ha hb hab => ?_
    rw [NotAfter, hd a ha, hd b hb]
    exact hab
  · rw [h.kind k l hl x hx, listOf, listOf, hsoft]

lemma remove (x : X) :
    Lists cfg (timerRemove cfg s x) ord starts (fun k l => (rows k l).erase x) where
  stored := stored_timerRemove h.stored x
  nested k :=
    { sorted := fun l hl => ((h.nested k).sorted l hl).sublist erase_sublist
      sublist := fun l hl => ((h.nested k).sublist l hl).erase x }
  kind k l hl y hy := h.kind k l hl y (mem_of_mem_erase hy)
  order k l hl y hy := h.order k l hl y (mem_of_mem_erase hy)

lemma unlinked_remove (x : X) : Unlinked cfg (fun k l => (rows k l).erase x) x :=
  fun _ _ hl hmem => ((h.stored.nodup hl).mem_erase_iff.mp hmem).1 rfl

end Lists

lemma Unlinked.erase (hy : Unlinked cfg rows y) :
    Unlinked cfg (fun k l => (rows k l).erase x) y :=
  fun k l hl hmem => hy k l hl (mem_of_mem_erase hmem)

omit [DecidableEq X] in
/-- Within an arc of half the range, the search passes the timers that are not later. -/
lemma passed_iff (hx : InArc base (s.timer x).timeoutTick)
    (hy : InArc base (s.timer y).timeoutTick) :
    passed s (s.timer x).timeoutTick y = true ↔
      Before (s.timer y).timeoutTick (s.timer x).timeoutTick := by
  rw [before_iff_not_later hx hy, passed, Bool.not_eq_true', decide_eq_false_iff_not]

/-- The deadlines of the timer `x` and of the timers pending in its list lie on one arc of half the
range. -/
def WithinHalf (cfg : Config) (s : State X) (x : X) : Prop :=
  ∃ base, InArc base (s.timer x).timeoutTick ∧
    ∀ y, Pending cfg s (listOf cfg s x) y → InArc base (s.timer y).timeoutTick

omit [DecidableEq X] in
lemma mem_insertedRows {m l : ℕ} {p : X → Bool} {k' : Bool} :
    y ∈ insertedRows rows k m p x k' l ↔ (y = x ∧ k' = k ∧ m ≤ l) ∨ y ∈ rows k' l := by
  unfold insertedRows
  by_cases hins : k' = k ∧ m ≤ l
  · rw [if_pos hins, mem_insertBy, hins.1]
    simp [hins.2]
  · rw [if_neg hins]
    simp [hins]

omit [DecidableEq X] in
lemma downClosed_passed (hbase : InArc base (s.timer x).timeoutTick)
    (harc : ∀ y ∈ rows k l, InArc base (s.timer y).timeoutTick) :
    DownClosed (NotAfter s ord) (passed s (s.timer x).timeoutTick) (rows k l) := by
  intro a ha b hb hab hpb
  rw [passed_iff hbase (harc b hb)] at hpb
  rw [passed_iff hbase (harc a ha)]
  exact hab.1.trans (harc a ha) (harc b hb) hbase hpb

section

variable (h : Lists cfg s ord starts rows)

include h

lemma Lists.sorted_insertBy
    (hl : l < cfg.levels) (hx : Unlinked cfg rows x) (hbase : InArc base (s.timer x).timeoutTick)
    (harc : ∀ y ∈ rows k l, InArc base (s.timer y).timeoutTick) :
    (insertBy (passed s (s.timer x).timeoutTick) x (rows k l)).Pairwise
      (NotAfter s (update ord x starts)) := by
  have hord : ∀ y ∈ rows k l, update ord x starts y = ord y := fun y hy =>
    update_of_ne (by rintro rfl; exact hx k l hl hy) _ _
  have hiff : ∀ a ∈ rows k l, ∀ b ∈ rows k l,
      (NotAfter s (update ord x starts) a b ↔ NotAfter s ord a b) := fun a ha b hb => by
    rw [NotAfter, NotAfter, hord a ha, hord b hb]
  refine pairwise_insertBy (((h.nested k).sorted l hl).imp_of_mem fun ha hb hab =>
    (hiff _ ha _ hb).mpr hab) (fun a ha b hb hab => downClosed_passed hbase harc a ha b hb
    ((hiff a ha b hb).mp hab)) (fun a ha hpa => ?_) (fun a ha hpa => ?_)
  · rw [passed_iff hbase (harc a ha)] at hpa
    rw [NotAfter, hord a ha, update_self]
    exact ⟨hpa, fun _ => h.order k l hl a ha⟩
  · have hnot : ¬ Before (s.timer a).timeoutTick (s.timer x).timeoutTick := by
      rw [← passed_iff hbase (harc a ha), hpa]
      simp
    refine ⟨(before_total hbase (harc a ha)).resolve_right hnot, fun heq => ?_⟩
    exact absurd (heq ▸ before_refl _) hnot

lemma Lists.inserted (hx : Unlinked cfg rows x) {m : ℕ} {links : Links (RowNode X)}
    (hbase : InArc base (s.timer x).timeoutTick) (hk : listOf cfg s x = k)
    (harc : ∀ l < cfg.levels, ∀ y ∈ rows k l, InArc base (s.timer y).timeoutTick)
    (hstored : Stored cfg { s with links := links }
      (insertedRows rows k m (passed s (s.timer x).timeoutTick) x)) :
    Lists cfg { s with links := links } (update ord x starts) (starts + 1)
      (insertedRows rows k m (passed s (s.timer x).timeoutTick) x) := by
  have hord : ∀ k, ∀ l < cfg.levels, ∀ y ∈ rows k l, update ord x starts y = ord y :=
    fun k l hl y hy => update_of_ne (by rintro rfl; exact hx k l hl hy) _ _
  refine ⟨hstored, fun k' => ⟨fun l hl => ?_, fun l hl => ?_⟩, fun k' l hl y hy => ?_,
    fun k' l hl y hy => ?_⟩
  · unfold insertedRows
    split
    · exact h.sorted_insertBy hl hx hbase (harc l hl)
    · refine ((h.nested k').sorted l hl).imp_of_mem fun ha hb hab => ?_
      rw [NotAfter, hord k' l hl _ ha, hord k' l hl _ hb]
      exact hab
  · unfold insertedRows
    by_cases hins : k' = k ∧ m ≤ l
    · rw [if_pos hins, if_pos ⟨hins.1, by omega⟩]
      exact insertBy_sublist ((h.nested k).sublist l hl) ((h.nested k).sorted (l + 1) hl)
        (downClosed_passed hbase (harc (l + 1) hl))
    · rw [if_neg hins]
      split
      case isTrue hins' =>
        obtain ⟨rfl, -⟩ := hins'
        exact ((h.nested k').sublist l hl).trans sublist_insertBy
      case isFalse => exact (h.nested k').sublist l hl
  · rcases mem_insertedRows.mp hy with ⟨rfl, rfl, -⟩ | hy
    · exact hk.symm
    · exact h.kind k' l hl y hy
  · rcases mem_insertedRows.mp hy with ⟨rfl, -, -⟩ | hy
    · simp
    · rw [hord k' l hl y hy]
      exact (h.order k' l hl y hy).trans (Nat.lt_succ_self starts)

/-- The second critical section of `rt_timer_start` keeps the order. -/
lemma Lists.insert [NeZero cfg.levels] (hx : Unlinked cfg rows x) (hhalf : WithinHalf cfg s x)
    (hok : startInsert cfg fuel s x = .ok s') :
    ∃ rows', Lists cfg s' (update ord x starts) (starts + 1) rows' ∧
      (∀ k, ∀ l < cfg.levels, ∀ y, y ∈ rows' k l → y = x ∨ y ∈ rows k l) ∧
      (∀ k y, y ∈ rows' k (cfg.levels - 1) ↔
        (y = x ∧ k = listOf cfg s x) ∨ y ∈ rows k (cfg.levels - 1)) ∧
      s'.timer = (s.setActivated x true).timer ∧ s'.tick = s.tick := by
  obtain ⟨base, hbase, hpend⟩ := hhalf
  generalize hk : listOf cfg s x = k at hpend
  -- every timer of the list is on the arc
  have harc : ∀ l < cfg.levels, ∀ y ∈ rows k l, InArc base (s.timer y).timeoutTick :=
    fun l hl y hy => hpend y (h.stored.pending_iff.mpr (((h.nested k).sublist_last hl).subset hy))
  obtain ⟨m, s1, hm, hstored, htimer, htick, hret⟩ := startInsert_spec h.stored hx hk
    (h.nested k) fun l hl => downClosed_passed hbase (harc l hl)
  obtain rfl : s1 = s' := by
    rcases hret fuel with hok' | ⟨herr, -⟩
    · exact Except.ok.inj (hok'.symm.trans hok)
    · rw [herr] at hok
      cases hok
  have hlists : Lists cfg { s with links := s1.links } _ _ _ :=
    h.inserted hx hbase hk harc hstored
  refine ⟨_, hlists.congr rfl (fun y _ => ?_) (fun y => ?_), fun k' l _ y hy => ?_, fun k' y => ?_,
    htimer, htick⟩
  · rw [htimer]
    by_cases hy : y = x <;> simp [State.setActivated, State.setTimer, hy]
  · rw [htimer]
    by_cases hy : y = x <;> simp [State.setActivated, State.setTimer, hy]
  · exact (mem_insertedRows.mp hy).imp_left fun h => h.1
  · rw [mem_insertedRows]
    simp [show m ≤ cfg.levels - 1 by omega]

end

/-! ## Invariant of the machine -/

/-- A start of `x` is between its two critical sections. -/
def Starting (p : Call X) (x : X) : Prop := p = .startRemoved x ∨ p = .startTicked x

/-- The invariant of the lists. -/
structure ListInv (cfg : Config) (m : Machine X C) (rows : Bool → ℕ → List X) : Prop where
  lists : Lists cfg m.st m.order m.starts rows
  starting : ∀ c x, Starting (m.call c) x → Unlinked cfg rows x
  unique : ∀ c c' x, Starting (m.call c) x → Starting (m.call c') x → c = c'
  stopping : ∀ c x, m.call c = .stopRemoved x → Unlinked cfg rows x
  stopped : ∀ x, m.stopped x = true → Unlinked cfg rows x

/-- No start of a timer begins between the critical sections of another start of it, and none links
the timer between the critical section and the end of a stop of it. -/
def NoOverlap (m : Machine X C) : Act X C → Prop
  | .next c => ∀ x,
    (m.call c = .startEntered x ∨ m.call c = .rearm x → ∀ c', ¬ Starting (m.call c') x) ∧
    (m.call c = .startTicked x → ∀ c', m.call c' ≠ .stopRemoved x)
  | _ => True

/-- The next part of the call changes the list of the timer. -/
def ChangesList (p : Call X) (x : X) : Prop :=
  p = .startEntered x ∨ p = .rearm x ∨ p = .startTicked x ∨ p = .stopChecked x

/-- While `rt_soft_timer_check` is between two timeout functions, no other context and no timeout
function of a hard timer changes the list of a soft timer. -/
def SoftAlone (m : Machine X C) : Act X C → Prop
  | .next c => ∀ x, ChangesList (m.call c) x → (m.st.timer x).soft = true →
    ∀ k ∈ m.softCheck, k.firing = none → c = k.ctx ∧ m.check.isNone = true
  | _ => True

/-- The deadlines that are pending after the step lie within half the range of each other. -/
def StaysWithinHalf (cfg : Config) (m : Machine X C) : Act X C → Prop
  | .next c => ∀ x, m.call c = .startTicked x → WithinHalf cfg m.st x
  | _ => True

namespace ListInv

omit [DecidableEq X] [DecidableEq C] in
lemma init (timer : X → RtTimer) (tick : BitVec 32) :
    ListInv cfg (.init timer tick : Machine X C) (fun _ _ => []) := by
  refine ⟨⟨⟨fun j => ?_, fun i j t ht => ?_, fun t _ => ring_nil.mpr ⟨rfl, rfl⟩⟩, fun k =>
    ⟨by simp, by simp⟩, by simp, by simp⟩, ?_, ?_, ?_, ?_⟩
  · have hnil : rowLists cfg.levels (fun _ _ => ([] : List X)) j = [] := by simp [rowLists]
    rw [hnil]
    exact ring_nil.mpr ⟨rfl, rfl⟩
  · simp [rowLists] at ht
  · intro c x hc
    simp [Machine.init, Starting] at hc
  · intro c c' x hc
    simp [Machine.init, Starting] at hc
  · intro c x hc
    simp [Machine.init] at hc
  · intro x hx
    simp [Machine.init] at hx

omit [DecidableEq X] in
lemma not_pending_init [NeZero cfg.levels] (timer : X → RtTimer) (tick : BitVec 32) (k : Bool)
    (x : X) : ¬ Pending cfg (.init timer tick : Machine X Unit).st k x := by
  intro hx
  have hinit : ListInv cfg (.init timer tick : Machine X Unit) (fun _ _ => []) := init timer tick
  have hmem := hinit.lists.stored.pending_iff.mp hx
  cases hmem

section

variable (h : ListInv cfg m rows)

include h

omit [DecidableEq X] [DecidableEq C] in
/-- A change that links nothing and leaves the calls alone. -/
lemma mono {rows' : Bool → ℕ → List X} (hlists : Lists cfg m'.st m'.order m'.starts rows')
    (hun : ∀ x, Unlinked cfg rows x → Unlinked cfg rows' x) (hcall : m'.call = m.call)
    (hstopped : m'.stopped = m.stopped) : ListInv cfg m' rows' where
  lists := hlists
  starting c x hc := hun x (h.starting c x (hcall ▸ hc))
  unique c c' x hc hc' := h.unique c c' x (hcall ▸ hc) (hcall ▸ hc')
  stopping c x hc := hun x (h.stopping c x (hcall ▸ hc))
  stopped x hx := hun x (h.stopped x (hstopped ▸ hx))

omit [DecidableEq X] in
lemma setCall (c : C)
    (hstart : ∀ x, Starting p x → Unlinked cfg rows x ∧ ∀ c' ≠ c, ¬ Starting (m.call c') x)
    (hstop : ∀ x, p = .stopRemoved x → Unlinked cfg rows x) :
    ListInv cfg (m.setCall c p) rows := by
  have hself : (m.setCall c p).call c = p := by simp [Machine.setCall]
  have hother : ∀ c' ≠ c, (m.setCall c p).call c' = m.call c' := fun c' hc => by
    simp [Machine.setCall, hc]
  refine ⟨h.lists, fun c' x hc => ?_, fun c1 c2 x hc1 hc2 => ?_, fun c' x hc => ?_, h.stopped⟩
  · by_cases hcc : c' = c
    · subst hcc
      exact (hstart x (hself ▸ hc)).1
    · exact h.starting c' x (hother c' hcc ▸ hc)
  · by_cases h1 : c1 = c <;> by_cases h2 : c2 = c
    · rw [h1, h2]
    · subst h1
      exact absurd (hother c2 h2 ▸ hc2) ((hstart x (hself ▸ hc1)).2 c2 h2)
    · subst h2
      exact absurd (hother c1 h1 ▸ hc1) ((hstart x (hself ▸ hc2)).2 c1 h1)
    · exact h.unique c1 c2 x (hother c1 h1 ▸ hc1) (hother c2 h2 ▸ hc2)
  · by_cases hcc : c' = c
    · subst hcc
      exact hstop x (hself ▸ hc)
    · exact h.stopping c' x (hother c' hcc ▸ hc)

omit [DecidableEq X] in
/-- A context moves to a place where it needs no timer to be unlinked. -/
lemma setCall_free (c : C) (hstart : ∀ x, ¬ Starting p x)
    (hstop : ∀ x, p ≠ .stopRemoved x) : ListInv cfg (m.setCall c p) rows :=
  h.setCall c (fun x hx => absurd hx (hstart x)) fun x hx => absurd hx (hstop x)

section

omit [DecidableEq C]

lemma remove (x : X) :
    ListInv cfg { m with st := timerRemove cfg m.st x } (fun k l => (rows k l).erase x) :=
  h.mono (h.lists.remove x) (fun _ hy => hy.erase) rfl rfl

/-- A change of flags or times that is not a deadline of a linked timer. -/
lemma setTimer {t : RtTimer}
    (hdead : t.timeoutTick = (m.st.timer x).timeoutTick ∨ Unlinked cfg rows x)
    (hsoft : t.soft = (m.st.timer x).soft) :
    ListInv cfg { m with st := m.st.setTimer x t } rows := by
  refine h.mono (h.lists.congr rfl (fun y hy => ?_) fun y => ?_) (fun _ hy => hy) rfl rfl
  · by_cases hyx : y = x
    · subst hyx
      simpa [State.setTimer] using hdead.resolve_right hy
    · simp [State.setTimer, hyx]
  · by_cases hyx : y = x
    · subst hyx
      simpa [State.setTimer] using hsoft
    · simp [State.setTimer, hyx]

lemma setActivated (x : X) (b : Bool) : ListInv cfg { m with st := m.st.setActivated x b } rows :=
  h.setTimer (.inl rfl) rfl

end

/-- The first critical section of `rt_timer_start`. -/
lemma startRemove (c : C) (hfree : ∀ c', ¬ Starting (m.call c') x) :
    ListInv cfg ({ m with st := startRemove cfg m.st x }.setCall c (.startRemoved x))
      (fun k l => (rows k l).erase x) := by
  apply ((h.remove x).setActivated x false).setCall c
  · intro y hy
    obtain rfl : x = y := by simpa [Starting] using hy
    exact ⟨h.lists.unlinked_remove x, fun c' _ => hfree c'⟩
  · simp

lemma startTick (hc : m.call c = .startRemoved x) (hok : startTick m.st x = .ok s) :
    ListInv cfg ({ m with st := s }.setCall c (.startTicked x)) rows := by
  unfold Timer.startTick at hok
  obtain ⟨-, hok⟩ := ite_eq_ok.mp hok
  obtain rfl := Except.ok.inj hok
  have hun := h.starting c x (.inl hc)
  have hset := h.setTimer (t := { m.st.timer x with
    timeoutTick := m.st.tick + (m.st.timer x).initTick }) (.inr hun) rfl
  apply hset.setCall c
  · intro y hy
    obtain rfl : x = y := by simpa [Starting] using hy
    exact ⟨hun, fun c' hcc hc' => hcc (h.unique c' c x hc' (.inl hc))⟩
  · simp

omit [DecidableEq C] in
lemma link [NeZero cfg.levels] (hx : Unlinked cfg rows x)
    (hfree : ∀ c, ¬ Starting (m.call c) x ∧ m.call c ≠ .stopRemoved x)
    (hhalf : WithinHalf cfg m.st x) (hok : startInsert cfg fuel m.st x = .ok s) :
    ∃ rows', ListInv cfg { m with
      st := s
      order := update m.order x m.starts
      starts := m.starts + 1
      stopped := update m.stopped x false } rows' := by
  obtain ⟨rows', hlists, hmem, -⟩ := h.lists.insert hx hhalf hok
  have hun : ∀ y ≠ x, Unlinked cfg rows y → Unlinked cfg rows' y := fun y hyx hy k l hl hin =>
    (hmem k l hl y hin).elim hyx (hy k l hl)
  refine ⟨rows', hlists, fun c y hc => hun y ?_ (h.starting c y hc), h.unique,
    fun c y hc => hun y ?_ (h.stopping c y hc), fun y hy => ?_⟩
  · rintro rfl
    exact (hfree c).1 hc
  · rintro rfl
    exact (hfree c).2 hc
  · have hyx : y ≠ x := by
      rintro rfl
      simp at hy
    exact hun y hyx (h.stopped y (by simpa [hyx] using hy))

/-- The second critical section of `rt_timer_start`. -/
lemma startInsert [NeZero cfg.levels]
    (hc : m.call c = .startTicked x) (hstop : ∀ c', m.call c' ≠ .stopRemoved x)
    (hhalf : WithinHalf cfg m.st x) (hok : startInsert cfg fuel m.st x = .ok s) :
    ∃ rows', ListInv cfg ({ m with
      st := s
      order := update m.order x m.starts
      starts := m.starts + 1
      stopped := update m.stopped x false }.setCall c .idle) rows' := by
  have hidle : ListInv cfg (m.setCall c .idle) rows :=
    h.setCall_free c (by simp [Starting]) (by simp)
  refine hidle.link (h.starting c x (.inr hc)) (fun c' => ?_) hhalf hok
  by_cases hcc : c' = c
  · simp [Machine.setCall, Starting, hcc]
  · have hcall : (m.setCall c .idle).call c' = m.call c' := by simp [Machine.setCall, hcc]
    rw [hcall]
    exact ⟨fun hs => hcc (h.unique c' c x hs (.inr hc)), hstop c'⟩

lemma stopRemove (c : C) (x : X) :
    ListInv cfg ({ m with st := timerRemove cfg m.st x }.setCall c (.stopRemoved x))
      (fun k l => (rows k l).erase x) := by
  apply (h.remove x).setCall c
  · simp [Starting]
  · intro y hy
    obtain rfl : x = y := by simpa using hy
    exact h.lists.unlinked_remove x

lemma stopClear (hc : m.call c = .stopRemoved x) : ListInv cfg ({ m with
      st := m.st.setActivated x false
      stopped := update m.stopped x true }.setCall c .idle) rows := by
  have hset := (h.setActivated x false).setCall_free c (p := .idle) (by simp [Starting]) (by simp)
  refine ⟨hset.lists, hset.starting, hset.unique, hset.stopping, fun y hy => ?_⟩
  by_cases hyx : y = x
  · exact hyx ▸ h.stopping c x hc
  · exact h.stopped y (by simpa [Machine.setCall, hyx] using hy)

lemma callbackReturned (c : C) (x : X) : ListInv cfg (m.callbackReturned c x) rows := by
  unfold Machine.callbackReturned
  split
  · exact (h.setActivated x false).setCall_free c (by simp [Starting]) (by simp)
  · exact h.setActivated x false

omit [DecidableEq X] [DecidableEq C] in
lemma setChecks (check : Option (Check X C)) (softCheck : Option (SoftCheck X C)) :
    ListInv cfg { m with check := check, softCheck := softCheck } rows :=
  ⟨h.lists, h.starting, h.unique, h.stopping, h.stopped⟩

lemma step [NeZero cfg.levels] {a : Act X C}
    (hno : NoOverlap m a) (hhalf : StaysWithinHalf cfg m a) (hok : m.step cfg fuel a = some m') :
    ∃ rows', ListInv cfg m' rows' := by
  cases Machine.moves_step hok with
  | start c | stop c => exact ⟨rows, h.setCall_free c (by simp [Starting]) (by simp)⟩
  | stopNot => exact ⟨rows, h⟩
  | control c x cmd => cases cmd <;> exact ⟨rows, h.setTimer (.inl rfl) rfl⟩
  | startRemove c x hc => exact ⟨_, h.startRemove c ((hno x).1 hc)⟩
  | startTick c x st hc hst => exact ⟨rows, h.startTick hc hst⟩
  | startInsert c x st hc hst => exact h.startInsert hc ((hno x).2 hc) (hhalf x hc) hst
  | stopRemove c x => exact ⟨_, h.stopRemove c x⟩
  | stopClear c x hc => exact ⟨rows, h.stopClear hc⟩
  | tick =>
    exact ⟨rows, h.mono (h.lists.congr rfl (fun _ _ => rfl) fun _ => rfl) (fun _ hy => hy) rfl rfl⟩
  | checkEnter | checkEnd => exact ⟨rows, h.setChecks _ m.softCheck⟩
  | softEnter | softEnd => exact ⟨rows, h.setChecks m.check _⟩
  | checkFire k t => exact ⟨_, (h.remove t).setChecks _ m.softCheck⟩
  | softFire k t => exact ⟨_, (h.remove t.1).setChecks m.check _⟩
  | checkReturn k t | softReturn k t => exact ⟨rows, (h.callbackReturned k.ctx t).setChecks _ _⟩

end

end ListInv

/-- The invariant along a run. -/
lemma Reach.listInv [NeZero cfg.levels]
    (hP : ∀ m a, P m a → NoOverlap m a ∧ StaysWithinHalf cfg m a) (hm : Reach cfg P m) :
    ∃ rows, ListInv cfg m rows := by
  induction hm with
  | init => exact ⟨_, .init _ _⟩
  | step _ ha hstep ih =>
    obtain ⟨rows, inv⟩ := ih
    exact inv.step (hP _ _ ha).1 (hP _ _ ha).2 hstep

/-! ## Order of the lists -/

/-- The last row of each list is sorted by deadline with equal deadlines in the order of their
starts, each row is a subsequence of the row below it, and a timer whose stop succeeded and that
was not linked since is on no row. -/
def SortedLists (cfg : Config) (m : Machine X C) : Prop :=
  ∃ rows, Stored cfg m.st rows ∧
    (∀ k, (rows k (cfg.levels - 1)).Pairwise (NotAfter m.st m.order)) ∧
    (∀ k l, l + 1 < cfg.levels → (rows k l).Sublist (rows k (l + 1))) ∧
    ∀ x, m.stopped x = true → Unlinked cfg rows x

/-- In every run without overlapping calls on one timer, with the soft timer list left alone, and with
the pending deadlines within half the range, the lists are in order in every state. -/
theorem sortedLists_of_noOverlap (hlevels : 0 < cfg.levels)
    (hm : Reach cfg (fun m a => (NoOverlap m a ∧ StaysWithinHalf cfg m a) ∧ SoftAlone m a) m) :
    SortedLists cfg m := by
  have := NeZero.of_pos hlevels
  obtain ⟨rows, inv⟩ := hm.listInv fun _ _ h => h.1
  exact ⟨rows, inv.lists.stored, fun k => (inv.lists.nested k).sorted _ (by omega),
    fun k => (inv.lists.nested k).sublist, inv.stopped⟩

/-! ## Concrete runs -/

/-- A sequence of steps that all pass the test `ok`. -/
def run (cfg : Config) (fuel : ℕ) (ok : Machine X C → Act X C → Bool) :
    Machine X C → List (Act X C) → Option (Machine X C)
  | m, [] => some m
  | m, a :: as => if ok m a then (m.step cfg fuel a).bind fun m => run cfg fuel ok m as else none

lemma Reach.run (hok : ∀ m a, ok m a = true → P m a) {as : List (Act X C)} (hm : Reach cfg P m)
    (hrun : run cfg fuel ok m as = some m') : Reach cfg P m' := by
  induction as generalizing m with
  | nil =>
    obtain rfl := some.inj hrun
    exact hm
  | cons a as ih =>
    simp only [Timer.run] at hrun
    split at hrun
    case isTrue ha =>
      obtain ⟨m1, hstep, hrest⟩ := bind_eq_some_iff.mp hrun
      exact ih (hm.step (hok m a ha) hstep) hrest
    case isFalse => cases hrun

/-- A run that is executed reaches a state with the properties that its last state is tested for. -/
lemma exists_of_run (hok : ∀ m a, ok m a = true → P m a) (timer : X → RtTimer) (tick : BitVec 32)
    (hinit : ∀ x, (timer x).activated = false) (fuel : ℕ) (as : List (Act X C))
    {F : Machine X C → Prop} [DecidablePred F]
    (hrun : (run cfg fuel ok (.init timer tick) as).any (fun m => decide (F m)) = true) :
    ∃ m, Reach cfg P m ∧ F m := by
  obtain ⟨m, hm, hF⟩ := (any_eq_true _ _).mp hrun
  exact ⟨m, (Reach.init hinit).run hok hm, of_decide_eq_true hF⟩

/-- All deadlines lie on the first half of the range. -/
def earlyDeadlines (m : Machine Bool C) : Bool :=
  decide (∀ x, InArc 0 (m.st.timer x).timeoutTick)

omit [DecidableEq C] in
lemma staysWithinHalf_of_early {m : Machine Bool C} (h : earlyDeadlines m = true)
    (a : Act Bool C) : StaysWithinHalf cfg m a := by
  have hall : ∀ x, InArc 0 (m.st.timer x).timeoutTick := of_decide_eq_true h
  cases a with
  | next c => exact fun x _ => ⟨0, hall x, fun y _ => hall y⟩
  | _ => exact trivial

instance (p : Call X) (x : X) : Decidable (Starting p x) := inferInstanceAs (Decidable (_ ∨ _))

instance (p : Call X) (x : X) : Decidable (ChangesList p x) :=
  inferInstanceAs (Decidable (_ ∨ _ ∨ _ ∨ _))

instance [Fintype X] [Fintype C] (m : Machine X C) (a : Act X C) : Decidable (NoOverlap m a) := by
  cases a <;> unfold NoOverlap <;> infer_instance

instance [Fintype X] (m : Machine X C) : DecidablePred (SoftAlone m)
  | .next _ => inferInstanceAs (Decidable (∀ _, _ → _ → ∀ _ ∈ m.softCheck, _ → _))
  | .start _ _ | .stop _ _ | .control _ _ _ | .tick | .checkEnter _ | .checkNext | .softEnter _
  | .softNext => isTrue trivial

lemma noOverlap_of_test {m : Machine Bool Bool} {a : Act Bool Bool}
    (h : (decide (NoOverlap m a) && earlyDeadlines m) = true) :
    NoOverlap m a ∧ StaysWithinHalf cfg m a := by
  rw [Bool.and_eq_true] at h
  exact ⟨of_decide_eq_true h.1, staysWithinHalf_of_early h.2 a⟩

/-- A test for a condition on the steps, and for `SoftAlone`. -/
lemma softAlone_of_test {m : Machine Bool Bool} {a : Act Bool Bool} {test : Bool} {Q : Prop}
    (hQ : test = true → Q) (h : (test && decide (SoftAlone m a)) = true) : Q ∧ SoftAlone m a := by
  rw [Bool.and_eq_true] at h
  exact ⟨hQ h.1, of_decide_eq_true h.2⟩

/-- A complete call of `rt_timer_start`. -/
def startActs (c : C) (x : X) : List (Act X C) := [.start c x, .next c, .next c, .next c]

/-- One-shot timers with the times 10 and 20. -/
def twoTimers (x : Bool) : RtTimer where
  timeoutTick := 0
  initTick := if x then 20 else 10
  activated := false
  periodic := false
  soft := false

/-- Two levels; the second timer is linked, the first one is linked before it and stopped while a
second context restarts the other one. -/
theorem sortedLists_after_stop : ∃ m : Machine Bool Bool,
    m.stopped false = true ∧ SortedLists ⟨2, 3, false⟩ m := by
  obtain ⟨m, hreach, hstop⟩ : ∃ m : Machine Bool Bool, Reach ⟨2, 3, false⟩ (fun m a =>
      (NoOverlap m a ∧ StaysWithinHalf ⟨2, 3, false⟩ m a) ∧ SoftAlone m a) m ∧
        m.stopped false = true :=
    exists_of_run (fun _ _ => softAlone_of_test noOverlap_of_test) twoTimers 0 (fun _ => rfl) 10
      (startActs true true ++ startActs false false ++ [.stop false false, .start true true,
        .next true, .next false, .next true, .next false, .next true]) (by decide +kernel)
  exact ⟨m, hstop, sortedLists_of_noOverlap (by decide) hreach⟩

/-- Two contexts start the same timer. The first one has passed its first critical section when the
second one links the timer; another timer follows in the list, and then the first context sets a
later deadline in the linked timer. -/
theorem overlapping_starts_unsorted : ∃ m : Machine Bool Bool,
    Reach ⟨1, 3, false⟩ (StaysWithinHalf ⟨1, 3, false⟩) m ∧ ¬ SortedLists ⟨1, 3, false⟩ m := by
  obtain ⟨m, hreach, hring, hfirst, hsecond⟩ : ∃ m : Machine Bool Bool,
      Reach ⟨1, 3, false⟩ (StaysWithinHalf ⟨1, 3, false⟩) m ∧
      m.st.links.Ring (.head (false, 0)) [.item (false, 0), .item (true, 0)] ∧
      (m.st.timer false).timeoutTick = 30 ∧ (m.st.timer true).timeoutTick = 20 :=
    exists_of_run (fun _ a h => staysWithinHalf_of_early h a) twoTimers 0 (fun _ => rfl) 10
      ([.start false false, .next false] ++ startActs true false ++ startActs true true ++
        [.control true false (.setTime 30), .next false]) (by decide +kernel)
  refine ⟨m, hreach, ?_⟩
  rintro ⟨rows, hst, hsorted, -⟩
  -- the only row is the first timer and then the second one
  have hrow := (hst.ring (false, 0)).unique hring
  rw [rowLists_of_lt (by decide)] at hrow
  have hrows : rows false 0 = [false, true] := by
    have hinj : Function.Injective (fun x : Bool => (Node.item (x, 0) : RowNode Bool)) :=
      fun a b h => by simpa using h
    rw [List.map_map] at hrow
    exact map_injective_iff.mpr hinj hrow
  have hpair := hsorted false
  rw [show (⟨1, 3, false⟩ : Config).levels - 1 = 0 from rfl, hrows] at hpair
  have hbefore := (pairwise_cons.mp hpair).1 true (by simp)
  rw [NotAfter, hfirst, hsecond] at hbefore
  exact absurd hbefore.1 (by decide)

end Timer
