import TempSns.Lib.Transition
import TempSns.Sched.Runs

/-!
# The ready queues of several cores

`rt_schedule_insert_thread` and `rt_schedule_remove_thread` of `src/scheduler.c` with
`RT_USING_SMP`. A thread that is not bound to a core is kept in the global priority table, a bound
one in the table of its core. Each table has its own ready bitmap. `cpus` is `RT_CPUS_NR`, which also
stands for "not bound" in `bind_cpu` and for `RT_CPU_DETACHED` in `oncpu`.

When a bound thread is removed, the source clears the bit of the group by a test of the row of the
global table. The rows stay exact in all runs (`Inv`). The bits of the groups stay exact as long as
both rows lead to the same decision (`KeepsGroup`).
-/

namespace Sched.Smp

open Links Function List Except

/-- The part of `struct rt_thread` that the queues use. -/
structure SmpThread extends Thread where
  bindCpu : ℕ
  oncpu : ℕ
  deriving DecidableEq, Repr

/-- The list heads: `rt_thread_priority_table[p]` and `priority_table[p]` of the core `c`. -/
inductive Head where
  | ready (p : ℕ)
  | cpu (c p : ℕ)
  deriving DecidableEq, Repr

/-- A ready bitmap: `rt_thread_ready_priority_group` and `rt_thread_ready_table`, or
`priority_group` and `ready_table` of a core. -/
structure ReadyMap where
  group : BitVec 32
  table : ℕ → BitVec 8

/-- The queues of all cores and all threads. -/
structure Kernel (T : Type) where
  thread : T → SmpThread
  links : Links (Node Head T)
  ready : ReadyMap
  cpu : ℕ → ReadyMap
  /-- The masks of the cores that were sent `RT_SCHEDULE_IPI`. -/
  ipis : List (BitVec 32)

variable {T : Type} [DecidableEq T] {n : ℕ} {j : Head} {ready : ReadyMap} {p : ℕ}

def Kernel.setThread (k : Kernel T) (t : T) (x : SmpThread) : Kernel T :=
  { k with thread := update k.thread t x }

/-- `thread->stat = s`. -/
def Kernel.setStat (k : Kernel T) (t : T) (s : ThreadStat) : Kernel T :=
  k.setThread t { k.thread t with stat := s }

def Kernel.prio (k : Kernel T) (t : T) : ℕ := (k.thread t).currentPriority.toNat

def rtSystemSchedulerInit (thread : T → SmpThread) : Kernel T where
  thread := thread
  links := ⟨id, id⟩
  ready := ⟨0, fun _ => 0⟩
  cpu := fun _ => ⟨0, fun _ => 0⟩
  ipis := []

section

variable (prioMax cpus : ℕ)

def ReadyMap.setReady (r : ReadyMap) (x : Thread) : ReadyMap where
  group := r.group ||| x.numberMask
  table :=
    if 32 < prioMax then update r.table x.number (r.table x.number ||| x.highMask)
    else r.table

/-- Clear the bits of the thread `x` in the global bitmap. -/
def ReadyMap.clearReady (r : ReadyMap) (x : Thread) : ReadyMap :=
  if 32 < prioMax then
    let row := r.table x.number &&& ~~~x.highMask
    { group := if row = 0 then r.group &&& ~~~x.numberMask else r.group
      table := update r.table x.number row }
  else { r with group := r.group &&& ~~~x.numberMask }

/-- Clear the bits of the thread `x` in the bitmap of its core. The row that is tested is that of the
global bitmap `ready`. -/
def ReadyMap.clearCpu (r ready : ReadyMap) (x : Thread) : ReadyMap :=
  if 32 < prioMax then
    { group := if ready.table x.number = 0 then r.group &&& ~~~x.numberMask else r.group
      table := update r.table x.number (r.table x.number &&& ~~~x.highMask) }
  else { r with group := r.group &&& ~~~x.numberMask }

def rtCpuMask : BitVec 32 := (1#32 <<< cpus) - 1

/-- `rt_schedule_insert_thread`, called on the core `cpuId`. -/
def rtScheduleInsertThread (cpuId : ℕ) (k : Kernel T) (t : T) : Except Fault (Kernel T) :=
  let x := k.thread t
  if x.oncpu ≠ cpus then .ok (k.setStat t .running)
  else if k.prio t < prioMax then
    if x.bindCpu = cpus then
      .ok { k.setStat t .ready with
        ready := k.ready.setReady prioMax x.toThread
        links := k.links.insertBefore (.head (.ready (k.prio t))) (.item t)
        ipis := k.ipis ++ [rtCpuMask cpus ^^^ 1#32 <<< cpuId] }
    else if x.bindCpu < cpus then
      .ok { k.setStat t .ready with
        cpu := update k.cpu x.bindCpu ((k.cpu x.bindCpu).setReady prioMax x.toThread)
        links := k.links.insertBefore (.head (.cpu x.bindCpu (k.prio t))) (.item t)
        ipis := if cpuId ≠ x.bindCpu then k.ipis ++ [1#32 <<< x.bindCpu] else k.ipis }
    else .error .badIndex
  else .error .badIndex

def rtScheduleRemoveThread (k : Kernel T) (t : T) : Except Fault (Kernel T) :=
  let k := { k with links := k.links.remove (.item t) }
  let x := k.thread t
  if k.prio t < prioMax then
    if x.bindCpu = cpus then
      .ok (if k.links.isEmpty (.head (.ready (k.prio t))) then
        { k with ready := k.ready.clearReady prioMax x.toThread } else k)
    else if x.bindCpu < cpus then
      let pcpu := (k.cpu x.bindCpu).clearCpu prioMax k.ready x.toThread
      .ok (if k.links.isEmpty (.head (.cpu x.bindCpu (k.prio t))) then
        { k with cpu := update k.cpu x.bindCpu pcpu } else k)
    else .error .badIndex
  else .error .badIndex

/-! ## Runs -/

/-- The list of a thread: that of its priority in the global table or in that of its core. -/
def Kernel.home (k : Kernel T) (t : T) : Head :=
  if (k.thread t).bindCpu = cpus then .ready (k.prio t)
  else .cpu (k.thread t).bindCpu (k.prio t)

def InList (k : Kernel T) (j : Head) (t : T) : Prop :=
  ∃ xs, k.links.Ring (.head j) xs ∧ .item t ∈ xs

/-- The thread is bound to a core or not bound, has a legal priority, and its priority attributes
belong to it. -/
structure Legal (x : SmpThread) : Prop where
  bind : x.bindCpu ≤ cpus
  prio : x.currentPriority.toNat < prioMax
  attrs : Attrs prioMax x.toThread

/-- What is done to the queues and to the threads. -/
inductive Op (T : Type) where
  /-- `rt_schedule_insert_thread` on a core. -/
  | insert (cpuId : ℕ) (t : T)
  /-- `rt_schedule_remove_thread`. -/
  | remove (t : T)
  /-- The other parts of the kernel change a thread. -/
  | change (t : T) (x : SmpThread)

def step (k : Kernel T) : Op T → Except Fault (Kernel T)
  | .insert cpuId t => rtScheduleInsertThread prioMax cpus cpuId k t
  | .remove t => rtScheduleRemoveThread prioMax cpus k t
  | .change t x => .ok (k.setThread t x)

/-- A thread that is inserted is in no list, and the priority and the core of a thread change only
while it is in no list. -/
def Allowed (k : Kernel T) : Op T → Prop
  | .insert _ t => ∀ j, ¬ InList k j t
  | .remove _ => True
  | .change t x => Legal prioMax cpus x ∧ ((∃ j, InList k j t) →
      x.bindCpu = (k.thread t).bindCpu ∧ x.currentPriority = (k.thread t).currentPriority)

/-- If the last thread of a priority of a core is removed, then another thread of the group is ready
on this core exactly if a thread of the group that is not bound is ready. (If the thread is in no
list, the first one must imply the second one.) -/
def KeepsGroup (k : Kernel T) : Op T → Prop
  | .remove t =>
    let c := (k.thread t).bindCpu
    let p := k.prio t
    let other := ∃ q u, q / 8 = p / 8 ∧ u ≠ t ∧ InList k (.cpu c q) u
    let unbound := ∃ q u, q / 8 = p / 8 ∧ InList k (.ready q) u
    c ≠ cpus → (¬ ∃ u, u ≠ t ∧ InList k (.cpu c p) u) →
      (other → unbound) ∧ (unbound → InList k (.cpu c p) t → other)
  | _ => True

/-- All threads are legal, and the queues are empty. -/
def Initial (k : Kernel T) : Prop :=
  ∃ thread, k = rtSystemSchedulerInit thread ∧ ∀ t, Legal prioMax cpus (thread t)

/-- For every core, each bit of the group says whether its row is zero, and each bit of a row whether
the list of its priority is empty. -/
structure CoresExact (k : Kernel T) : Prop where
  group : ∀ c < cpus, ∀ n < 32, (k.cpu c).group.getLsbD n = true ↔ (k.cpu c).table n ≠ 0
  row : ∀ c < cpus, ∀ n < 32, ∀ m < 8, 8 * n + m < prioMax →
    (((k.cpu c).table n).getLsbD m = true ↔ ¬ k.links.isEmpty (.head (.cpu c (8 * n + m))))

end

/-! ## Invariant of all runs -/

variable {prioMax cpus : ℕ} {k k' : Kernel T} {lists : Head → List T} {t u : T}

/-- The lists are stored, every thread is in no list but its own, and the global bitmap and the rows
of the cores are exact. -/
structure Inv (prioMax cpus : ℕ) (k : Kernel T) (lists : Head → List T) : Prop where
  rep : k.links.Represents lists
  home : ∀ j t, t ∈ lists j → j = k.home cpus t
  legal : ∀ t, Legal prioMax cpus (k.thread t)
  ready : Bitmap prioMax k.ready.group k.ready.table {p | lists (.ready p) ≠ []}
  row : ∀ c < cpus, ∀ p < 256,
    ((k.cpu c).table (p / 8)).getLsbD (p % 8) = true ↔ lists (.cpu c p) ≠ []

omit [DecidableEq T] in
lemma inList_iff (hrep : k.links.Represents lists) : InList k j t ↔ t ∈ lists j := by
  have hring := hrep.ring j
  constructor
  · rintro ⟨xs, hxs, hmem⟩
    rw [hxs.unique hring] at hmem
    simpa using hmem
  · exact fun hmem => ⟨_, hring, by simpa using hmem⟩

omit [DecidableEq T] in
lemma Inv.init {thread : T → SmpThread} (hlegal : ∀ t, Legal prioMax cpus (thread t)) :
    Inv prioMax cpus (rtSystemSchedulerInit thread) fun _ => [] := by
  refine ⟨⟨fun j => ring_nil.mpr ⟨rfl, rfl⟩, nofun, fun t _ => ring_nil.mpr ⟨rfl, rfl⟩⟩, nofun, hlegal,
    ⟨fun p hp => absurd rfl hp, fun _ p => ?_, fun _ p _ => ?_, fun _ n => ?_⟩, fun c _ p _ => ?_⟩
  · simp [rtSystemSchedulerInit]
  · simp [rtSystemSchedulerInit]
  · simp [rtSystemSchedulerInit]
  · simp [rtSystemSchedulerInit]

lemma bitmap_clearReady {r : ReadyMap} {S : Set ℕ} (b : Bitmap prioMax r.group r.table S)
    {x : Thread} (a : Attrs prioMax x) :
    Bitmap prioMax (r.clearReady prioMax x).group (r.clearReady prioMax x).table
      (S \ {x.currentPriority.toNat}) := by
  let k : Sched.Kernel Unit := ⟨fun _ => x, ⟨id, id⟩, r.group, r.table, 0, none⟩
  have hgroup : (r.clearReady prioMax x).group = (Sched.clearReady prioMax k x).readyGroup := by
    unfold ReadyMap.clearReady Sched.clearReady
    split <;> rfl
  have htable : (r.clearReady prioMax x).table = (Sched.clearReady prioMax k x).readyTable := by
    unfold ReadyMap.clearReady Sched.clearReady
    split <;> rfl
  rw [hgroup, htable]
  exact Bitmap.clearReady (k := k) b a

lemma table_ne_zero_iff {table : ℕ → BitVec 8} {S : ℕ → Prop}
    (hrow : ∀ p < 256, (table (p / 8)).getLsbD (p % 8) = true ↔ S p) (hn : n < 32) :
    table n ≠ 0 ↔ ∃ q, q / 8 = n ∧ S q := by
  rw [ne_zero_iff_getLsbD]
  constructor
  · rintro ⟨m, hm⟩
    have hm8 : m < 8 := BitVec.lt_of_getLsbD hm
    refine ⟨8 * n + m, by omega, (hrow _ (by omega)).mp ?_⟩
    rwa [show (8 * n + m) / 8 = n by omega, show (8 * n + m) % 8 = m by omega]
  · rintro ⟨q, rfl, hq⟩
    exact ⟨q % 8, (hrow q (by omega)).mpr hq⟩

section

variable {r : ReadyMap} {x : Thread}

lemma row_setReady (h32 : 32 < prioMax) (ha : Attrs prioMax x) :
    ((r.setReady prioMax x).table (p / 8)).getLsbD (p % 8) = true ↔
      p = x.currentPriority.toNat ∨ (r.table (p / 8)).getLsbD (p % 8) = true := by
  obtain ⟨hnumber, -, hhigh⟩ := ha.two h32
  rw [eq_iff_div_mod]
  simp only [ReadyMap.setReady, if_pos h32, hnumber, hhigh]
  by_cases hrow : p / 8 = x.currentPriority.toNat / 8
  · rw [hrow, update_self, getLsbD_or_bit (by omega)]
    simp
  · rw [update_of_ne hrow]
    simp [hrow]

lemma group_setReady (h32 : 32 < prioMax) (ha : Attrs prioMax x) :
    (r.setReady prioMax x).group.getLsbD n = true ↔
      n = x.currentPriority.toNat / 8 ∨ r.group.getLsbD n = true := by
  obtain ⟨-, hmask, -⟩ := ha.two h32
  have hlt : x.currentPriority.toNat < 256 := x.currentPriority.toNat_lt
  rw [ReadyMap.setReady, hmask]
  exact getLsbD_or_bit (by omega)

lemma row_clearCpu (h32 : 32 < prioMax) (ha : Attrs prioMax x) :
    ((r.clearCpu prioMax ready x).table (p / 8)).getLsbD (p % 8) = true ↔
      p ≠ x.currentPriority.toNat ∧ (r.table (p / 8)).getLsbD (p % 8) = true := by
  obtain ⟨hnumber, -, hhigh⟩ := ha.two h32
  rw [ne_eq, eq_iff_div_mod]
  simp only [ReadyMap.clearCpu, if_pos h32, hnumber, hhigh]
  by_cases hrow : p / 8 = x.currentPriority.toNat / 8
  · rw [hrow, update_self, getLsbD_and_not_bit]
    simp
  · rw [update_of_ne hrow]
    simp [hrow]

/-- The bit of the group is cleared if the global row is zero. -/
lemma group_clearCpu (h32 : 32 < prioMax) (ha : Attrs prioMax x) :
    (r.clearCpu prioMax ready x).group.getLsbD n = true ↔
      r.group.getLsbD n = true ∧ (n = x.currentPriority.toNat / 8 → ready.table n ≠ 0) := by
  obtain ⟨hnumber, hmask, -⟩ := ha.two h32
  simp only [ReadyMap.clearCpu, if_pos h32, hnumber, hmask]
  by_cases hn : n = x.currentPriority.toNat / 8
  · rw [← hn]
    split
    case isTrue hzero =>
      rw [getLsbD_and_not_bit]
      exact ⟨fun h => absurd rfl h.1, fun h => absurd hzero (h.2 rfl)⟩
    case isFalse hne => exact ⟨fun h => ⟨h, fun _ => hne⟩, fun h => h.1⟩
  · split
    case isTrue =>
      rw [getLsbD_and_not_bit]
      exact ⟨fun h => ⟨h.2, fun heq => absurd heq hn⟩, fun h => ⟨hn, h.1⟩⟩
    case isFalse => exact ⟨fun h => ⟨h, fun heq => absurd heq hn⟩, fun h => h.1⟩

end

/-! ## Inserting a thread -/

lemma Inv.setThread (inv : Inv prioMax cpus k lists) {x : SmpThread}
    (hlegal : Legal prioMax cpus x) (hsame : (∃ j, t ∈ lists j) →
      x.bindCpu = (k.thread t).bindCpu ∧ x.currentPriority = (k.thread t).currentPriority) :
    Inv prioMax cpus (k.setThread t x) lists := by
  refine ⟨inv.rep, fun j u hu => ?_, fun u => ?_, inv.ready, inv.row⟩
  · rw [inv.home j u hu]
    by_cases hut : u = t
    · subst hut
      obtain ⟨hbind, hprio⟩ := hsame ⟨j, hu⟩
      simp [Kernel.home, Kernel.prio, Kernel.setThread, hbind, hprio]
    · simp [Kernel.home, Kernel.prio, Kernel.setThread, hut]
  · by_cases hut : u = t
    · subst hut
      simpa [Kernel.setThread] using hlegal
    · simpa [Kernel.setThread, hut] using inv.legal u

lemma Inv.setStat (inv : Inv prioMax cpus k lists) (s : ThreadStat) :
    Inv prioMax cpus (k.setStat t s) lists :=
  inv.setThread ⟨(inv.legal t).bind, (inv.legal t).prio, (inv.legal t).attrs.setStat s⟩
    fun _ => ⟨rfl, rfl⟩

lemma home_setStat {s : ThreadStat} : (k.setStat t s).home cpus u = k.home cpus u := by
  by_cases hut : u = t
  · subst hut
    simp [Kernel.home, Kernel.prio, Kernel.setStat, Kernel.setThread]
  · simp [Kernel.home, Kernel.prio, Kernel.setStat, Kernel.setThread, hut]

omit [DecidableEq T] in
lemma update_append_ne_nil {i j : Head} :
    update lists i (lists i ++ [t]) j ≠ [] ↔ j = i ∨ lists j ≠ [] := by
  by_cases hj : j = i
  · subst hj
    simp
  · simp [hj]

lemma Inv.home_append (inv : Inv prioMax cpus k lists)
    (hu : u ∈ update lists (k.home cpus t) (lists (k.home cpus t) ++ [t]) j) :
    j = (k.setStat t .ready).home cpus u := by
  rw [home_setStat]
  by_cases hj : j = k.home cpus t
  · subst hj
    rw [update_self, mem_append, mem_singleton] at hu
    rcases hu with hu | rfl
    · exact inv.home _ u hu
    · rfl
  · rw [update_of_ne hj] at hu
    exact inv.home j u hu

lemma Inv.insert (inv : Inv prioMax cpus k lists) (h32 : 32 < prioMax) {cpuId : ℕ}
    (ht : ∀ j, t ∉ lists j) (hok : rtScheduleInsertThread prioMax cpus cpuId k t = .ok k') :
    (∃ lists', Inv prioMax cpus k' lists') ∧ ∀ c < cpus, (k'.cpu c = k.cpu c ∨
        k'.cpu c = (k.cpu c).setReady prioMax (k.thread t).toThread) := by
  have hlegal := inv.legal t
  have hset := inv.setStat (t := t) .ready
  have hprio : k.prio t < prioMax := hlegal.prio
  unfold rtScheduleInsertThread at hok
  by_cases hon : (k.thread t).oncpu ≠ cpus
  · -- a running thread is not put into a list
    rw [if_pos hon] at hok
    obtain rfl := ok.inj hok
    exact ⟨⟨lists, inv.setStat .running⟩, fun c _ => .inl rfl⟩
  rw [if_neg hon, if_pos hprio] at hok
  by_cases hbind : (k.thread t).bindCpu = cpus
  · rw [if_pos hbind] at hok
    obtain rfl := ok.inj hok
    have hj : k.home cpus t = .ready (k.prio t) := if_pos hbind
    have hready : {p | update lists (.ready (k.prio t))
        (lists (.ready (k.prio t)) ++ [t]) (.ready p) ≠ []} =
        Insert.insert (k.prio t) {p | lists (.ready p) ≠ []} := by
      ext q
      rw [Set.mem_ofPred_eq, update_append_ne_nil, Head.ready.injEq]
      rfl
    refine ⟨⟨_, inv.rep.pushBack ht, fun j u hu => inv.home_append (hj ▸ hu), hset.legal, ?_,
      fun c hc p hp => ?_⟩, fun c _ => .inl rfl⟩
    · rw [hready]
      exact inv.ready.insert hlegal.attrs hlegal.prio
    · rw [update_append_ne_nil, or_iff_right nofun]
      exact inv.row c hc p hp
  · have hlt : (k.thread t).bindCpu < cpus := lt_of_le_of_ne hlegal.bind hbind
    rw [if_neg hbind, if_pos hlt] at hok
    obtain rfl := ok.inj hok
    have hj : k.home cpus t = .cpu (k.thread t).bindCpu (k.prio t) := if_neg hbind
    have hready : {p | update lists (.cpu (k.thread t).bindCpu (k.prio t))
        (lists (.cpu (k.thread t).bindCpu (k.prio t)) ++ [t]) (.ready p) ≠ []} =
        {p | lists (.ready p) ≠ []} := by
      ext q
      rw [Set.mem_ofPred_eq, update_append_ne_nil, or_iff_right nofun]
      rfl
    have hcpu : ∀ c, c ≠ (k.thread t).bindCpu → update k.cpu (k.thread t).bindCpu
          ((k.cpu (k.thread t).bindCpu).setReady prioMax (k.thread t).toThread) c = k.cpu c :=
      fun c hc => update_of_ne hc _ _
    refine ⟨⟨_, inv.rep.pushBack ht, fun j u hu => inv.home_append (hj ▸ hu), hset.legal, ?_,
      fun c hc p hp => ?_⟩, fun c _ => ?_⟩
    · rw [hready]
      exact inv.ready
    · rw [update_append_ne_nil, Head.cpu.injEq, ← inv.row c hc p hp]
      change ((update k.cpu _ _ c).table (p / 8)).getLsbD (p % 8) = true ↔ _
      by_cases hc' : c = (k.thread t).bindCpu
      · subst hc'
        rw [update_self, row_setReady h32 hlegal.attrs, and_iff_right rfl]
        rfl
      · rw [hcpu c hc', or_iff_right fun h => hc' h.1]
    · by_cases hc' : c = (k.thread t).bindCpu
      · subst hc'
        exact .inr (update_self _ _ _)
      · exact .inl (hcpu c hc')

/-! ## Removing a thread -/

lemma Inv.erase_ne_nil (inv : Inv prioMax cpus k lists) : (lists j).erase t ≠ [] ↔
      lists j ≠ [] ∧ ¬ (j = k.home cpus t ∧ (lists (k.home cpus t)).erase t = []) := by
  by_cases hj : j = k.home cpus t
  · subst hj
    refine ⟨fun hne => ⟨fun hnil => hne (by rw [hnil, erase_nil]), fun h => hne h.2⟩,
      fun h hnil => h.2 ⟨rfl, hnil⟩⟩
  · rw [erase_of_not_mem fun hmem => hj (inv.home j t hmem)]
    simp [hj]

def Empties (cpus : ℕ) (k : Kernel T) (lists : Head → List T) (t : T) : Prop :=
  (lists (k.home cpus t)).erase t = []

/-- The three outcomes of `rt_schedule_remove_thread`. Bits are cleared only if the list of the thread
becomes empty. -/
lemma Inv.removeThread_cases (inv : Inv prioMax cpus k lists)
    (hok : rtScheduleRemoveThread prioMax cpus k t = .ok k') :
    (¬ Empties cpus k lists t ∧ k' = { k with links := k.links.remove (.item t) }) ∨
    (Empties cpus k lists t ∧ k.home cpus t = .ready (k.prio t) ∧ k' = { k with
        links := k.links.remove (.item t)
        ready := k.ready.clearReady prioMax (k.thread t).toThread }) ∨
    (Empties cpus k lists t ∧ k.home cpus t = .cpu (k.thread t).bindCpu (k.prio t) ∧ k' = { k with
        links := k.links.remove (.item t)
        cpu := update k.cpu (k.thread t).bindCpu
          ((k.cpu (k.thread t).bindCpu).clearCpu prioMax k.ready (k.thread t).toThread) }) := by
  have hemp : (k.links.remove (.item t)).isEmpty (.head (k.home cpus t)) ↔
      Empties cpus k lists t := (inv.rep.remove t).isEmpty_iff
  simp only [rtScheduleRemoveThread] at hok
  split at hok
  case isFalse hprio => exact absurd (inv.legal t).prio hprio
  split at hok
  case isTrue hbind =>
    have hj : k.home cpus t = .ready (k.prio t) := if_pos hbind
    obtain rfl := ok.inj hok
    rw [hj] at hemp
    split
    case isTrue hnil => exact .inr (.inl ⟨hemp.mp hnil, hj, rfl⟩)
    case isFalse hnot => exact .inl ⟨fun hnil => hnot (hemp.mpr hnil), rfl⟩
  case isFalse hbind =>
    have hj : k.home cpus t = .cpu (k.thread t).bindCpu (k.prio t) := if_neg hbind
    split at hok
    case isFalse hlt => exact absurd (lt_of_le_of_ne (inv.legal t).bind hbind) hlt
    obtain rfl := ok.inj hok
    rw [hj] at hemp
    split
    case isTrue hnil => exact .inr (.inr ⟨hemp.mp hnil, hj, rfl⟩)
    case isFalse hnot => exact .inl ⟨fun hnil => hnot (hemp.mpr hnil), rfl⟩

/-- `rt_schedule_remove_thread` keeps the lists, the global bitmap and the rows. It clears the bit of
a group of a core if it empties a list of the group and the global row is zero. -/
lemma Inv.remove (inv : Inv prioMax cpus k lists) (h32 : 32 < prioMax)
    (hok : rtScheduleRemoveThread prioMax cpus k t = .ok k') :
    Inv prioMax cpus k' (fun j => (lists j).erase t) ∧
      ∀ c n, (k'.cpu c).group.getLsbD n = true ↔ (k.cpu c).group.getLsbD n = true ∧
        (k.home cpus t = .cpu c (k.prio t) → Empties cpus k lists t → n = k.prio t / 8 →
          k.ready.table n ≠ 0) := by
  have ha := (inv.legal t).attrs
  have hhome : ∀ j u, u ∈ (lists j).erase t → j = k.home cpus u :=
    fun j u hu => inv.home j u (mem_of_mem_erase hu)
  have hlists : ∀ j, (lists j).erase t ≠ [] ↔
      lists j ≠ [] ∧ ¬ (j = k.home cpus t ∧ Empties cpus k lists t) := fun j => inv.erase_ne_nil
  rcases inv.removeThread_cases hok with ⟨hnot, rfl⟩ | ⟨hnil, hj, rfl⟩ | ⟨hnil, hj, rfl⟩
  · simp only [hnot, and_false, not_false_eq_true, and_true] at hlists
    refine ⟨⟨inv.rep.remove t, hhome, inv.legal, ?_, fun c hc p hp => ?_⟩,
      fun c n => ⟨fun h => ⟨h, fun _ hnil => absurd hnil hnot⟩, fun h => h.1⟩⟩
    · simp only [hlists]
      exact inv.ready
    · rw [hlists]
      exact inv.row c hc p hp
  · -- the cores are not concerned
    simp only [hnil, hj, and_true] at hlists
    refine ⟨⟨inv.rep.remove t, hhome, inv.legal, ?_, fun c hc p hp => ?_⟩,
      fun c n => ⟨fun h => ⟨h, fun heq => nomatch hj.symm.trans heq⟩, fun h => h.1⟩⟩
    · have hset : {p | (lists (.ready p)).erase t ≠ []} =
          {p | lists (.ready p) ≠ []} \ {k.prio t} := by
        ext q
        rw [Set.mem_ofPred_eq, hlists, Head.ready.injEq]
        rfl
      rw [hset]
      exact bitmap_clearReady inv.ready ha
    · rw [hlists, inv.row c hc p hp]
      exact (and_iff_left nofun).symm
  · -- the global bitmap is not concerned
    simp only [hnil, hj, and_true] at hlists
    refine ⟨⟨inv.rep.remove t, hhome, inv.legal, ?_, fun c hc p hp => ?_⟩, fun c n => ?_⟩
    · have hset : {p | (lists (.ready p)).erase t ≠ []} = {p | lists (.ready p) ≠ []} := by
        ext q
        rw [Set.mem_ofPred_eq, hlists]
        exact and_iff_left nofun
      rw [hset]
      exact inv.ready
    · rw [hlists, ← inv.row c hc p hp, Head.cpu.injEq]
      change ((update k.cpu _ _ c).table (p / 8)).getLsbD (p % 8) = true ↔ _
      by_cases hc' : c = (k.thread t).bindCpu
      · subst hc'
        rw [update_self, row_clearCpu h32 ha, and_iff_right rfl]
        exact and_comm
      · rw [update_of_ne hc']
        simp [hc']
    · change (update k.cpu _ _ c).group.getLsbD n = true ↔ _
      rw [hj, Head.cpu.injEq]
      by_cases hc' : c = (k.thread t).bindCpu
      · subst hc'
        rw [update_self, group_clearCpu h32 ha]
        simp only [hnil, true_implies, and_self]
        rfl
      · rw [update_of_ne hc']
        exact ⟨fun h => ⟨h, fun heq => absurd heq.1.symm hc'⟩, fun h => h.1⟩

/-! ## Groups -/

section

omit [DecidableEq T]

lemma Inv.coresExact_iff (inv : Inv prioMax cpus k lists) : CoresExact prioMax cpus k ↔
    ∀ c < cpus, ∀ n < 32, (k.cpu c).group.getLsbD n = true ↔ (k.cpu c).table n ≠ 0 := by
  refine ⟨fun h => h.group, fun h => ⟨h, fun c hc n hn m hm _ => ?_⟩⟩
  have hrow := inv.row c hc (8 * n + m) (by omega)
  rw [show (8 * n + m) / 8 = n by omega, show (8 * n + m) % 8 = m by omega] at hrow
  rw [hrow, inv.rep.isEmpty_iff]

lemma ne_nil_iff_exists_mem {l : List T} : l ≠ [] ↔ ∃ u, u ∈ l :=
  ⟨exists_mem_of_ne_nil l, fun ⟨_, hu⟩ => ne_nil_of_mem hu⟩

lemma Inv.row_ne_zero_iff (inv : Inv prioMax cpus k lists) {c n : ℕ} (hc : c < cpus)
    (hn : n < 32) : (k.cpu c).table n ≠ 0 ↔ ∃ q u, q / 8 = n ∧ u ∈ lists (.cpu c q) := by
  rw [table_ne_zero_iff (inv.row c hc) hn]
  simp only [ne_nil_iff_exists_mem, exists_and_left]

lemma Inv.ready_ne_zero_iff (inv : Inv prioMax cpus k lists) (h32 : 32 < prioMax)
    (hn : n < 32) : k.ready.table n ≠ 0 ↔ ∃ q u, q / 8 = n ∧ u ∈ lists (.ready q) := by
  rw [table_ne_zero_iff (inv.ready.row h32) hn]
  simp only [Set.mem_ofPred_eq, ne_nil_iff_exists_mem, exists_and_left]

/-- Setting the bits of a thread keeps a group exact. -/
lemma group_setReady_iff {r : ReadyMap} {x : Thread} (h32 : 32 < prioMax)
    (ha : Attrs prioMax x) (h : ∀ n < 32, r.group.getLsbD n = true ↔ r.table n ≠ 0)
    (hn : n < 32) :
    (r.setReady prioMax x).group.getLsbD n = true ↔ (r.setReady prioMax x).table n ≠ 0 := by
  have hrow : ∀ p < 256, ((r.setReady prioMax x).table (p / 8)).getLsbD (p % 8) = true ↔
      p = x.currentPriority.toNat ∨ (r.table (p / 8)).getLsbD (p % 8) = true :=
    fun p _ => row_setReady h32 ha
  have hold : ∀ p < 256, (r.table (p / 8)).getLsbD (p % 8) = true ↔
      (r.table (p / 8)).getLsbD (p % 8) = true := fun p _ => Iff.rfl
  rw [group_setReady h32 ha, h n hn, table_ne_zero_iff hrow hn, table_ne_zero_iff hold hn]
  constructor
  · rintro (rfl | ⟨q, hq, hbit⟩)
    · exact ⟨_, rfl, .inl rfl⟩
    · exact ⟨q, hq, .inr hbit⟩
  · rintro ⟨q, rfl, rfl | hbit⟩
    · exact .inl rfl
    · exact .inr ⟨q, rfl, hbit⟩

end

lemma Inv.remove_iff (inv : Inv prioMax cpus k lists) (h32 : 32 < prioMax)
    (hexact : CoresExact prioMax cpus k)
    (hok : rtScheduleRemoveThread prioMax cpus k t = .ok k') :
    CoresExact prioMax cpus k' ↔ KeepsGroup cpus k (.remove t) := by
  obtain ⟨inv', hgroup⟩ := inv.remove h32 hok
  have hlegal := inv.legal t
  have hp : k.prio t < 256 := (k.thread t).currentPriority.toNat_lt
  have hmem : ∀ {j u}, u ∈ (lists j).erase t ↔ u ≠ t ∧ u ∈ lists j :=
    fun {j u} => (inv.rep.nodup j).mem_erase_iff
  rw [inv'.coresExact_iff]
  simp only [KeepsGroup, inList_iff inv.rep]
  by_cases hbind : (k.thread t).bindCpu = cpus
  · -- the removal of an unbound thread does not concern the cores
    refine ⟨fun _ hne => absurd hbind hne, fun _ c hc n hn => ?_⟩
    have hj : k.home cpus t = .ready (k.prio t) := if_pos hbind
    rw [hgroup, hexact.group c hc n hn, inv.row_ne_zero_iff hc hn, inv'.row_ne_zero_iff hc hn]
    simp only [hmem]
    constructor
    · rintro ⟨⟨q, u, hq, hu⟩, -⟩
      refine ⟨q, u, hq, ?_, hu⟩
      rintro rfl
      cases hj.symm.trans (inv.home _ u hu).symm
    · rintro ⟨q, u, hq, -, hu⟩
      exact ⟨⟨q, u, hq, hu⟩, fun heq => nomatch hj.symm.trans heq⟩
  have hlt : (k.thread t).bindCpu < cpus := lt_of_le_of_ne hlegal.bind hbind
  have hj : k.home cpus t = .cpu (k.thread t).bindCpu (k.prio t) := if_neg hbind
  have hempties : Empties cpus k lists t ↔
      ¬ ∃ u, u ≠ t ∧ u ∈ lists (.cpu (k.thread t).bindCpu (k.prio t)) := by
    rw [Empties, hj, ← not_iff_not, not_not, ← ne_eq, ne_nil_iff_exists_mem]
    simp only [hmem]
  have hmine : ∀ {c q}, t ∈ lists (.cpu c q) → c = (k.thread t).bindCpu ∧ q = k.prio t :=
    fun hu => Head.cpu.inj ((inv.home _ t hu).trans hj)
  have hG := inv.ready_ne_zero_iff h32 (n := k.prio t / 8) (by omega)
  have hO := inv'.row_ne_zero_iff hlt (n := k.prio t / 8) (by omega)
  have hA := inv.row_ne_zero_iff hlt (n := k.prio t / 8) (by omega)
  simp only [hmem] at hO
  rw [imp_iff_right hbind, ← hempties, ← hG, ← hO]
  constructor
  · intro hall hnil
    have hself := hall _ hlt (k.prio t / 8) (by omega)
    rw [hgroup, hexact.group _ hlt _ (by omega)] at hself
    simp only [hj, true_implies, hnil] at hself
    refine ⟨fun hother => (hself.mpr hother).2, fun hunbound hin => hself.mp ⟨?_, hunbound⟩⟩
    exact hA.mpr ⟨_, t, rfl, hin⟩
  · intro hkeeps c hc n hn
    rw [hgroup, hexact.group c hc n hn]
    by_cases hself : c = (k.thread t).bindCpu ∧ n = k.prio t / 8 ∧ Empties cpus k lists t
    · obtain ⟨rfl, rfl, hnil⟩ := hself
      obtain ⟨hother, hunbound⟩ := hkeeps hnil
      simp only [hj, true_implies, hnil]
      refine ⟨fun h => ?_, fun h => ⟨hA.mpr ?_, hother h⟩⟩
      · -- a thread of the row that is not `t`, or `t` itself
        obtain ⟨q, u, hq, hu⟩ := hA.mp h.1
        by_cases hut : u = t
        · subst hut
          exact hunbound h.2 ((hmine hu).2 ▸ hu)
        · exact hO.mpr ⟨q, u, hq, hut, hu⟩
      · obtain ⟨q, u, hq, -, hu⟩ := hO.mp h
        exact ⟨q, u, hq, hu⟩
    · -- the row is not concerned, or its list does not become empty
      rw [inv.row_ne_zero_iff hc hn, inv'.row_ne_zero_iff hc hn]
      simp only [hmem]
      constructor
      · rintro ⟨⟨q, u, hq, hu⟩, -⟩
        by_cases hut : u = t
        · subst hut
          obtain ⟨rfl, rfl⟩ := hmine hu
          have hnot : ¬ Empties cpus k lists u := fun hnil => hself ⟨rfl, hq.symm, hnil⟩
          rw [hempties, not_not] at hnot
          obtain ⟨u', hne, hu'⟩ := hnot
          exact ⟨_, u', hq, hne, hu'⟩
        · exact ⟨q, u, hq, hut, hu⟩
      · rintro ⟨q, u, hq, -, hu⟩
        refine ⟨⟨q, u, hq, hu⟩, fun heq hnil hn' => absurd ⟨?_, hn', hnil⟩ hself⟩
        exact (Head.cpu.inj (hj.symm.trans heq)).1.symm

lemma Inv.step (inv : Inv prioMax cpus k lists) (h32 : 32 < prioMax) {op : Op T}
    (hallow : Allowed prioMax cpus k op) (hok : step prioMax cpus k op = .ok k') :
    (∃ lists', Inv prioMax cpus k' lists') ∧
      (CoresExact prioMax cpus k → (CoresExact prioMax cpus k' ↔ KeepsGroup cpus k op)) := by
  cases op with
  | insert cpuId t =>
    have ht : ∀ j, t ∉ lists j := fun j hmem => hallow j ((inList_iff inv.rep).mpr hmem)
    obtain ⟨⟨lists', inv'⟩, hcpu⟩ := inv.insert h32 ht hok
    refine ⟨⟨lists', inv'⟩, fun hexact => iff_of_true (inv'.coresExact_iff.mpr ?_) trivial⟩
    intro c hc n hn
    rcases hcpu c hc with heq | heq
    · rw [heq]
      exact hexact.group c hc n hn
    · rw [heq]
      exact group_setReady_iff h32 (inv.legal t).attrs (hexact.group c hc) hn
  | remove t => exact ⟨⟨_, (inv.remove h32 hok).1⟩, fun hexact => inv.remove_iff h32 hexact hok⟩
  | change t x =>
    obtain rfl := ok.inj hok
    obtain ⟨hlegal, hsame⟩ := hallow
    have inv' := inv.setThread hlegal fun ⟨j, hmem⟩ => hsame ⟨j, (inList_iff inv.rep).mpr hmem⟩
    refine ⟨⟨lists, inv'⟩, fun hexact => iff_of_true (inv'.coresExact_iff.mpr ?_) trivial⟩
    exact hexact.group

/-- The states reached by steps that all meet the condition. -/
abbrev Reach (prioMax cpus : ℕ) : Kernel T → Prop :=
  Transition.Reach (Initial prioMax cpus) (fun k op => (step prioMax cpus k op).toOption)
    fun k op => Allowed prioMax cpus k op ∧ KeepsGroup cpus k op

/-- The lists and the bitmaps of a state that is reached by steps which all meet the condition. -/
lemma Reach.inv (h32 : 32 < prioMax) (hk : Reach prioMax cpus k) :
    (∃ lists, Inv prioMax cpus k lists) ∧ CoresExact prioMax cpus k := by
  refine hk.invariant (I := fun k => (∃ lists, Inv prioMax cpus k lists) ∧
    CoresExact prioMax cpus k) ?_ ?_
  · rintro k ⟨thread, rfl, hlegal⟩
    have inv := Inv.init hlegal
    refine ⟨⟨_, inv⟩, inv.coresExact_iff.mpr fun c _ n _ => ?_⟩
    simp [rtSystemSchedulerInit]
  · rintro k op k' ⟨⟨lists, inv⟩, hexact⟩ ⟨hallow, hkeeps⟩ hok
    obtain ⟨hinv', hiff⟩ := inv.step h32 hallow (toOption_eq_some.mp hok)
    exact ⟨hinv', (hiff hexact).mpr hkeeps⟩

/-- The groups and the rows of all cores are exact in every state that is reached by steps which all
meet the condition, and a further step keeps them exact only if it meets it as well. -/
theorem coresExact_of_reach (h32 : 32 < prioMax) (hk : Reach prioMax cpus k) :
    CoresExact prioMax cpus k ∧ ∀ op k', Allowed prioMax cpus k op →
      step prioMax cpus k op = .ok k' → (CoresExact prioMax cpus k' ↔ KeepsGroup cpus k op) := by
  obtain ⟨⟨lists, inv⟩, hexact⟩ := hk.inv h32
  exact ⟨hexact, fun op k' hallow hok => (inv.step h32 hallow hok).2 hexact⟩

def boundThread (t : Bool) : SmpThread where
  toThread := (freshThread 0).setPriority 64 (if t then 9 else 8)
  bindCpu := 0
  oncpu := 2

lemma legal_boundThread (t : Bool) : Legal 64 2 (boundThread t) := by
  refine ⟨by simp [boundThread], ?_, attrs_setPriority _ _⟩
  rw [boundThread, setPriority_currentPriority]
  cases t <;> decide

omit [DecidableEq T] in
/-- A thread whose node points to itself is in no list. -/
lemma not_inList_of_self (hself : k.links.next (.item t) = .item t) : ¬ InList k j t := by
  rintro ⟨xs, hring, hmem⟩
  obtain ⟨us, vs, rfl⟩ := append_of_mem hmem
  have hnil := hring.rotate.isEmpty_iff.mp hself
  simp at hnil

/-- One of the threads is inserted and removed. No other thread of its group is ready. -/
theorem coresExact_remove : ∃ k : Kernel Bool, Reach 64 2 k ∧ (k.cpu 0).group = 0 ∧
    CoresExact 64 2 k := by
  obtain ⟨k, hok, hbind, hself, hremove⟩ := exists_of_okWith (P := fun k : Kernel Bool =>
      (∀ u, (k.thread u).bindCpu = 0) ∧ k.links.next (.item true) = .item true ∧
      okWith (fun k => (k.cpu 0).group = 0) (step 64 2 k (.remove false)) = true)
    (show okWith _ (step 64 2 (rtSystemSchedulerInit boundThread) (.insert 1 false)) = true by
      decide +kernel)
  have hallow : Allowed 64 2 (rtSystemSchedulerInit boundThread) (.insert 1 false) :=
    fun j => not_inList_of_self rfl
  have hk : Reach 64 2 k := .step (.init ⟨boundThread, rfl, legal_boundThread⟩)
    ⟨hallow, trivial⟩ (toOption_eq_some.mpr hok)
  obtain ⟨⟨lists, inv⟩, -⟩ := hk.inv (by decide)
  have hkeeps : KeepsGroup 2 k (.remove false) := by
    refine fun _ _ => ⟨?_, ?_⟩
    · rintro ⟨q, u, -, hne, hin⟩
      obtain rfl : u = true := Bool.eq_true_of_not_eq_false hne
      exact absurd hin (not_inList_of_self hself)
    · -- a bound thread is in no list of the global table
      rintro ⟨q, u, -, hin⟩
      have hhome := inv.home _ u ((inList_iff inv.rep).mp hin)
      rw [Kernel.home, hbind] at hhome
      cases hhome
  obtain ⟨k', hok', hgroup⟩ := exists_of_okWith hremove
  have hallow' : Allowed 64 2 k (.remove false) := trivial
  have hk' : Reach 64 2 k' := .step hk ⟨hallow', hkeeps⟩ (toOption_eq_some.mpr hok')
  exact ⟨k', hk', hgroup, (coresExact_of_reach (by decide) hk').1⟩

/-- The steps of a run that are allowed in any case. -/
def isAllowed (k : Kernel Bool) : Op Bool → Bool
  | .insert _ t => decide (k.links.next (.item t) = .item t)
  | .remove _ => true
  | .change _ _ => false

/-- Both threads are inserted and the second one is removed. The bit of the group is cleared, but the
first thread is still ready. -/
theorem not_coresExact_remove : ∃ k : Kernel Bool,
    Transition.Reach (Initial 64 2) (fun k op => (step 64 2 k op).toOption) (Allowed 64 2) k ∧
    (k.cpu 0).group.getLsbD 1 = false ∧ (k.cpu 0).table 1 = 1 ∧ ¬ CoresExact 64 2 k := by
  have hallowed : ∀ k op, isAllowed k op = true → Allowed 64 2 k op := by
    intro k op hop
    cases op with
    | insert cpuId t => exact fun j => not_inList_of_self (of_decide_eq_true hop)
    | remove t => trivial
    | change t x => cases hop
  obtain ⟨k, hreach, hgroup, hrow⟩ : ∃ k : Kernel Bool, Transition.Reach (Initial 64 2)
      (fun k op => (step 64 2 k op).toOption) (Allowed 64 2) k ∧
      (k.cpu 0).group.getLsbD 1 = false ∧ (k.cpu 0).table 1 = 1 :=
    Transition.exists_of_run hallowed ⟨boundThread, rfl, legal_boundThread⟩
      [.insert 1 false, .insert 1 true, .remove true] (by decide +kernel)
  refine ⟨k, hreach, hgroup, hrow, fun hexact => ?_⟩
  · have hbit := (hexact.group 0 (by decide) 1 (by decide)).mpr (by rw [hrow]; decide)
    rw [hgroup] at hbit
    cases hbit

end Sched.Smp
