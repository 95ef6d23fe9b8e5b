import TempSns.Ipc.Ownership

/-!
# Priority inheritance

Two properties of the priorities of mutex owners, and when the code keeps them.

* `Restored`: a thread without mutexes has its own priority. A mutex saves the priority of its owner
  when it is taken, which may be a raised one. This does no harm if every thread with mutexes always
  holds one that it took with its own priority (`KeepsUnraised`).
* `Inherits`: the owner of a mutex is not behind a thread that waits for it. A release restores the
  saved priority without a look at the other mutexes of the thread, a mutex in FIFO order is handed
  over to a thread that may be behind the others, and a raise of a thread that waits itself is not
  passed on. `KeepsInheritance` says for each step when this does no harm.
-/

namespace Ipc.Mutex

open Waits Option Transition

variable {T M O : Type} [DecidableEq T] [DecidableEq M] [DecidableEq O] {m m' : Machine T M O}
  {s : System T M O} {w : Waits T (M ⊕ O)} {t v : T} {μ μ' : M} {base : T → UInt8} {x : Mutex T}
  {a : Act Bool Bool Unit}

def HoldsNone (s : System T M O) (t : T) : Prop := ∀ μ, (s.mutex μ).owner ≠ some t

lemma hold_sub_eq_zero {n : UInt8} : n - 1 = 0 ↔ n = 1 :=
  UInt8.sub_eq_iff_eq_add.trans (by simp)

/-! ## Own priority -/

/-- A thread without mutexes has the priority `base`. -/
def Restored (base : T → UInt8) (m : Machine T M O) : Prop :=
  ∀ t, HoldsNone m.sys t → m.sys.waits.priority t = base t

/-- The application does not change priorities, and a thread that gives up a mutex and keeps others
keeps one that it took with its own priority. -/
def KeepsUnraised (base : T → UInt8) (m : Machine T M O) : Act T M O → Prop
  | .release t μ => (m.sys.mutex μ).owner = some t → (m.sys.mutex μ).hold = 1 →
      (∀ μ' ≠ μ, (m.sys.mutex μ').owner ≠ some t) ∨
        ∃ μ' ≠ μ, (m.sys.mutex μ').owner = some t ∧ (m.sys.mutex μ').originalPriority = base t
  | .setPriority _ _ => False
  | _ => True

/-- Among the mutexes of a thread there is one that it took with its own priority. -/
structure Anchored (base : T → UInt8) (s : System T M O) : Prop where
  restored : ∀ t, HoldsNone s t → s.waits.priority t = base t
  anchor : ∀ t, ¬ HoldsNone s t →
    ∃ μ, (s.mutex μ).owner = some t ∧ (s.mutex μ).originalPriority = base t

namespace Anchored

section

variable (h : Anchored base s)

include h

omit [DecidableEq T] [DecidableEq M] [DecidableEq O] in
/-- A step that leaves the owners and raises owners only. -/
lemma setWaits (hprio : ∀ t, HoldsNone s t → w.priority t = s.waits.priority t) :
    Anchored base { s with waits := w } :=
  ⟨fun t ht => (hprio t ht).trans (h.restored t ht), h.anchor⟩

omit [DecidableEq T] [DecidableEq O] in
lemma setHold (n : UInt8) : Anchored base (s.setMutex μ { s.mutex μ with hold := n }) := by
  have hsame : ∀ μ', ((s.setMutex μ { s.mutex μ with hold := n }).mutex μ').owner =
      (s.mutex μ').owner ∧ ((s.setMutex μ { s.mutex μ with hold := n }).mutex μ').originalPriority =
      (s.mutex μ').originalPriority := fun μ' => by
    by_cases hμ : μ' = μ <;> simp [System.setMutex, hμ]
  have hnone : ∀ t, HoldsNone (s.setMutex μ { s.mutex μ with hold := n }) t ↔ HoldsNone s t :=
    fun t => forall_congr' fun μ' => by rw [(hsame μ').1]
  refine ⟨fun t ht => h.restored t ((hnone t).mp ht), fun t ht => ?_⟩
  obtain ⟨μ', howner, horig⟩ := h.anchor t (mt (hnone t).mpr ht)
  exact ⟨μ', (hsame μ').1.trans howner, (hsame μ').2.trans horig⟩

omit [DecidableEq O] in
lemma giveFree (hnone : (s.mutex μ).owner = none)
    (hx : x.owner = some v ∧ x.originalPriority = s.waits.priority v) :
    Anchored base (s.setMutex μ x) := by
  have hother : ∀ μ' ≠ μ, (s.setMutex μ x).mutex μ' = s.mutex μ' := fun μ' hμ => by
    simp [System.setMutex, hμ]
  have hself : (s.setMutex μ x).mutex μ = x := by simp [System.setMutex]
  -- nobody loses a mutex
  have hkeep : ∀ t μ', (s.mutex μ').owner = some t → μ' ≠ μ := by
    rintro t μ' howner rfl
    cases hnone.symm.trans howner
  refine ⟨fun t ht => h.restored t fun μ' howner => ?_, fun t ht => ?_⟩
  · refine ht μ' ?_
    rwa [hother μ' (hkeep t μ' howner)]
  · by_cases hold : HoldsNone s t
    · -- the first mutex of the thread
      have htv : t = v := by
        by_contra hne
        refine ht fun μ' howner => ?_
        by_cases hμ : μ' = μ
        · rw [hμ, hself, hx.1] at howner
          exact hne (some.inj howner).symm
        · rw [hother μ' hμ] at howner
          exact hold μ' howner
      subst htv
      refine ⟨μ, by rw [hself, hx.1], ?_⟩
      rw [hself, hx.2]
      exact h.restored t hold
    · obtain ⟨μ', howner, horig⟩ := h.anchor t hold
      have heq := hother μ' (hkeep t μ' howner)
      exact ⟨μ', by rw [heq, howner], by rw [heq, horig]⟩

omit [DecidableEq O] in
lemma giveUp (hx : x.owner = none) (howner : (s.mutex μ).owner = some t)
    (hkeeps : (∀ μ' ≠ μ, (s.mutex μ').owner ≠ some t) ∨
      ∃ μ' ≠ μ, (s.mutex μ').owner = some t ∧ (s.mutex μ').originalPriority = base t) :
    Anchored base (System.setMutex
      { s with waits := s.waits.setPriority t (s.mutex μ).originalPriority } μ x) := by
  have hother : ∀ μ' ≠ μ, ((System.setMutex { s with
      waits := s.waits.setPriority t (s.mutex μ).originalPriority } μ x).mutex μ') = s.mutex μ' :=
    fun μ' hμ => by simp [System.setMutex, hμ]
  have hself : ((System.setMutex { s with
      waits := s.waits.setPriority t (s.mutex μ).originalPriority } μ x).mutex μ).owner = none := by
    simp [System.setMutex, hx]
  refine ⟨fun t' ht' => ?_, fun t' ht' => ?_⟩
  · by_cases htt : t' = t
    · -- the last mutex of the thread is the one that it took with its own priority
      subst htt
      obtain ⟨μ', howner', horig⟩ := h.anchor t' fun hnone => hnone μ howner
      have hμ : μ' = μ := by
        by_contra hne
        exact ht' μ' (by rw [hother μ' hne, howner'])
      subst hμ
      exact priority_setPriority_self.trans horig
    · refine (priority_setPriority_of_ne htt).trans (h.restored t' fun μ' howner' => ?_)
      have hμ : μ' ≠ μ := by
        rintro rfl
        exact htt (some.inj (howner'.symm.trans howner))
      exact ht' μ' (by rw [hother μ' hμ, howner'])
  · by_cases htt : t' = t
    · subst htt
      rcases hkeeps with hnone | ⟨μ', hμ, howner', horig⟩
      · refine absurd (fun μ' howner' => ?_) ht'
        by_cases hμ : μ' = μ
        · rw [hμ, hself] at howner'
          cases howner'
        · rw [hother μ' hμ] at howner'
          exact hnone μ' hμ howner'
      · exact ⟨μ', by rw [hother μ' hμ, howner'], by rw [hother μ' hμ, horig]⟩
    · have hold : ¬ HoldsNone s t' := fun hnone => ht' fun μ' howner' => by
        by_cases hμ : μ' = μ
        · rw [hμ, hself] at howner'
          cases howner'
        · rw [hother μ' hμ] at howner'
          exact hnone μ' howner'
      obtain ⟨μ', howner', horig⟩ := h.anchor t' hold
      have hμ : μ' ≠ μ := by
        rintro rfl
        exact htt (some.inj (howner'.symm.trans howner))
      exact ⟨μ', by rw [hother μ' hμ, howner'], by rw [hother μ' hμ, horig]⟩

end

lemma change (h : Anchored base m.sys) (inv : Inv m.sys) {a : Act T M O}
    (ha : KeepsUnraised base m a) (hc : Change m a m') : Anchored base m'.sys := by
  have herror : ∀ (t : T) (e : RtErr),
      Anchored base { m.sys with waits := m.sys.waits.setError t e } :=
    fun t e => h.setWaits fun t' _ => by rw [priority_setError]
  cases hc with
  | @takeNested t μ _ hrun howner => exact (herror t .eok).setHold _
  | @takeFree t μ _ hrun hnot hvalue =>
    exact (herror t .eok).giveFree (inv.owner_of_value hvalue) ⟨rfl, by rw [priority_setError]⟩
  | takeFail hrun => exact herror _ _
  | @takeWait t v μ time hrun howner hne htime =>
    -- only the owner of the mutex is raised
    refine h.setWaits fun t' ht' => ?_
    have htv : t' ≠ v := by
      rintro rfl
      exact ht' μ howner
    rw [priority_suspendThread, inherit]
    split
    · rw [priority_setPriority_of_ne htv, priority_setError]
    · rw [priority_setError]
  | releaseFail hrun => exact herror _ _
  | releaseNested hrun howner hhold => exact h.setHold _
  | @releaseFree t μ hrun howner hhold hnil =>
    exact h.giveUp rfl howner (ha howner (hold_sub_eq_zero.mp hhold))
  | @releaseHand t v μ vs hrun howner hhold hcons hne =>
    -- the mutex is given up and then given to the first waiting thread
    have hup := h.giveUp (x := rtMutexInit) rfl howner (ha howner (hold_sub_eq_zero.mp hhold))
    have hprio : (m.sys.waits.setPriority t (m.sys.mutex μ).originalPriority).priority v =
      m.sys.waits.priority v := priority_setPriority_of_ne hne
    have hnone : ((System.setMutex { m.sys with
        waits := m.sys.waits.setPriority t (m.sys.mutex μ).originalPriority } μ
        rtMutexInit).mutex μ).owner = none := by simp [System.setMutex, rtMutexInit]
    have hgive := (hup.giveFree (x := { m.sys.mutex μ with
      owner := some v, originalPriority := m.sys.waits.priority v, hold := 1 }) hnone
      ⟨rfl, hprio.symm⟩).setWaits (w := (m.sys.waits.setPriority t
        (m.sys.mutex μ).originalPriority).takeOut (.inl μ) v) fun t' _ => by
          rw [priority_takeOut]
          rfl
    simpa [System.setMutex] using hgive
  | timeout hwait => exact h.setWaits fun t' _ => by simp
  | finishTake hres => exact h.setWaits fun t' _ => by simp
  | finishOther hres => exact h.setWaits fun t' _ => by simp
  | block hrun => exact h.setWaits fun t' _ => by simp
  | wake hwait => exact h.setWaits fun t' _ => by simp
  | setPriority => exact absurd ha id

end Anchored

/-- In every run without priority changes by the application, in which every thread with mutexes
holds one that it took with its own priority, a thread without mutexes has the priority that it had
at first. -/
theorem restored_of_keepsUnraised
    (hm : Reach (fun m => Initial m ∧ m.sys.waits.priority = base) step
      (KeepsUnraised base) m) : Restored base m := by
  have hinv : Inv m.sys ∧ Anchored base m.sys := by
    apply hm.invariant (I := fun m => Inv m.sys ∧ Anchored base m.sys)
    · rintro m ⟨hinit, hbase⟩
      refine ⟨.init hinit, fun t _ => by rw [hbase], fun t ht => absurd (fun μ => ?_) ht⟩
      simp [hinit.mutex, rtMutexInit]
    · rintro m a m' ⟨inv, h⟩ ha hok
      have hc := change_of_step inv.wf hok
      exact ⟨inv.change hc, h.change inv ha hc⟩
  exact hinv.2.restored

/-- A thread with the priority 20 and one with the priority 5. -/
def lowHigh (t : Bool) : UInt8 := if t then 5 else 20

/-- A test for `KeepsUnraised`: no mutex has saved a raised priority. -/
def savedUnraised (m : Machine Bool Bool Unit) : Act Bool Bool Unit → Bool
  | .release t μ => decide ((m.sys.mutex (!μ)).owner ≠ some t ∨
      (m.sys.mutex (!μ)).originalPriority = lowHigh t)
  | .setPriority _ _ => false
  | _ => true

lemma keepsUnraised_of_test {m : Machine Bool Bool Unit}
    (h : savedUnraised m a = true) : KeepsUnraised lowHigh m a := by
  cases a with
  | release t μ =>
    intro _ _
    have hne : ∀ μ', μ' ≠ μ → μ' = !μ := by
      intro μ' hμ
      cases μ <;> cases μ' <;> simp_all
    by_cases howner : (m.sys.mutex (!μ)).owner = some t
    · refine Or.inr ⟨!μ, by cases μ <;> simp, howner, ?_⟩
      exact (of_decide_eq_true h).resolve_left (not_not.mpr howner)
    · refine Or.inl fun μ' hμ => ?_
      rw [hne μ' hμ]
      exact howner
  | setPriority t p => cases h
  | _ => exact trivial

/-- The first thread takes two mutexes, is raised by the second thread, and releases the mutexes in
the reverse order. -/
theorem restored_after_nested_release : ∃ m : Machine Bool Bool Unit,
    HoldsNone m.sys false ∧ Restored lowHigh m := by
  obtain ⟨m, hreach, hnone⟩ : ∃ m : Machine Bool Bool Unit, Reach
      (fun m => Initial m ∧ m.sys.waits.priority = lowHigh) step (KeepsUnraised lowHigh) m ∧
      ∀ μ, (m.sys.mutex μ).owner ≠ some false :=
    exists_of_run (fun _ _ => keepsUnraised_of_test) ⟨initial_start lowHigh fun _ => .prio, rfl⟩
      [.take false false 0, .take false true 0, .take true false 100, .release false true,
        .release false false, .finish true] (by decide +kernel)
  exact ⟨m, hnone, restored_of_keepsUnraised hreach⟩

def NoPriorityChange (_ : Machine T M O) : Act T M O → Prop
  | .setPriority _ _ => False
  | _ => True

instance (m : Machine T M O) (a : Act T M O) : Decidable (NoPriorityChange m a) := by
  cases a <;> unfold NoPriorityChange <;> infer_instance

/-- The first thread takes one mutex, is raised by the second thread, takes the other mutex and
releases the first one and then the other one: it keeps the raised priority. -/
theorem raised_without_mutex : ∃ m : Machine Bool Bool Unit,
    Reach (fun m => Initial m ∧ m.sys.waits.priority = lowHigh) step NoPriorityChange m ∧
      ¬ Restored lowHigh m := by
  obtain ⟨m, hreach, hnone, hprio⟩ : ∃ m : Machine Bool Bool Unit, Reach
      (fun m => Initial m ∧ m.sys.waits.priority = lowHigh) step NoPriorityChange m ∧
      (∀ μ, (m.sys.mutex μ).owner ≠ some false) ∧ m.sys.waits.priority false = 5 :=
    exists_of_run (fun _ _ => of_decide_eq_true) ⟨initial_start lowHigh fun _ => .prio, rfl⟩
      [.take false false 0, .take true false 100, .take false true 0, .release false false,
        .finish true, .release true false, .release false true] (by decide +kernel)
  refine ⟨m, hreach, fun hrestored => ?_⟩
  have hbase := hrestored false hnone
  rw [hprio] at hbase
  exact absurd hbase (by decide)

/-! ## Owners and waiting threads -/

/-- The owner of a mutex is not behind the threads that wait for it. -/
def Inherits (m : Machine T M O) : Prop :=
  ∀ μ v, (m.sys.mutex μ).owner = some v → ∀ t ∈ m.sys.waits.suspend (.inl μ),
    m.sys.waits.priority v ≤ m.sys.waits.priority t

/-- The step passes no priority by.

* A thread that starts to wait raises the owner of the mutex. If that owner waits for a mutex itself,
  the owner of that one is not behind the new priority.
* A release gives back a priority that is not behind those of the threads that wait for other
  mutexes of the thread, and hands the mutex to a thread that is not behind the other ones.
* The application does not move a thread behind those that wait for its mutexes, or before the owner
  of the mutex for which it waits. -/
def KeepsInheritance (m : Machine T M O) : Act T M O → Prop
  | .take t μ time => ∀ v μ' u, (m.sys.mutex μ).owner = some v → time ≠ 0 →
      m.sys.waits.priority t < m.sys.waits.priority v → v ∈ m.sys.waits.suspend (.inl μ') →
      (m.sys.mutex μ').owner = some u → m.sys.waits.priority u ≤ m.sys.waits.priority t
  | .release t μ => (m.sys.mutex μ).owner = some t → (m.sys.mutex μ).hold = 1 →
      (∀ μ' ≠ μ, (m.sys.mutex μ').owner = some t → ∀ x ∈ m.sys.waits.suspend (.inl μ'),
        (m.sys.mutex μ).originalPriority ≤ m.sys.waits.priority x) ∧
      ∀ v vs, m.sys.waits.suspend (.inl μ) = v :: vs →
        ∀ x ∈ vs, m.sys.waits.priority v ≤ m.sys.waits.priority x
  | .setPriority t p =>
      (∀ μ, (m.sys.mutex μ).owner = some t → ∀ x ∈ m.sys.waits.suspend (.inl μ),
        p ≤ m.sys.waits.priority x) ∧
      ∀ μ v, t ∈ m.sys.waits.suspend (.inl μ) → (m.sys.mutex μ).owner = some v →
        m.sys.waits.priority v ≤ p
  | _ => True

omit [DecidableEq M] [DecidableEq O] in
/-- Inheritance raises the owner to the priority of the thread, if that is better. -/
lemma priority_inherit (w : Waits T (M ⊕ O)) (t v : T) :
    (∀ x ≠ v, (inherit w t v).priority x = w.priority x) ∧
      ((inherit w t v).priority v = w.priority v ∧ w.priority v ≤ w.priority t ∨
        (inherit w t v).priority v = w.priority t ∧ w.priority t < w.priority v) := by
  unfold inherit
  split
  case isTrue hlt =>
    exact ⟨fun x hx => priority_setPriority_of_ne hx, Or.inr ⟨priority_setPriority_self, hlt⟩⟩
  case isFalse hlt => exact ⟨fun _ _ => rfl, Or.inl ⟨rfl, UInt8.not_lt.mp hlt⟩⟩

namespace Inherits

variable (h : Inherits m)

include h

omit [DecidableEq T] [DecidableEq M] [DecidableEq O] in
/-- A step after which the owners and the priorities are the same, and nobody new waits for a
mutex. -/
lemma of_sub (howner : ∀ μ, (m'.sys.mutex μ).owner = (m.sys.mutex μ).owner)
    (hprio : m'.sys.waits.priority = m.sys.waits.priority)
    (hsub : ∀ μ, ∀ t ∈ m'.sys.waits.suspend (.inl μ), t ∈ m.sys.waits.suspend (.inl μ)) :
    Inherits m' := by
  intro μ v hv t ht
  rw [hprio]
  exact h μ v (howner μ ▸ hv) t (hsub μ t ht)

lemma takeWait {time : ℤ} (hown : (m.sys.mutex μ).owner = some v) (hne : v ≠ t) (htime : time ≠ 0)
    (ha : KeepsInheritance m (.take t μ time)) :
    Inherits ({ m with sys := { m.sys with
      waits := (inherit (m.sys.waits.setError t .eok) t v).suspendThread (.inl μ) t time } }.arrive
        t) := by
  have hlist := (sameBut_inherit (m.sys.waits.setError t .eok) t v).suspend
  obtain ⟨hsame, hraise⟩ := priority_inherit (m.sys.waits.setError t .eok) t v
  simp only [priority_setError] at hsame hraise
  intro μ' u hu x hx
  have hx' : (x = t ∧ (Sum.inl μ' : M ⊕ O) = .inl μ) ∨ x ∈ m.sys.waits.suspend (.inl μ') := by
    have := mem_suspend_suspendThread.mp hx
    rwa [hlist] at this
  simp only [Machine.arrive, priority_suspendThread]
  rcases hx' with ⟨rfl, hμ⟩ | hx'
  · -- the thread that starts to wait
    obtain rfl := Sum.inl.inj hμ
    obtain rfl : v = u := some.inj (hown.symm.trans hu)
    rw [hsame x hne.symm]
    rcases hraise with ⟨heq, hle⟩ | ⟨heq, -⟩
    · rwa [heq]
    · rw [heq]
      exact UInt8.le_refl _
  · have hle := h μ' u hu x hx'
    have hu' : (inherit (m.sys.waits.setError t .eok) t v).priority u ≤ m.sys.waits.priority u := by
      by_cases huv : u = v
      · subst huv
        rcases hraise with ⟨heq, -⟩ | ⟨heq, hlt⟩
        · rw [heq]
          exact UInt8.le_refl _
        · rw [heq]
          exact UInt8.le_of_lt hlt
      · rw [hsame u huv]
        exact UInt8.le_refl _
    by_cases hxv : x = v
    · subst hxv
      rcases hraise with ⟨heq, -⟩ | ⟨heq, hlt⟩
      · rw [heq]
        exact UInt8.le_trans hu' hle
      · -- the raised thread waits itself
        rw [heq]
        exact UInt8.le_trans hu' (ha x μ' u hown htime hlt hx' hu)
    · rw [hsame x hxv]
      exact UInt8.le_trans hu' hle

omit [DecidableEq O] in
/-- The thread `t` gets the saved priority and loses the mutex `μ`; the mutex gets the owner of `x`,
who is not behind the threads that still wait for it. -/
lemma giveUp (inv : Inv m.sys) {waits : Waits T (M ⊕ O)}
    (hrun : (m.sys.waits.thread t).phase = .running)
    (hprio : waits.priority = (m.sys.waits.setPriority t (m.sys.mutex μ).originalPriority).priority)
    (hsub : ∀ o, ∀ y ∈ waits.suspend o, y ∈ m.sys.waits.suspend o)
    (hother : ∀ μ' ≠ μ, (m.sys.mutex μ').owner = some t → ∀ y ∈ m.sys.waits.suspend (.inl μ'),
        (m.sys.mutex μ).originalPriority ≤ m.sys.waits.priority y)
    (hself : ∀ v, x.owner = some v → v ≠ t ∧ ∀ y ∈ waits.suspend (.inl μ),
      m.sys.waits.priority v ≤ m.sys.waits.priority y) {g r : T → M → ℕ} :
    Inherits { m with
      sys := System.setMutex { m.sys with waits := waits } μ x
      released := r
      granted := g } := by
  -- a thread that waits is not the running one
  have hne : ∀ o, ∀ y ∈ waits.suspend o, y ≠ t := by
    rintro o y hy rfl
    exact inv.wf.not_mem (fun o timed => by simp [hrun]) o (hsub o y hy)
  intro μ' v hv y hy
  simp only [System.setMutex] at hv hy ⊢
  rw [hprio, priority_setPriority_of_ne (hne _ y hy)]
  by_cases hμ : μ' = μ
  · subst hμ
    rw [Function.update_self] at hv
    obtain ⟨hvt, hle⟩ := hself v hv
    rw [priority_setPriority_of_ne hvt]
    exact hle y hy
  · rw [Function.update_of_ne hμ] at hv
    by_cases hvt : v = t
    · subst hvt
      rw [priority_setPriority_self]
      exact hother μ' hμ hv y (hsub _ y hy)
    · rw [priority_setPriority_of_ne hvt]
      exact h μ' v hv y (hsub _ y hy)

omit [DecidableEq M] [DecidableEq O] in
lemma setPriority (inv : Inv m.sys) {p : UInt8} (ha : KeepsInheritance m (.setPriority t p)) :
    Inherits { m with sys := { m.sys with waits := m.sys.waits.setPriority t p } } := by
  intro μ v hv y hy
  by_cases hvt : v = t
  · subst hvt
    have hne : y ≠ v := by
      rintro rfl
      exact (inv.held μ y hv).2 hy
    rw [priority_setPriority_self, priority_setPriority_of_ne hne]
    exact ha.1 μ hv y hy
  · rw [priority_setPriority_of_ne hvt]
    by_cases hyt : y = t
    · subst hyt
      rw [priority_setPriority_self]
      exact ha.2 μ v hy hv
    · rw [priority_setPriority_of_ne hyt]
      exact h μ v hv y hy

lemma change (inv : Inv m.sys) {a : Act T M O} (ha : KeepsInheritance m a)
    (hc : Change m a m') : Inherits m' := by
  cases hc with
  | @takeNested t μ _ hrun howner =>
    refine h.of_sub (fun μ' => ?_) (by simp [System.setMutex]) fun _ _ hx => hx
    by_cases hμ : μ' = μ <;> simp [System.setMutex, hμ]
  | @takeFree t μ _ hrun hnot hvalue =>
    -- nobody waits for a mutex without an owner
    have hnil := (inv.free μ (inv.owner_of_value hvalue)).2.2
    intro μ' v hv y hy
    have hμ : μ' ≠ μ := by
      rintro rfl
      simp [System.setMutex, setError, hnil] at hy
    simp only [System.setMutex, Function.update_of_ne hμ, priority_setError] at hv hy ⊢
    exact h μ' v hv y hy
  | takeFail hrun => exact h.of_sub (fun _ => rfl) (by simp) fun _ _ hx => hx
  | takeWait hrun howner hne htime => exact h.takeWait howner hne htime ha
  | releaseFail hrun => exact h.of_sub (fun _ => rfl) (by simp) fun _ _ hx => hx
  | @releaseNested t μ hrun howner hhold =>
    refine h.of_sub (fun μ' => ?_) rfl fun _ _ hx => hx
    by_cases hμ : μ' = μ <;> simp [System.setMutex, hμ]
  | releaseFree hrun howner hhold hnil =>
    obtain ⟨hother, -⟩ := ha howner (hold_sub_eq_zero.mp hhold)
    exact h.giveUp inv hrun rfl (fun _ _ hy => hy) hother fun _ hv => by cases hv
  | @releaseHand t v μ vs hrun howner hhold hcons hne =>
    obtain ⟨hother, hfirst⟩ := ha howner (hold_sub_eq_zero.mp hhold)
    refine h.giveUp inv hrun priority_takeOut
      (fun o y hy => mem_of_mem_takeOut hy) hother fun u hu => ?_
    obtain rfl : v = u := some.inj hu
    refine ⟨hne, fun y hy => hfirst v vs hcons y ?_⟩
    -- the list without its first thread
    rw [suspend_takeOut_self] at hy
    have hlist : (m.sys.waits.setPriority t (m.sys.mutex μ).originalPriority).suspend (.inl μ) =
      v :: vs := hcons
    rwa [hlist, List.erase_cons_head] at hy
  | timeout hwait =>
    exact h.of_sub (fun _ => rfl) (by simp) fun _ _ hx => mem_of_mem_takeOut hx
  | finishTake hres => exact h.of_sub (fun _ => rfl) (by simp) fun _ _ hx => hx
  | finishOther hres => exact h.of_sub (fun _ => rfl) (by simp) fun _ _ hx => hx
  | @block t o time hrun =>
    refine h.of_sub (fun _ => rfl) (by simp [Machine.arrive]) fun μ x hx => ?_
    have hne : (Sum.inl μ : M ⊕ O) ≠ .inr o := by simp
    simp only [Machine.arrive] at hx
    rwa [suspend_suspendThread_of_ne hne] at hx
  | wake hwait =>
    exact h.of_sub (fun _ => rfl) (by simp) fun _ _ hx => mem_of_mem_takeOut hx
  | setPriority => exact h.setPriority inv ha

end Inherits

/-- In every run whose steps pass no priority by, the owner of a mutex is never behind a thread that
waits for it. -/
theorem inherits_of_keepsInheritance (hm : Reach Initial step KeepsInheritance m) : Inherits m := by
  apply hm.invariant_of (J := fun m => Inv m.sys) (I := Inherits)
  · exact fun m hm => inv_of_reach hm
  · intro m hinit μ v hv
    simp [hinit.mutex, rtMutexInit] at hv
  · intro m a m' inv h ha hok
    exact h.change inv ha (change_of_step inv.wf hok)

/-- A test for `KeepsInheritance`: at most one thread waits, and for the mutex that is released. -/
def fewWaiting (m : Machine Bool Bool Unit) : Act Bool Bool Unit → Bool
  | .take _ _ _ => decide (∀ μ, m.sys.waits.suspend (.inl μ) = [])
  | .release _ μ => decide (m.sys.waits.suspend (.inl !μ) = [] ∧
      (m.sys.waits.suspend (.inl μ)).tail = [])
  | .setPriority _ _ => false
  | _ => true

lemma keepsInheritance_of_test {m : Machine Bool Bool Unit}
    (h : fewWaiting m a = true) : KeepsInheritance m a := by
  cases a with
  | take t μ time =>
    intro v μ' u _ _ _ hmem
    rw [of_decide_eq_true h μ'] at hmem
    cases hmem
  | release t μ =>
    intro _ _
    obtain ⟨hnil, htail⟩ := of_decide_eq_true h
    refine ⟨fun μ' hμ _ x hx => ?_, fun v vs hcons x hx => ?_⟩
    · have hμ' : μ' = !μ := by cases μ <;> cases μ' <;> simp_all
      rw [hμ', hnil] at hx
      cases hx
    · rw [hcons, List.tail_cons] at htail
      rw [htail] at hx
      cases hx
  | setPriority t p => cases h
  | _ => exact trivial

/-- The second thread waits for the mutex of the first thread. -/
theorem inherits_while_waiting : ∃ m : Machine Bool Bool Unit,
    (m.sys.mutex false).owner = some false ∧ true ∈ m.sys.waits.suspend (.inl false) ∧
      Inherits m := by
  obtain ⟨m, hreach, howner, hwait⟩ : ∃ m : Machine Bool Bool Unit,
      Reach Initial step KeepsInheritance m ∧ (m.sys.mutex false).owner = some false ∧
        true ∈ m.sys.waits.suspend (.inl false) :=
    exists_of_run (fun _ _ => keepsInheritance_of_test) (initial_start lowHigh fun _ => .prio)
      [.take false false 0, .take false true 0, .release false true, .take true false 100]
      (by decide +kernel)
  exact ⟨m, howner, hwait, inherits_of_keepsInheritance hreach⟩

/-- The first thread takes two mutexes and is raised by the second thread, which waits for one of
them. The release of the other mutex takes the raised priority away. -/
theorem owner_behind_waiting : ∃ m : Machine Bool Bool Unit,
    Reach Initial step NoPriorityChange m ∧ ¬ Inherits m := by
  obtain ⟨m, hreach, howner, hwait, hbehind⟩ : ∃ m : Machine Bool Bool Unit,
      Reach Initial step NoPriorityChange m ∧ (m.sys.mutex false).owner = some false ∧
        true ∈ m.sys.waits.suspend (.inl false) ∧
        ¬ m.sys.waits.priority false ≤ m.sys.waits.priority true :=
    exists_of_run (fun _ _ => of_decide_eq_true) (initial_start lowHigh fun _ => .prio)
      [.take false false 0, .take false true 0, .take true false 100, .release false true]
      (by decide +kernel)
  refine ⟨m, hreach, fun hinherits => ?_⟩
  exact hbehind (hinherits false false howner true hwait)

end Ipc.Mutex
