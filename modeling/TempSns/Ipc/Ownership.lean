import TempSns.Ipc.Mutex

/-!
# Ownership of mutexes

A mutex has at most one owner, and its ownership passes from a release to the first waiting thread
without a gap. `Inv` holds in all runs: a mutex without an owner is available and nobody waits for
it, a mutex with an owner is not available, and a thread that was resumed with `RT_EOK` from its wait
for a mutex is its owner, before it has returned from `rt_mutex_take`. `Counts` adds the numbers of
takes and releases, for a nesting depth within the 8 bits of `hold`.
-/

namespace Ipc.Mutex

open Function Waits List Option Transition

variable {T M O : Type} [DecidableEq T] [DecidableEq M] [DecidableEq O] {m m' : Machine T M O}
  {s : System T M O} {w : Waits T (M ⊕ O)} {t v : T} {μ μ' : M} {x : Mutex T} {f : T → M → ℕ}
  {o : M ⊕ O} {e : RtErr} {a : Act T M O} {timed : Bool} {n : UInt8}

omit [DecidableEq M] [DecidableEq O] in
lemma sameBut_inherit (w : Waits T (M ⊕ O)) (t v : T) : Waits.SameBut w (inherit w t v) := by
  unfold inherit
  split
  · exact sameBut_setPriority _ _ _
  · exact .refl _

/-! ## Owner -/

/-- The owners, the values and the waiting threads fit together. -/
structure Inv (s : System T M O) : Prop where
  wf : s.waits.WF
  free : ∀ μ, (s.mutex μ).owner = none →
    (s.mutex μ).value = 1 ∧ (s.mutex μ).hold = 0 ∧ s.waits.suspend (.inl μ) = []
  held : ∀ μ t, (s.mutex μ).owner = some t →
    (s.mutex μ).value = 0 ∧ t ∉ s.waits.suspend (.inl μ)
  handed : ∀ μ t, (s.waits.thread t).phase = .resumed (.inl μ) → (s.waits.thread t).error = .eok →
    (s.mutex μ).owner = some t
  error : ∀ o, ∀ t ∈ s.waits.suspend o, (s.waits.thread t).error = .eok

namespace Inv

omit [DecidableEq T] [DecidableEq M] [DecidableEq O] in
lemma init (h : Initial m) : Inv m.sys := by
  have hwf : m.sys.waits.WF := ⟨fun o t => by simp [h.suspend, h.running], fun o => by
    simp [h.suspend]⟩
  refine ⟨hwf, fun μ _ => ?_, fun μ t ht => ?_, fun μ t ht => ?_, fun o t ht => ?_⟩
  · rw [h.mutex, h.suspend]
    exact ⟨rfl, rfl, rfl⟩
  · simp [h.mutex, rtMutexInit] at ht
  · simp [h.running] at ht
  · simp [h.suspend] at ht

section

variable (h : Inv s)

include h

omit [DecidableEq T] [DecidableEq M] [DecidableEq O] in
/-- A step that gives no mutex to anybody and starts no wait for a mutex. -/
lemma setWaits (hwf : w.WF) (hsub : ∀ μ, ∀ t ∈ w.suspend (.inl μ), t ∈ s.waits.suspend (.inl μ))
    (hres : ∀ μ t, (w.thread t).phase = .resumed (.inl μ) → (w.thread t).error = .eok →
      (s.waits.thread t).phase = .resumed (.inl μ) ∧ (s.waits.thread t).error = .eok)
    (herror : ∀ o, ∀ t ∈ w.suspend o, (w.thread t).error = .eok) :
    Inv { s with waits := w } := by
  refine ⟨hwf, fun μ hμ => ?_, fun μ t ht => ?_, fun μ t hphase herr => ?_, herror⟩
  · obtain ⟨hvalue, hhold, hnil⟩ := h.free μ hμ
    refine ⟨hvalue, hhold, eq_nil_iff_forall_not_mem.mpr fun t ht => ?_⟩
    simpa [hnil] using hsub μ t ht
  · exact ⟨(h.held μ t ht).1, fun hmem => (h.held μ t ht).2 (hsub μ t hmem)⟩
  · obtain ⟨hphase', herr'⟩ := hres μ t hphase herr
    exact h.handed μ t hphase' herr'

omit [DecidableEq T] [DecidableEq M] [DecidableEq O] in
lemma owner_of_value (hvalue : 0 < (s.mutex μ).value) : (s.mutex μ).owner = none := by
  cases hv : (s.mutex μ).owner with
  | none => rfl
  | some v => simp [(h.held μ v hv).1] at hvalue

omit [DecidableEq M] [DecidableEq O] in
lemma setThread {x : Thread (M ⊕ O)} (hnot : ∀ o, t ∉ s.waits.suspend o)
    (hwf : (s.waits.setThread t x).WF) (hx : ∀ μ, x.phase ≠ .resumed (.inl μ)) :
    Inv { s with waits := s.waits.setThread t x } := by
  apply h.setWaits hwf
  · exact fun _ _ ht' => ht'
  · intro μ t' hphase herr
    by_cases htt : t' = t
    · subst htt
      rw [thread_setThread_self] at hphase
      exact absurd hphase (hx μ)
    · rw [thread_setThread_of_ne htt] at hphase herr
      exact ⟨hphase, herr⟩
  · intro o t' ht'
    have htt : t' ≠ t := by
      rintro rfl
      exact hnot o ht'
    rw [thread_setThread_of_ne htt]
    exact h.error o t' ht'

omit [DecidableEq M] [DecidableEq O] in
lemma setError (ht : (s.waits.thread t).phase = .running) (e : RtErr) :
    Inv { s with waits := s.waits.setError t e } :=
  h.setThread (h.wf.not_mem fun o timed => by simp [ht]) (h.wf.setError t e) (by simp [ht])

omit [DecidableEq T] [DecidableEq M] [DecidableEq O] in
lemma sameBut (hsame : Waits.SameBut s.waits w) : Inv { s with waits := w } := by
  apply h.setWaits (hsame.wf h.wf)
  · intro μ t ht
    rwa [hsame.suspend] at ht
  · intro μ t hphase herr
    exact ⟨hsame.phase t ▸ hphase, hsame.error t ▸ herr⟩
  · intro o t ht
    rw [hsame.suspend] at ht
    rw [hsame.error]
    exact h.error o t ht

/-- A running thread starts to wait in the list `o`; if it is the list of a mutex, the mutex has
another owner. -/
lemma suspendThread (ht : (s.waits.thread t).phase = .running)
    (herror : (s.waits.thread t).error = .eok)
    (howner : ∀ μ, o = .inl μ → ∃ v, (s.mutex μ).owner = some v ∧ v ≠ t) (time : ℤ) :
    Inv { s with waits := s.waits.suspendThread o t time } := by
  have hrun : ∀ o timed, (s.waits.thread t).phase ≠ .waiting o timed := by simp [ht]
  refine ⟨h.wf.suspendThread hrun o time, fun μ hμ => ?_, fun μ v hv => ?_,
    fun μ t' hphase herr => ?_, fun o' t' ht' => ?_⟩
  · obtain ⟨hvalue, hhold, hnil⟩ := h.free μ hμ
    refine ⟨hvalue, hhold, ?_⟩
    have hne : Sum.inl μ ≠ o := by
      rintro rfl
      obtain ⟨v, hv, -⟩ := howner μ rfl
      exact absurd (hv.symm.trans hμ) nofun
    rw [suspend_suspendThread_of_ne hne, hnil]
  · refine ⟨(h.held μ v hv).1, fun hmem => ?_⟩
    rcases mem_suspend_suspendThread.mp hmem with ⟨rfl, ho⟩ | hmem
    · obtain ⟨v', hv', hne⟩ := howner μ ho.symm
      exact hne (some.inj (hv'.symm.trans hv))
    · exact (h.held μ v hv).2 hmem
  · by_cases htt : t' = t
    · subst htt
      simp at hphase
    · rw [thread_suspendThread_of_ne htt] at hphase herr
      exact h.handed μ t' hphase herr
  · by_cases htt : t' = t
    · subst htt
      rw [thread_suspendThread_self]
      exact herror
    · rw [thread_suspendThread_of_ne htt]
      rcases mem_suspend_suspendThread.mp ht' with ⟨heq, -⟩ | ht'
      · exact absurd heq htt
      · exact h.error o' t' ht'

lemma takeOut
    (ht : (s.waits.thread t).phase = .waiting o timed) (he : ∀ μ, o = .inl μ → e ≠ .eok) :
    Inv { s with waits := (s.waits.setError t e).takeOut o t } := by
  have ht' : ((s.waits.setError t e).thread t).phase = .waiting o timed := by
    rw [thread_setError_self, ht]
  have hwf := h.wf.setError t e
  apply h.setWaits (hwf.takeOut ht')
  · exact fun μ t'' hmem => mem_of_mem_takeOut hmem
  · intro μ t'' hphase herr
    by_cases htt : t'' = t
    · subst htt
      simp only [thread_takeOut_self, thread_setError_self] at hphase herr
      exact absurd herr (he μ (Phase.resumed.inj hphase))
    · rw [thread_takeOut_of_ne htt, thread_setError_of_ne htt] at hphase herr
      exact ⟨hphase, herr⟩
  · intro o' t'' hmem
    have htt := hwf.ne_of_mem_takeOut ht' hmem
    rw [thread_takeOut_of_ne htt, thread_setError_of_ne htt]
    exact h.error o' t'' (mem_of_mem_takeOut hmem)

omit [DecidableEq M] [DecidableEq O] in
lemma wake (ht : (s.waits.thread t).phase = .resumed o) :
    Inv { s with waits := s.waits.wake t } :=
  h.setThread (h.wf.not_mem fun o timed => by simp [ht]) (h.wf.wake ht) nofun

omit [DecidableEq T] [DecidableEq O] in
lemma setMutex (hfree : x.owner = none → x.value = 1 ∧ x.hold = 0 ∧ s.waits.suspend (.inl μ) = [])
    (hheld : ∀ t, x.owner = some t → x.value = 0 ∧ t ∉ s.waits.suspend (.inl μ))
    (hhanded : ∀ t, (s.waits.thread t).phase = .resumed (.inl μ) →
      (s.waits.thread t).error = .eok → x.owner = some t) : Inv (s.setMutex μ x) := by
  refine ⟨h.wf, fun μ' hμ' => ?_, fun μ' t ht => ?_, fun μ' t hphase herr => ?_, h.error⟩ <;>
    by_cases hμ : μ' = μ
  · subst hμ
    simp only [System.setMutex, update_self] at hμ' ⊢
    exact hfree hμ'
  · simp only [System.setMutex, update_of_ne hμ] at hμ' ⊢
    exact h.free μ' hμ'
  · subst hμ
    simp only [System.setMutex, update_self] at ht ⊢
    exact hheld t ht
  · simp only [System.setMutex, update_of_ne hμ] at ht ⊢
    exact h.held μ' t ht
  · subst hμ
    simp only [System.setMutex, update_self]
    exact hhanded t hphase herr
  · simp only [System.setMutex, update_of_ne hμ]
    exact h.handed μ' t hphase herr

omit [DecidableEq T] [DecidableEq O] in
lemma setHold {v : T} (howner : (s.mutex μ).owner = some v) (n : UInt8) :
    Inv (s.setMutex μ { s.mutex μ with hold := n }) :=
  h.setMutex (fun hnone => absurd (howner.symm.trans hnone) nofun) (h.held μ) (h.handed μ)

/-- The mutex `μ` passes to the waiting thread `v`. The old owner is running, so no other thread
has been resumed for the mutex. -/
lemma hand (hv : (s.waits.thread v).phase = .waiting (.inl μ) timed)
    (howner : (s.mutex μ).owner = some t) (hrun : (s.waits.thread t).phase = .running)
    (hx : x.owner = some v ∧ x.value = 0) :
    Inv (System.setMutex { s with waits := s.waits.takeOut (.inl μ) v } μ x) := by
  refine ⟨h.wf.takeOut hv, fun μ' hμ' => ?_, fun μ' t' ht' => ?_, fun μ' t' hphase herr => ?_,
    fun o t' ht' => ?_⟩
  · by_cases hμ : μ' = μ
    · subst hμ
      simp [System.setMutex, hx.1] at hμ'
    · simp only [System.setMutex, update_of_ne hμ] at hμ' ⊢
      obtain ⟨hvalue, hhold, hnil⟩ := h.free μ' hμ'
      have hne : Sum.inl μ' ≠ (Sum.inl μ : M ⊕ O) := fun heq => hμ (Sum.inl.inj heq)
      exact ⟨hvalue, hhold, by rw [suspend_takeOut_of_ne hne, hnil]⟩
  · by_cases hμ : μ' = μ
    · subst hμ
      simp only [System.setMutex, update_self, hx.1, some.injEq] at ht' ⊢
      exact ⟨hx.2, fun hmem => h.wf.ne_of_mem_takeOut hv hmem ht'.symm⟩
    · simp only [System.setMutex, update_of_ne hμ] at ht' ⊢
      exact ⟨(h.held μ' t' ht').1, fun hmem => (h.held μ' t' ht').2 (mem_of_mem_takeOut hmem)⟩
  · by_cases htt : t' = v
    · subst htt
      obtain rfl : μ = μ' := by simpa [System.setMutex] using hphase
      simpa [System.setMutex] using hx.1
    · simp only [System.setMutex, thread_takeOut_of_ne htt] at hphase herr ⊢
      have howner' := h.handed μ' t' hphase herr
      have hμ : μ' ≠ μ := by
        rintro rfl
        obtain rfl := some.inj (howner.symm.trans howner')
        simp [hrun] at hphase
      rwa [update_of_ne hμ]
  · have htt : t' ≠ v := h.wf.ne_of_mem_takeOut hv ht'
    show ((s.waits.takeOut (.inl μ) v).thread t').error = .eok
    rw [thread_takeOut_of_ne htt]
    exact h.error o t' (mem_of_mem_takeOut ht')

end

/-- Every step keeps the invariant. -/
lemma change (h : Inv m.sys) (hc : Change m a m') : Inv m'.sys := by
  cases hc with
  | @takeNested t μ _ hrun howner => exact (h.setError hrun .eok).setHold howner _
  | @takeFree t μ _ hrun howner hvalue =>
    have hnone : (m.sys.mutex μ).owner = none := h.owner_of_value hvalue
    obtain ⟨hone, -, hnil⟩ := h.free μ hnone
    refine (h.setError hrun .eok).setMutex (by simp) (fun _ _ => ⟨?_, ?_⟩) fun t' hphase herr => ?_
    · rw [hone]
      rfl
    · rw [Waits.setError, Waits.suspend_setThread, hnil]
      exact not_mem_nil
    · have := (h.setError hrun .eok).handed μ t' hphase herr
      cases hnone.symm.trans this
  | @takeFail t μ hrun => exact h.setError hrun .etimeout
  | @takeWait t v μ time hrun howner hne htime =>
    have herr := h.setError hrun .eok
    have hsame := sameBut_inherit (m.sys.waits.setError t .eok) t v
    refine (herr.sameBut hsame).suspendThread ?_ ?_ (fun μ' hμ' => ?_) time
    · rw [hsame.phase, Waits.thread_setError_self]
      exact hrun
    · rw [hsame.error, Waits.thread_setError_self]
    · obtain rfl := Sum.inl.inj hμ'
      exact ⟨v, howner, hne⟩
  | @releaseFail t μ hrun => exact h.setError hrun .error
  | @releaseNested t μ hrun howner hhold => exact h.setHold howner _
  | @releaseFree t μ hrun howner hhold hnil =>
    have hprio := h.sameBut (Waits.sameBut_setPriority m.sys.waits t (m.sys.mutex μ).originalPriority)
    refine hprio.setMutex (fun _ => ⟨?_, rfl, hnil⟩) (by simp) fun t' hphase herr => ?_
    · simp [(h.held μ t howner).1]
    · -- a thread that was resumed for the mutex would be the owner, which is running
      have howner' := hprio.handed μ t' hphase herr
      obtain rfl := some.inj (howner.symm.trans howner')
      rw [(Waits.sameBut_setPriority _ _ _).phase, hrun] at hphase
      cases hphase
  | @releaseHand t v μ vs hrun howner hhold hcons hne =>
    have hsame := Waits.sameBut_setPriority m.sys.waits t (m.sys.mutex μ).originalPriority
    obtain ⟨timed, hv⟩ := h.wf.head hcons
    have hv' := (hsame.phase v).trans hv
    exact (h.sameBut hsame).hand hv' howner ((hsame.phase t).trans hrun)
      ⟨rfl, (h.held μ t howner).1⟩
  | timeout hwait => exact h.takeOut hwait fun _ _ => by simp
  | finishTake hres => exact h.wake hres
  | finishOther hres => exact h.wake hres
  | @block t o time hrun =>
    refine (h.setError hrun .eok).suspendThread ?_ ?_ (fun μ' hμ' => by cases hμ') time
    · rw [Waits.thread_setError_self]
      exact hrun
    · rw [Waits.thread_setError_self]
  | wake hwait => exact h.takeOut hwait fun _ hμ => by cases hμ
  | setPriority => exact h.sameBut (Waits.sameBut_setPriority _ _ _)

end Inv

/-! ## Takes and releases -/

@[simp] lemma bump_self : bump f t μ t μ = f t μ + 1 := by
  simp [bump]

lemma bump_of_ne {t' : T} (h : ¬ (t' = t ∧ μ' = μ)) : bump f t μ t' μ' = f t' μ' := by
  by_cases htt : t' = t
  · subst htt
    have hμ : μ' ≠ μ := fun heq => h ⟨rfl, heq⟩
    simp [bump, hμ]
  · simp [bump, htt]

/-- A thread takes a mutex at most 255 times without releasing it. -/
def DepthOk (m : Machine T M O) : Act T M O → Prop
  | .take t μ _ => (m.sys.mutex μ).owner = some t → (m.sys.mutex μ).hold.toNat < 255
  | _ => True

/-- The thread `t` is the owner of `μ` exactly while it got the mutex more often than it released
it; `hold` is the difference. -/
def Balanced (x : Mutex T) (t : T) (granted released : ℕ) : Prop :=
  (x.owner = some t → 0 < x.hold.toNat ∧ released + x.hold.toNat = granted) ∧
    (x.owner ≠ some t → released = granted)

omit [DecidableEq T] in
lemma Balanced.owner {g r : ℕ} (howner : x.owner = some t)
    (hpos : 0 < x.hold.toNat) (heq : r + x.hold.toNat = g) : Balanced x t g r :=
  ⟨fun _ => ⟨hpos, heq⟩, fun hne => absurd howner hne⟩

omit [DecidableEq T] in
lemma Balanced.other {g r : ℕ} (hne : x.owner ≠ some t) (heq : r = g) : Balanced x t g r :=
  ⟨fun howner => absurd howner hne, fun _ => heq⟩

lemma Balanced.of_owner {g r : T → ℕ} (howner : x.owner = some t)
    (hpos : 0 < x.hold.toNat) (heq : r t + x.hold.toNat = g t) (hne : ∀ t' ≠ t, r t' = g t')
    (t' : T) : Balanced x t' (g t') (r t') := by
  by_cases htt : t' = t
  · subst htt
    exact .owner howner hpos heq
  · exact .other (fun hown => htt (some.inj (hown.symm.trans howner))) (hne t' htt)

lemma toNat_hold_add (h : n.toNat < 255) : (n + 1).toNat = n.toNat + 1 := by
  rw [UInt8.toNat_add]
  exact Nat.mod_eq_of_lt (Nat.add_lt_add_right h 1)

lemma toNat_hold_sub (h : 0 < n.toNat) : (n - 1).toNat = n.toNat - 1 := by
  have hle : (1 : UInt8) ≤ n := UInt8.le_iff_toNat_le.mpr h
  exact UInt8.toNat_sub_of_le n 1 hle

lemma hold_eq_one (h : 0 < n.toNat) (hzero : n - 1 = 0) : n.toNat = 1 := by
  have hsub := toNat_hold_sub h
  rw [hzero] at hsub
  have : (0 : UInt8).toNat = 0 := rfl
  omega

/-- The balance of every thread and mutex. -/
def AllBalanced (m : Machine T M O) : Prop :=
  ∀ μ t, Balanced (m.sys.mutex μ) t (m.granted t μ) (m.released t μ)

namespace AllBalanced

omit [DecidableEq T] [DecidableEq O] in
lemma setMutex (h : AllBalanced m) {waits : Waits T (M ⊕ O)} {g r : T → M → ℕ}
    (hg : ∀ t, ∀ μ' ≠ μ, g t μ' = m.granted t μ') (hr : ∀ t, ∀ μ' ≠ μ, r t μ' = m.released t μ')
    (hself : ∀ t, Balanced x t (g t μ) (r t μ)) :
    AllBalanced { m with
      sys := System.setMutex { m.sys with waits := waits } μ x
      granted := g
      released := r } := by
  intro μ' t
  by_cases hμ : μ' = μ
  · subst hμ
    simpa [System.setMutex] using hself t
  · simp only [System.setMutex, update_of_ne hμ, hg t μ' hμ, hr t μ' hμ]
    exact h μ' t

lemma bump_frame (t' : T) (hμ : μ' ≠ μ) : bump f t μ t' μ' = f t' μ' :=
  bump_of_ne fun heq => hμ heq.2

omit [DecidableEq T] [DecidableEq M] [DecidableEq O] in
lemma not_owner (h : AllBalanced m) (howner : (m.sys.mutex μ).owner = some t) (hv : v ≠ t) :
    m.released v μ = m.granted v μ :=
  (h μ v).2 fun hown => hv (some.inj (hown.symm.trans howner))

lemma change (h : AllBalanced m) (inv : Inv m.sys) (ha : DepthOk m a)
    (hc : Change m a m') : AllBalanced m' := by
  cases hc with
  | @takeNested t μ _ hrun howner =>
    obtain ⟨hpos, heq⟩ := (h μ t).1 howner
    have hadd := toNat_hold_add (ha howner)
    refine h.setMutex (fun _ _ => bump_frame _) (fun _ _ _ => rfl)
      (Balanced.of_owner howner (by simp only [hadd]; omega) ?_ fun t' htt => ?_)
    · simp only [hadd, bump_self]
      omega
    · rw [bump_of_ne fun h => htt h.1]
      exact h.not_owner howner htt
  | @takeFree t μ _ hrun hnot hvalue =>
    have hnone : (m.sys.mutex μ).owner = none := inv.owner_of_value hvalue
    have heq : ∀ t', m.released t' μ = m.granted t' μ := fun t' => (h μ t').2 (by simp [hnone])
    have hone : ((m.sys.mutex μ).hold + 1).toNat = 1 := by
      rw [(inv.free μ hnone).2.1]
      rfl
    refine h.setMutex (fun _ _ => bump_frame _) (fun _ _ _ => rfl)
      (Balanced.of_owner rfl (by simp only [hone]; omega) ?_ fun t' htt => ?_)
    · rw [hone, bump_self, heq]
    · rw [bump_of_ne fun h => htt h.1]
      exact heq t'
  | @releaseNested t μ hrun howner hhold =>
    obtain ⟨hpos, heq⟩ := (h μ t).1 howner
    have hsub := toNat_hold_sub hpos
    have hpos' : 0 < ((m.sys.mutex μ).hold - 1).toNat :=
      Nat.pos_iff_ne_zero.mpr fun hzero => hhold (UInt8.toNat_inj.mp hzero)
    refine h.setMutex (fun _ _ _ => rfl) (fun _ _ => bump_frame _)
      (Balanced.of_owner howner hpos' ?_ fun t' htt => ?_)
    · simp only [hsub, bump_self]
      omega
    · rw [bump_of_ne fun h => htt h.1]
      exact h.not_owner howner htt
  | @releaseFree t μ hrun howner hhold hnil =>
    obtain ⟨hpos, heq⟩ := (h μ t).1 howner
    have hone := hold_eq_one hpos hhold
    refine h.setMutex (fun _ _ _ => rfl) (fun _ _ => bump_frame _) fun t' => .other (by simp) ?_
    by_cases htt : t' = t
    · subst htt
      rw [bump_self]
      omega
    · rw [bump_of_ne fun h => htt h.1]
      exact h.not_owner howner htt
  | @releaseHand t v μ vs hrun howner hhold hcons hne =>
    obtain ⟨hpos, heq⟩ := (h μ t).1 howner
    have hone := hold_eq_one hpos hhold
    refine h.setMutex (fun _ _ => bump_frame _) (fun _ _ => bump_frame _)
      (Balanced.of_owner rfl (show 0 < (1 : UInt8).toNat by decide) ?_ fun t' htv => ?_)
    · -- the new owner
      rw [bump_self, bump_of_ne fun h => hne h.1, ← h.not_owner howner hne]
      rfl
    · rw [bump_of_ne fun h => htv h.1]
      by_cases htt : t' = t
      · subst htt
        rw [bump_self]
        omega
      · rw [bump_of_ne fun h => htt h.1]
        exact h.not_owner howner htt
  | takeFail | takeWait | releaseFail | timeout | finishTake | finishOther | block | wake
  | setPriority => exact h

end AllBalanced

/-- The mutex `μ` was handed to the thread, which has not returned from `rt_mutex_take` yet. -/
def InFlight (w : Waits T (M ⊕ O)) (t : T) (μ : M) : Prop :=
  (w.thread t).phase = .resumed (.inl μ) ∧ (w.thread t).error = .eok

omit [DecidableEq M] [DecidableEq O] in
lemma inFlight_congr {w w' : Waits T (M ⊕ O)} (h : ∀ t', t' ≠ t → w'.thread t' = w.thread t')
    (hself : ¬ InFlight w t μ) (hself' : ¬ InFlight w' t μ) (t' : T) :
    InFlight w' t' μ ↔ InFlight w t' μ := by
  by_cases htt : t' = t
  · rw [htt]
    exact iff_of_false hself' hself
  · rw [InFlight, InFlight, h t' htt]

omit [DecidableEq M] [DecidableEq O] in
lemma inFlight_setError (hrun : (w.thread t).phase = .running) (μ : M) (t' : T) :
    InFlight (w.setError t e) t' μ ↔ InFlight w t' μ :=
  inFlight_congr (fun _ => thread_setError_of_ne) (by simp [InFlight, hrun])
    (by simp [InFlight, hrun]) t'

lemma inFlight_takeOut
    (hwait : (w.thread t).phase = .waiting o timed) (he : o = .inl μ → e ≠ .eok) (t' : T) :
    InFlight ((w.setError t e).takeOut o t) t' μ ↔ InFlight w t' μ := by
  refine inFlight_congr (t := t) (fun t' htt => ?_) ?_ ?_ t'
  · rw [thread_takeOut_of_ne htt, thread_setError_of_ne htt]
  · simp [InFlight, hwait]
  · simpa [InFlight] using he

/-- Every mutex that a thread got was returned by `rt_mutex_take`, or is in flight. -/
def AllReturned (m : Machine T M O) : Prop :=
  ∀ μ t, (InFlight m.sys.waits t μ → m.returned t μ + 1 = m.granted t μ) ∧
    (¬ InFlight m.sys.waits t μ → m.returned t μ = m.granted t μ)

namespace AllReturned

variable (h : AllReturned m)

include h

omit [DecidableEq T] [DecidableEq M] [DecidableEq O] in
lemma of_same (hflight : ∀ μ t, InFlight m'.sys.waits t μ ↔ InFlight m.sys.waits t μ)
    (hret : m'.returned = m.returned) (hgrant : m'.granted = m.granted) : AllReturned m' := by
  intro μ t
  rw [hflight, hret, hgrant]
  exact h μ t

omit [DecidableEq M] [DecidableEq O] in
lemma of_setError (hrun : (m.sys.waits.thread t).phase = .running)
    (hwaits : m'.sys.waits = m.sys.waits.setError t e) (hret : m'.returned = m.returned)
    (hgrant : m'.granted = m.granted) : AllReturned m' := by
  refine h.of_same (fun μ' => ?_) hret hgrant
  rw [hwaits]
  exact inFlight_setError hrun μ'

omit [DecidableEq O] in
/-- A step in which a mutex is given to a running thread at once. -/
lemma take (hrun : (m.sys.waits.thread t).phase = .running)
    (hwaits : m'.sys.waits = m.sys.waits.setError t .eok) (hret : m'.returned = bump m.returned t μ)
    (hgrant : m'.granted = bump m.granted t μ) : AllReturned m' := by
  intro μ' t'
  rw [hret, hgrant, hwaits, inFlight_setError hrun]
  by_cases heq : t' = t ∧ μ' = μ
  · obtain ⟨rfl, rfl⟩ := heq
    have hnot : ¬ InFlight m.sys.waits t' μ' := by simp [InFlight, hrun]
    simp only [hnot, false_implies, not_false_eq_true, true_implies, true_and, bump_self,
      Nat.add_right_cancel_iff]
    exact (h μ' t').2 hnot
  · rw [bump_of_ne heq, bump_of_ne heq]
    exact h μ' t'

/-- Every step keeps the count. -/
lemma change (inv : Inv m.sys) (hc : Change m a m') : AllReturned m' := by
  cases hc with
  | takeNested hrun howner => exact h.take hrun rfl rfl rfl
  | takeFree hrun howner hvalue => exact h.take hrun rfl rfl rfl
  | takeFail hrun => exact h.of_setError hrun rfl rfl rfl
  | @takeWait t v μ time hrun howner hne htime =>
    have hsame := sameBut_inherit (m.sys.waits.setError t .eok) t v
    refine h.of_same (fun μ' t' => ?_) rfl rfl
    by_cases htt : t' = t
    · subst htt
      simp [InFlight, hrun, Machine.arrive]
    · simp only [InFlight, Machine.arrive, thread_suspendThread_of_ne htt, hsame.phase,
        hsame.error, thread_setError_of_ne htt]
  | releaseFail hrun => exact h.of_setError hrun rfl rfl rfl
  | releaseNested hrun howner hhold => exact h
  | @releaseFree t μ hrun howner hhold hnil =>
    have hsame := sameBut_setPriority m.sys.waits t (m.sys.mutex μ).originalPriority
    refine h.of_same (fun μ' t' => ?_) rfl rfl
    simp only [InFlight, System.setMutex, hsame.phase, hsame.error]
  | @releaseHand t v μ vs hrun howner hhold hcons hne =>
    have hsame := sameBut_setPriority m.sys.waits t (m.sys.mutex μ).originalPriority
    obtain ⟨timed, hv⟩ := inv.wf.head hcons
    have herr : (m.sys.waits.thread v).error = .eok :=
      inv.error (.inl μ) v (by rw [hcons]; exact mem_cons_self)
    intro μ' t'
    by_cases htv : t' = v
    · -- the mutex is in flight to the first waiting thread
      subst htv
      have hnot : ∀ μ', ¬ InFlight m.sys.waits t' μ' := by simp [InFlight, hv]
      by_cases hμ : μ' = μ
      · subst hμ
        simp only [InFlight, System.setMutex, thread_takeOut_self, hsame.error, herr, and_self,
          bump_self, true_implies, not_true_eq_false, false_implies, and_true,
          Nat.add_right_cancel_iff]
        exact (h μ' t').2 (hnot μ')
      · have hflight : ¬ (Sum.inl μ : M ⊕ O) = Sum.inl μ' := fun heq => hμ (Sum.inl.inj heq).symm
        simp only [InFlight, System.setMutex, thread_takeOut_self, Phase.resumed.injEq, hflight,
          false_and, false_implies, not_false_eq_true, true_implies, true_and]
        rw [bump_of_ne fun heq => hμ heq.2]
        exact (h μ' t').2 (hnot μ')
    · simp only [InFlight, System.setMutex, thread_takeOut_of_ne htv, hsame.phase, hsame.error]
      rw [bump_of_ne fun heq => htv heq.1]
      exact h μ' t'
  | timeout hwait => exact h.of_same (fun μ' => inFlight_takeOut hwait (by simp)) rfl rfl
  | @finishTake t μ hres =>
    intro μ' t'
    by_cases htt : t' = t
    · subst htt
      have hnot : ¬ InFlight (m.sys.waits.wake t') t' μ' := by simp [InFlight, wake]
      refine ⟨fun hin => absurd hin hnot, fun _ => ?_⟩
      by_cases hμ : μ' = μ
      · subst hμ
        by_cases herr : (m.sys.waits.thread t').error = .eok
        · simp only [herr, if_true, bump_self]
          exact (h μ' t').1 ⟨hres, herr⟩
        · simp only [herr, if_false]
          exact (h μ' t').2 fun hin => herr hin.2
      · have heq : m.returned t' μ' = m.granted t' μ' := (h μ' t').2 fun hin => by
          have := hres.symm.trans hin.1
          simp only [Phase.resumed.injEq, Sum.inl.injEq] at this
          exact hμ this.symm
        simp only
        split
        · rw [bump_of_ne fun h => hμ h.2, heq]
        · exact heq
    · have hflight : InFlight (m.sys.waits.wake t) t' μ' ↔ InFlight m.sys.waits t' μ' := by
        rw [InFlight, InFlight, wake, thread_setThread_of_ne htt]
      simp only [hflight]
      split
      · rw [bump_of_ne fun h => htt h.1]
        exact h μ' t'
      · exact h μ' t'
  | @finishOther t o hres =>
    refine h.of_same (fun μ' => inFlight_congr (t := t) ?_ ?_ ?_) rfl rfl
    · exact fun _ => thread_setThread_of_ne
    · simp [InFlight, hres]
    · simp [InFlight, wake]
  | @block t o time hrun =>
    refine h.of_same (fun μ' => inFlight_congr (t := t) ?_ ?_ ?_) rfl rfl
    · intro t' htt
      simp only [Machine.arrive]
      rw [thread_suspendThread_of_ne htt, thread_setError_of_ne htt]
    · simp [InFlight, hrun]
    · simp [InFlight, Machine.arrive]
  | wake hwait => exact h.of_same (fun μ' => inFlight_takeOut hwait (by simp)) rfl rfl
  | @setPriority t p =>
    have hsame := sameBut_setPriority m.sys.waits t p
    refine h.of_same (fun μ' t' => ?_) rfl rfl
    simp only [InFlight, hsame.phase, hsame.error]

end AllReturned

/-! ## Mutual exclusion -/

/-- What the mutexes guarantee. -/
structure Exclusive (m : Machine T M O) : Prop where
  /-- `value` is 1 exactly if the mutex has no owner and `hold` is 0. -/
  value_iff : ∀ μ, (m.sys.mutex μ).value = 1 ↔
    (m.sys.mutex μ).owner = none ∧ (m.sys.mutex μ).hold = 0
  /-- At most one thread got the mutex more often than it released it. -/
  unique : ∀ μ t t', m.released t μ < m.granted t μ → m.released t' μ < m.granted t' μ → t = t'
  /-- Such a thread is the owner, and only such a thread. -/
  owner_iff : ∀ μ t, (m.sys.mutex μ).owner = some t ↔ m.released t μ < m.granted t μ
  /-- Outside of its wait, a thread is the owner exactly while `rt_mutex_take` returned `RT_EOK` to
  it more often than it released the mutex. -/
  returned_iff : ∀ μ t, ¬ InFlight m.sys.waits t μ →
    ((m.sys.mutex μ).owner = some t ↔ m.released t μ < m.returned t μ)
  /-- A thread to which the mutex was handed is the owner before it returns, and its wait cannot time
  out any more. -/
  handed : ∀ μ t, InFlight m.sys.waits t μ →
    (m.sys.mutex μ).owner = some t ∧ m.sys.waits.timeout t = none
  /-- `rt_mutex_take` never follows a null owner. -/
  takes : ∀ t μ time, ∃ r, rtMutexTake m.sys t μ time = .ok r

lemma Inv.take_returns (h : Inv s) (t : T) (μ : M) (time : ℤ) :
    ∃ r, rtMutexTake s t μ time = .ok r := by
  unfold rtMutexTake
  simp only
  split
  · exact ⟨_, rfl⟩
  · split
    · exact ⟨_, rfl⟩
    case isFalse hvalue =>
      split
      · exact ⟨_, rfl⟩
      · cases hown : (s.mutex μ).owner with
        | none => simp [(h.free μ hown).1] at hvalue
        | some v => exact ⟨_, rfl⟩

lemma Exclusive.of_inv (h : Inv m.sys) (hb : AllBalanced m) (hr : AllReturned m) :
    Exclusive m := by
  have howner : ∀ μ t, (m.sys.mutex μ).owner = some t ↔ m.released t μ < m.granted t μ := by
    intro μ t
    constructor
    · intro hown
      obtain ⟨hpos, heq⟩ := (hb μ t).1 hown
      omega
    · intro hlt
      by_contra hne
      have := (hb μ t).2 hne
      omega
  refine ⟨fun μ => ⟨fun hone => ?_, fun hnone => (h.free μ hnone.1).1⟩, fun μ t t' ht ht' => ?_,
    howner, fun μ t hnot => ?_, fun μ t hin => ⟨h.handed μ t hin.1 hin.2, ?_⟩, fun t μ time => ?_⟩
  · have hnone : (m.sys.mutex μ).owner = none := h.owner_of_value (by rw [hone]; decide)
    exact ⟨hnone, (h.free μ hnone).2.1⟩
  · exact some.inj (((howner μ t).mpr ht).symm.trans ((howner μ t').mpr ht'))
  · rw [(hr μ t).2 hnot]
    exact howner μ t
  · rw [timeout, hin.1]
  · exact h.take_returns t μ time

lemma inv_of_reach {P : Machine T M O → Act T M O → Prop}
    (hm : Reach Initial step P m) : Inv m.sys :=
  hm.invariant (I := fun m => Inv m.sys) (fun _ => Inv.init) fun _ _ _ h _ hok =>
    h.change (change_of_step h.wf hok)

/-- In every run with a nesting depth of at most 255, the mutexes are exclusive. -/
theorem exclusive_of_reach (hm : Reach Initial step DepthOk m) : Exclusive m := by
  have hcounts : AllBalanced m ∧ AllReturned m := by
    apply hm.invariant_of (J := fun m => Inv m.sys) (I := fun m => AllBalanced m ∧ AllReturned m)
    · exact fun m hm => inv_of_reach hm
    · intro m hinit
      constructor
      · intro μ t
        refine .other ?_ ?_
        · simp [hinit.mutex, rtMutexInit]
        · rw [hinit.granted, hinit.released]
      · intro μ t
        refine ⟨fun hin => ?_, fun _ => ?_⟩
        · simp [InFlight, hinit.running] at hin
        · rw [hinit.returned, hinit.granted]
    · rintro m a m' inv ⟨hb, hr⟩ ha hok
      have hc := change_of_step inv.wf hok
      exact ⟨hb.change inv ha hc, hr.change inv hc⟩
  exact .of_inv (inv_of_reach hm) hcounts.1 hcounts.2

/-- Threads with the given priorities, and mutexes that nobody has taken. -/
def start (priority : T → UInt8) (flag : M ⊕ O → IpcFlag) : Machine T M O where
  sys := ⟨⟨fun t => ⟨priority t, .eok, .running⟩, fun _ => [], flag⟩, fun _ => rtMutexInit⟩
  arrival := fun _ => 0
  arrivals := 0
  granted := fun _ _ => 0
  returned := fun _ _ => 0
  released := fun _ _ => 0

omit [DecidableEq T] [DecidableEq M] [DecidableEq O] in
lemma initial_start (priority : T → UInt8) (flag : M ⊕ O → IpcFlag) :
    Initial (start priority flag) :=
  ⟨fun _ => rfl, fun _ => rfl, fun _ => rfl, fun _ _ => rfl, fun _ _ => rfl, fun _ _ => rfl⟩

/-- One thread takes the mutex twice, another one waits for it with a time limit and gets it with the
second release. -/
theorem exclusive_after_hand_over : ∃ m : Machine Bool Unit Unit,
    (m.sys.mutex ()).owner = some true ∧ InFlight m.sys.waits true () ∧ Exclusive m := by
  obtain ⟨m, hrun, hfacts⟩ := (any_eq_true _ _).mp
    (show (Transition.run step (fun m _ => decide ((m.sys.mutex ()).hold.toNat < 255))
      (start (M := Unit) (O := Unit) (fun t : Bool => if t then 10 else 20) fun _ => .prio)
      [.take false () 0, .take false () 0, .take true () 5, .release false (),
        .release false ()]).any (fun m => decide ((m.sys.mutex ()).owner = some true ∧
          (m.sys.waits.thread true).phase = .resumed (.inl ()) ∧
          (m.sys.waits.thread true).error = .eok)) = true by decide +kernel)
  obtain ⟨howner, hphase, herr⟩ := of_decide_eq_true hfacts
  refine ⟨m, howner, ⟨hphase, herr⟩, exclusive_of_reach
    ((Reach.init (initial_start _ _)).run (fun m a h => ?_) hrun)⟩
  cases a with
  | take t μ time => exact fun _ => of_decide_eq_true h
  | _ => exact trivial

end Ipc.Mutex
