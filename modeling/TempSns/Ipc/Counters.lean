import TempSns.Ipc.Mutex
import TempSns.Ipc.Semaphore

/-!
# The range of the counters

`value` of a semaphore has 16 bits and `hold` of a mutex has 8 bits. `rt_sem_release` and
`rt_mutex_take` increment them without a test and always return `RT_EOK`. So the tokens of `2 ^ 16`
releases are lost, and a mutex that was taken more than 256 times is given away by an early release.
-/

namespace Ipc

variable {T M O : Type} [DecidableEq T] [DecidableEq M] [DecidableEq O]

/-! ## Tokens of a semaphore -/

namespace Semaphore

/-- `rt_sem_release` with its return value. -/
def releaseCall (s : Semaphore T) : Semaphore T × RtErr := (rtSemRelease s, .eok)

def releases : ℕ → Semaphore T → Semaphore T
  | 0, s => s
  | n + 1, s => releases n (releaseCall s).1

/-- The first `n` takes of a sequence, which do not wait. -/
def tryTakes (ts : ℕ → T) : ℕ → Semaphore T → Semaphore T
  | 0, s => s
  | n + 1, s => (rtSemTake (tryTakes ts n s) (ts n) 0).1

/-- If no release returned an error, exactly the takes for which there is a token succeed. -/
def KeepsTokens (s : Semaphore T) (n : ℕ) : Prop :=
  (∀ i < n, (releaseCall (releases i s)).2 = .eok) → ∀ ts : ℕ → T,
    (∀ i < s.value.toNat + n, (rtSemTake (tryTakes ts i (releases n s)) (ts i) 0).2 = some .eok) ∧
      (rtSemTake (tryTakes ts (s.value.toNat + n) (releases n s)) (ts (s.value.toNat + n)) 0).2 =
        some .etimeout

variable {s : Semaphore T} {n : ℕ}

lemma releases_eq (hidle : s.waits.suspend () = []) (n : ℕ) :
    releases n s = { s with value := s.value + UInt16.ofNat n } := by
  induction n generalizing s with
  | zero => simp [releases]
  | succ n ih =>
    have hone : rtSemRelease s = { s with value := s.value + 1 } := by
      rw [rtSemRelease, hidle]
    rw [releases, releaseCall, hone]
    change releases n { s with value := s.value + 1 } = _
    rw [ih (show ({ s with value := s.value + 1 } : Semaphore T).waits.suspend () = [] from hidle),
      UInt16.ofNat_add, UInt16.add_assoc,
      UInt16.add_comm (UInt16.ofNat n)]
    rfl

/-- A take that does not wait counts down to zero. -/
lemma toNat_tryTakes (ts : ℕ → T) (s : Semaphore T) (i : ℕ) :
    (tryTakes ts i s).value.toNat = s.value.toNat - i := by
  induction i with
  | zero => rfl
  | succ i ih =>
    rw [tryTakes, rtSemTake]
    split
    · rename_i hpos
      have hone : (1 : UInt16) ≤ (tryTakes ts i s).value := by
        rw [UInt16.le_iff_toNat_le]
        exact UInt16.lt_iff_toNat_lt.mp hpos
      rw [UInt16.toNat_sub_of_le _ _ hone, ih]
      rfl
    · rename_i hzero
      rw [UInt16.lt_iff_toNat_lt] at hzero
      change ¬ 0 < _ at hzero
      rw [if_pos rfl]
      change (tryTakes ts i s).value.toNat = _
      omega

lemma tryTake_result (ts : ℕ → T) (s : Semaphore T) (i : ℕ) (t : T) :
    (rtSemTake (tryTakes ts i s) t 0).2 = if i < s.value.toNat then some .eok else some .etimeout := by
  have hvalue := toNat_tryTakes ts s i
  have hpos : 0 < (tryTakes ts i s).value ↔ i < s.value.toNat := by
    rw [UInt16.lt_iff_toNat_lt, hvalue]
    change 0 < _ ↔ _
    omega
  rw [rtSemTake]
  by_cases hi : i < s.value.toNat
  · rw [if_pos (hpos.mpr hi), if_pos hi]
  · rw [if_neg fun h => hi (hpos.mp h), if_neg hi, if_pos rfl]

lemma keepsTokens_iff (t : T) (hidle : s.waits.suspend () = []) (n : ℕ) :
    KeepsTokens s n ↔ s.value.toNat + n < 2 ^ 16 := by
  have hvalue : (releases n s).value.toNat = (s.value.toNat + n) % 2 ^ 16 := by
    rw [releases_eq hidle, UInt16.toNat_add, UInt16.toNat_ofNat', Nat.add_mod_mod]
  constructor
  · intro h
    obtain ⟨hall, -⟩ := h (fun _ _ => rfl) fun _ => t
    by_contra hge
    -- one take after the other, up to the value that is left
    have hlt : (s.value.toNat + n) % 2 ^ 16 < s.value.toNat + n := by omega
    have hfail := hall _ hlt
    rw [tryTake_result, hvalue, if_neg (lt_irrefl _)] at hfail
    cases hfail
  · intro hlt _ ts
    rw [Nat.mod_eq_of_lt hlt] at hvalue
    refine ⟨fun i hi => ?_, ?_⟩
    · rw [tryTake_result, hvalue, if_pos hi]
    · rw [tryTake_result, hvalue, if_neg (lt_irrefl _)]

end Semaphore

/-! ## Nesting of a mutex -/

namespace Mutex

/-- `n` calls of `rt_mutex_take` that return `RT_EOK`; `none` if one of them does not. -/
def takes (t : T) (μ : M) (time : ℤ) : ℕ → System T M O → Option (System T M O)
  | 0, s => some s
  | n + 1, s =>
    match rtMutexTake s t μ time with
    | .ok (s, some .eok) => takes t μ time n s
    | _ => none

/-- `n` calls of `rt_mutex_release` that return `RT_EOK`. -/
def releases (t : T) (μ : M) : ℕ → System T M O → Option (System T M O)
  | 0, s => some s
  | n + 1, s =>
    match rtMutexRelease s t μ with
    | (s, .eok) => releases t μ n s
    | _ => none

/-- If `n` takes returned `RT_EOK`, the thread is the owner after fewer than `n` releases. -/
def KeepsHold (s : System T M O) (t : T) (μ : M) (n : ℕ) : Prop :=
  ∀ time s', takes t μ time n s = some s' → ∀ k < n, ∀ s'', releases t μ k s' = some s'' →
    (s''.mutex μ).owner = some t

/-- The mutex is available and nobody waits for it. -/
structure Free (s : System T M O) (μ : M) : Prop where
  owner : (s.mutex μ).owner = none
  value : (s.mutex μ).value = 1
  hold : (s.mutex μ).hold = 0
  suspend : s.waits.suspend (.inl μ) = []

/-- The thread has the mutex, with the counter `hold`. -/
structure Held (s : System T M O) (t : T) (μ : M) (hold : UInt8) : Prop where
  owner : (s.mutex μ).owner = some t
  hold : (s.mutex μ).hold = hold
  suspend : s.waits.suspend (.inl μ) = []

variable {s s' : System T M O} {t : T} {μ : M} {hold : UInt8} {time : ℤ} {n : ℕ}

lemma Free.take (h : Free s μ) (t : T) (time : ℤ) :
    ∃ s', rtMutexTake s t μ time = .ok (s', some .eok) ∧ Held s' t μ 1 := by
  have hpos : 0 < (s.mutex μ).value := by
    rw [h.value]
    decide
  rw [rtMutexTake, h.owner, if_neg nofun, if_pos hpos]
  refine ⟨_, rfl, ?_, ?_, h.suspend⟩
  · simp [System.setMutex]
  · simp [System.setMutex, h.hold]

lemma Held.take (h : Held s t μ hold) (time : ℤ) :
    ∃ s', rtMutexTake s t μ time = .ok (s', some .eok) ∧ Held s' t μ (hold + 1) := by
  rw [rtMutexTake, h.owner, if_pos rfl]
  refine ⟨_, rfl, ?_, ?_, h.suspend⟩
  · simp [System.setMutex]
  · simp [System.setMutex, h.hold]

lemma Held.takes (h : Held s t μ hold) (time : ℤ) (n : ℕ) :
    ∃ s', takes t μ time n s = some s' ∧ Held s' t μ (hold + UInt8.ofNat n) := by
  induction n generalizing s hold with
  | zero => exact ⟨s, rfl, by simpa using h⟩
  | succ n ih =>
    obtain ⟨s1, hok, h1⟩ := h.take time
    obtain ⟨s2, hrest, h2⟩ := ih h1
    refine ⟨s2, by rw [Mutex.takes, hok]; exact hrest, ?_⟩
    rw [UInt8.ofNat_add, UInt8.add_comm (UInt8.ofNat n), ← UInt8.add_assoc]
    exact h2

/-- After the first take every further one counts up. -/
lemma Free.takes (h : Free s μ) (t : T) (time : ℤ) (hn : 0 < n) :
    ∃ s', takes t μ time n s = some s' ∧ Held s' t μ (UInt8.ofNat n) := by
  obtain ⟨n, rfl⟩ := Nat.exists_eq_succ_of_ne_zero hn.ne'
  obtain ⟨s1, hok, h1⟩ := h.take t time
  obtain ⟨s2, hrest, h2⟩ := h1.takes time n
  refine ⟨s2, by rw [Mutex.takes, hok]; exact hrest, ?_⟩
  rw [Nat.succ_eq_add_one, UInt8.ofNat_add, UInt8.add_comm]
  exact h2

lemma Held.release (h : Held s t μ hold) : ∃ s', rtMutexRelease s t μ = (s', .eok) ∧
      (hold - 1 ≠ 0 → Held s' t μ (hold - 1)) ∧ (hold - 1 = 0 → (s'.mutex μ).owner = none) := by
  unfold rtMutexRelease
  rw [if_neg (not_not.mpr h.owner), h.hold]
  by_cases hzero : hold - 1 = 0
  · have hnil : (restorePriority s.waits t (s.mutex μ).originalPriority).suspend (.inl μ) = [] := by
      rw [restorePriority_eq]
      exact h.suspend
    rw [if_pos hzero]
    simp only [hnil]
    exact ⟨_, rfl, fun hne => absurd hzero hne, fun _ => by simp [System.setMutex]⟩
  · rw [if_neg hzero]
    refine ⟨_, rfl, fun _ => ⟨?_, ?_, h.suspend⟩, fun heq => absurd heq hzero⟩
    · simp [System.setMutex, h.owner]
    · simp [System.setMutex]

/-- While the counter does not reach zero the thread stays the owner. -/
lemma Held.releases {k : ℕ} (h : Held s t μ hold)
    (hne : ∀ i, 0 < i → i ≤ k → hold - UInt8.ofNat i ≠ 0) :
    ∃ s', releases t μ k s = some s' ∧ Held s' t μ (hold - UInt8.ofNat k) := by
  induction k generalizing s hold with
  | zero => exact ⟨s, rfl, by simpa using h⟩
  | succ k ih =>
    obtain ⟨s1, hok, hheld, -⟩ := h.release
    have hsub : ∀ i, hold - UInt8.ofNat (i + 1) = hold - 1 - UInt8.ofNat i := by
      intro i
      apply UInt8.toNat_inj.mp
      simp only [UInt8.toNat_sub, UInt8.toNat_ofNat', UInt8.toNat_one]
      omega
    obtain ⟨s2, hrest, h2⟩ := ih (hheld (hne 1 (by omega) (by omega))) fun i hi hik => by
      rw [← hsub]
      exact hne (i + 1) (by omega) (by omega)
    refine ⟨s2, by rw [Mutex.releases, hok]; exact hrest, ?_⟩
    rw [hsub]
    exact h2

lemma releases_succ (t : T) (μ : M) (k : ℕ) (s : System T M O) :
    releases t μ (k + 1) s = (releases t μ k s).bind (releases t μ 1) := by
  induction k generalizing s with
  | zero => rfl
  | succ k ih =>
    rw [Mutex.releases]
    conv_rhs => rw [Mutex.releases]
    split
    · exact ih _
    · rfl

lemma sub_ofNat_eq_zero_iff {n i : ℕ} :
    UInt8.ofNat n - UInt8.ofNat i = 0 ↔ n % 256 = i % 256 := by
  rw [← UInt8.toNat_inj]
  simp only [UInt8.toNat_sub, UInt8.toNat_ofNat']
  change _ = 0 ↔ _
  omega

lemma keepsHold_iff (h : Free s μ) (t : T) (n : ℕ) : KeepsHold s t μ n ↔ n ≤ 256 := by
  constructor
  · intro hkeeps
    by_contra hgt
    obtain ⟨s1, htakes, h1⟩ := h.takes t 0 (n := n) (by omega)
    -- the first release after which the counter is zero
    set j := (n - 1) % 256 with hj
    obtain ⟨s2, hrel, h2⟩ := h1.releases (k := j) fun i hi hij => by
      rw [ne_eq, sub_ofNat_eq_zero_iff]
      omega
    obtain ⟨s3, hlast, -, hnone⟩ := h2.release
    have hsub : UInt8.ofNat n - UInt8.ofNat j - 1 = UInt8.ofNat n - UInt8.ofNat (j + 1) := by
      apply UInt8.toNat_inj.mp
      simp only [UInt8.toNat_sub, UInt8.toNat_ofNat', UInt8.toNat_one]
      omega
    have hzero : UInt8.ofNat n - UInt8.ofNat j - 1 = 0 := by
      rw [hsub, sub_ofNat_eq_zero_iff]
      omega
    have hall : releases t μ (j + 1) s1 = some s3 := by
      rw [releases_succ, hrel, Option.bind_some, Mutex.releases, hlast]
      rfl
    have howner := hkeeps 0 s1 htakes (j + 1) (by omega) s3 hall
    rw [hnone hzero] at howner
    cases howner
  · intro hle time s1 htakes k hk s2 hrel
    obtain ⟨s1', htakes', h1⟩ := h.takes t time (n := n) (by omega)
    obtain rfl := Option.some.inj (htakes.symm.trans htakes')
    obtain ⟨s2', hrel', h2⟩ := h1.releases (k := k) fun i hi hik => by
      rw [ne_eq, sub_ofNat_eq_zero_iff]
      omega
    obtain rfl := Option.some.inj (hrel.symm.trans hrel')
    exact h2.owner
end Mutex

/-- For every semaphore that nobody waits for, every available mutex and every number of operations:
the tokens of `n` releases are kept exactly if the value stays below `2 ^ 16`, and a thread that took the
mutex `n` times keeps it for `n` releases exactly if `n` is at most 256. -/
theorem counters_iff (s : Semaphore T) (hidle : s.waits.suspend () = []) (sys : System T M O) (t : T)
    (μ : M) (hfree : Mutex.Free sys μ) (n : ℕ) :
    (s.KeepsTokens n ↔ s.value.toNat + n < 2 ^ 16) ∧ (Mutex.KeepsHold sys t μ n ↔ n ≤ 256) :=
  ⟨Semaphore.keepsTokens_iff t hidle n, Mutex.keepsHold_iff hfree t n⟩

/-- A semaphore with the value zero and one thread. -/
def emptySemaphore : Semaphore Unit := ⟨0, ⟨fun _ => ⟨0, .eok, .running⟩, fun _ => [], fun _ => .fifo⟩⟩

/-- A mutex after `rt_mutex_init` and one thread. -/
def newMutex : System Unit Unit Unit :=
  ⟨⟨fun _ => ⟨0, .eok, .running⟩, fun _ => [], fun _ => .fifo⟩, fun _ => rtMutexInit⟩

lemma free_newMutex : Mutex.Free newMutex () := ⟨rfl, rfl, rfl, rfl⟩

/-- 256 operations. -/
theorem counters_256 : emptySemaphore.waits.suspend () = [] ∧ Mutex.Free newMutex () ∧
    emptySemaphore.KeepsTokens 256 ∧ Mutex.KeepsHold newMutex () () 256 :=
  have h := counters_iff emptySemaphore rfl newMutex () () free_newMutex 256
  ⟨rfl, free_newMutex, h.1.mpr (by decide), h.2.mpr le_rfl⟩

/-- After `2 ^ 16` releases there is no token, and after 257 takes the first release gives the mutex
away. -/
theorem not_counters_wrap : (Semaphore.releases (2 ^ 16) emptySemaphore).value = 0 ∧
    ¬ emptySemaphore.KeepsTokens (2 ^ 16) ∧ ¬ Mutex.KeepsHold newMutex () () 257 := by
  refine ⟨?_, fun h => ?_, fun h => ?_⟩
  · rw [Semaphore.releases_eq rfl]
    rfl
  · exact absurd ((Semaphore.keepsTokens_iff () rfl _).mp h) (by decide)
  · exact absurd ((Mutex.keepsHold_iff free_newMutex () _).mp h) (by decide)
end Ipc
