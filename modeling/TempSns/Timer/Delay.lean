import TempSns.Timer.TimerThread

/-!
# Milliseconds and ticks

`rt_tick_from_millisecond` of `src/clock.c` and `rt_thread_mdelay` of `src/thread.c`. The number of
ticks is rounded up, in 32-bit arithmetic of `int`: the product of the tick rate and the time wraps
long before the time reaches the documented maximum `0x7fffffff`.
-/

namespace Timer

open Links WrapTime

def rtWaitingForever : BitVec 32 := -1

/-- `rt_tick_from_millisecond`; `rate` is `RT_TICK_PER_SECOND`. -/
def rtTickFromMillisecond (rate : ℕ) (ms : BitVec 32) : BitVec 32 :=
  if ms.toInt < 0 then rtWaitingForever
  else (BitVec.ofNat 32 rate * ms + 999).sdiv 1000

/-- `rt_thread_mdelay` of the thread with the timer `thread`, up to the call of the scheduler. -/
def rtThreadMdelay {X : Type} [DecidableEq X] (cfg : Config) (rate fuel : ℕ) (s : State X)
    (thread : X) (ms : BitVec 32) : Except Fault (State X) :=
  rtThreadDelay cfg fuel s thread (rtTickFromMillisecond rate ms)

variable {rate : ℕ} {ms : BitVec 32}

/-- `n` ticks last at least `ms` milliseconds. -/
def Covers (rate : ℕ) (ms : BitVec 32) (n : ℤ) : Prop :=
  (rate * ms.toNat : ℤ) ≤ 1000 * n

/-- The conversion of `ms` milliseconds is right. -/
structure ConvertsRight (rate : ℕ) (ms : BitVec 32) : Prop where
  /-- The result is the smallest number of ticks that is long enough. -/
  least : IsLeast {n | Covers rate ms n} (rtTickFromMillisecond rate ms).toInt
  /-- No shorter time gives more ticks. -/
  mono : ∀ ms', ms'.toNat ≤ ms.toNat →
    (rtTickFromMillisecond rate ms').toInt ≤ (rtTickFromMillisecond rate ms).toInt
  /-- A thread sleeps for this time at least, in any state of the timers. -/
  sleeps : ∀ {X : Type} [DecidableEq X] (cfg : Config) (s : State X) (thread : X),
    0 < cfg.levels → WellLinked cfg s → listOf cfg s thread = false →
    ∃ s', Returns (fun fuel => rtThreadMdelay cfg rate fuel s thread ms) s' ∧
      Pending cfg s' false thread ∧ ∃ n, ExpiresIn s' thread n ∧ Covers rate ms n

/-! ## Value -/

lemma isLeast_covers : IsLeast {n | Covers rate ms n} ((rate * ms.toNat + 999 : ℤ) / 1000) := by
  constructor
  · simp only [Set.mem_ofPred_eq, Covers]
    omega
  · intro n hn
    simp only [Set.mem_ofPred_eq, Covers] at hn
    omega

lemma toNat_product : (BitVec.ofNat 32 rate * ms + 999).toNat =
    (rate * ms.toNat + 999) % 2 ^ 32 := by
  simp only [BitVec.toNat_add, BitVec.toNat_mul, BitVec.toNat_ofNat]
  rw [Nat.mod_mul_mod]
  simp

lemma tdiv_thousand (v : ℤ) :
    (0 ≤ v ∧ v.tdiv 1000 = v / 1000) ∨ (v < 0 ∧ v.tdiv 1000 = -(-v / 1000)) := by
  rcases lt_or_ge v 0 with hneg | hpos
  · refine .inr ⟨hneg, ?_⟩
    rw [← Int.tdiv_eq_ediv_of_nonneg (by omega), Int.neg_tdiv, neg_neg]
  · exact .inl ⟨hpos, Int.tdiv_eq_ediv_of_nonneg hpos⟩

/-- The value for a time that is not negative. -/
lemma toInt_rtTickFromMillisecond (hms : ms.toNat < 2 ^ 31) :
    (rtTickFromMillisecond rate ms).toInt = (BitVec.ofNat 32 rate * ms + 999).toInt.tdiv 1000 := by
  have hpos : ¬ ms.toInt < 0 := by
    rw [BitVec.toInt_eq_toNat_of_lt (by omega)]
    omega
  rw [rtTickFromMillisecond, if_neg hpos, BitVec.toInt_sdiv]
  have hlow := BitVec.le_two_mul_toInt (x := BitVec.ofNat 32 rate * ms + 999)
  have hup := BitVec.two_mul_toInt_lt (x := BitVec.ofNat 32 rate * ms + 999)
  generalize (BitVec.ofNat 32 rate * ms + 999).toInt = v at hlow hup ⊢
  change (v.tdiv 1000).bmod _ = _
  have hdiv := tdiv_thousand v
  rw [Int.bmod_eq_of_le] <;> omega

/-- Without an overflow the value is the time in ticks, rounded up. -/
lemma toInt_of_lt (hms : ms.toNat < 2 ^ 31) (hlt : rate * ms.toNat + 999 < 2 ^ 31) :
    (rtTickFromMillisecond rate ms).toInt = (rate * ms.toNat + 999 : ℤ) / 1000 := by
  have hnat : (BitVec.ofNat 32 rate * ms + 999).toNat = rate * ms.toNat + 999 :=
    toNat_product.trans (Nat.mod_eq_of_lt (hlt.trans (by decide)))
  have hsmall : 2 * (BitVec.ofNat 32 rate * ms + 999).toNat < 2 ^ 32 := by
    rw [hnat]
    exact Nat.mul_lt_mul_of_pos_left hlt two_pos
  rw [toInt_rtTickFromMillisecond hms, BitVec.toInt_eq_toNat_of_lt hsmall, hnat,
    Int.tdiv_eq_ediv_of_nonneg (Int.natCast_nonneg _)]
  push_cast
  rfl

/-- With an overflow the value is another one: it is less than `2147484`, and it is not positive if
the product is in the upper half. -/
lemma toInt_ne_of_ge (hms : ms.toNat < 2 ^ 31) (hge : 2 ^ 31 ≤ rate * ms.toNat + 999) :
    (rtTickFromMillisecond rate ms).toInt ≠ (rate * ms.toNat + 999 : ℤ) / 1000 := by
  rw [toInt_rtTickFromMillisecond hms, BitVec.toInt_eq_toNat_cond, toNat_product]
  have hcast : (rate * ms.toNat + 999 : ℤ) = (rate * ms.toNat + 999 : ℕ) := by push_cast; rfl
  rw [hcast]
  generalize rate * ms.toNat + 999 = n at hge ⊢
  have hdiv := tdiv_thousand (if 2 * (n % 2 ^ 32) < 2 ^ 32 then ((n % 2 ^ 32 : ℕ) : ℤ)
    else ((n % 2 ^ 32 : ℕ) : ℤ) - (2 ^ 32 : ℕ))
  split at hdiv
  · rw [if_pos (by assumption)]
    omega
  · rw [if_neg (by assumption)]
    omega

/-! ## Sleep -/

/-- A timer whose time is not too long expires after it, but in the next clock interrupt at the
earliest. -/
lemma expiresIn_max {X : Type} {s : State X} {x : X} {ticks : BitVec 32}
    (hlt : ticks.toNat < half) (hdead : (s.timer x).timeoutTick = s.tick + ticks) :
    ExpiresIn s x (max 1 ticks.toNat) := by
  rcases Nat.eq_zero_or_pos ticks.toNat with hzero | hpos
  · rw [hzero]
    refine ⟨by decide, ?_, fun m hm hmn => absurd hmn (by simp; omega)⟩
    simp only [Expired, hdead, BitVec.toNat_sub, BitVec.toNat_add, BitVec.toNat_ofNat, half, hzero]
    omega
  · rw [max_eq_right hpos]
    exact expiresIn_of_ahead hpos hlt hdead

lemma WellLinked.rtThreadMdelay {X : Type} [DecidableEq X] {cfg : Config} {s : State X}
    {thread : X} [NeZero cfg.levels] (h : WellLinked cfg s)
    (hthread : listOf cfg s thread = false) (hms : ms.toNat < 2 ^ 31)
    (hlt : rate * ms.toNat + 999 < 2 ^ 31) :
    ∃ s', Returns (fun fuel => rtThreadMdelay cfg rate fuel s thread ms) s' ∧
      Pending cfg s' false thread ∧ ∃ n, ExpiresIn s' thread n ∧ Covers rate ms n := by
  have hint := toInt_of_lt hms hlt
  generalize hticks : rtTickFromMillisecond rate ms = ticks at hint
  have hnat : (ticks.toNat : ℤ) = (rate * ms.toNat + 999 : ℤ) / 1000 := by
    rw [BitVec.toInt_eq_toNat_cond] at hint
    split at hint <;> omega
  have hhalf : ticks.toNat < half := by
    rw [half]
    omega
  obtain ⟨s', hret, hpend, hdead, htick⟩ := h.rtThreadDelay hthread hhalf
  refine ⟨s', ?_, hpend, max 1 ticks.toNat, expiresIn_max hhalf (htick ▸ hdead), ?_⟩
  · rw [← hticks] at hret
    exact hret
  · rw [Covers]
    push_cast
    omega

/-- For every time and tick rate of the documented range: the conversion is right exactly if the
product with the rate does not overflow. -/
theorem convertsRight_iff (rate : Set.Icc 1 1000) (ms : BitVec 32) (hms : ms.toNat ≤ 0x7fffffff) :
    ConvertsRight rate ms ↔ rate.1 * ms.toNat + 999 < 2 ^ 31 := by
  have hms' : ms.toNat < 2 ^ 31 := by omega
  constructor
  · intro h
    by_contra hge
    exact toInt_ne_of_ge hms' (not_lt.mp hge) (h.least.unique isLeast_covers)
  · intro hlt
    refine ⟨toInt_of_lt hms' hlt ▸ isLeast_covers, fun ms' hle => ?_, ?_⟩
    · -- a shorter time does not overflow either
      have hmul : rate.1 * ms'.toNat ≤ rate.1 * ms.toNat := Nat.mul_le_mul_left _ hle
      rw [toInt_of_lt hms' hlt, toInt_of_lt (by omega) (by omega)]
      omega
    · intro X _ cfg s thread hlevels hlinked hthread
      have := NeZero.of_pos hlevels
      exact hlinked.rtThreadMdelay hthread hms' hlt

/-- A time of one second. -/
theorem convertsRight_second : (1000 : BitVec 32).toNat ≤ 0x7fffffff ∧ ConvertsRight 1000 1000 :=
  ⟨by decide, (convertsRight_iff ⟨1000, by decide⟩ 1000 (by decide)).mpr (by decide)⟩

/-- A time of more than an hour is converted to one tick of a millisecond. -/
theorem not_convertsRight_hour : (4294968 : BitVec 32).toNat ≤ 0x7fffffff ∧
    rtTickFromMillisecond 1000 4294968 = 1 ∧ ¬ ConvertsRight 1000 4294968 := by
  refine ⟨by decide, by decide +kernel, fun h => ?_⟩
  have hcovers : Covers 1000 4294968 (rtTickFromMillisecond 1000 4294968).toInt := h.least.1
  revert hcovers
  unfold Covers
  decide +kernel
end Timer
