import Mathlib.Data.Int.Bitwise
import Mathlib.Data.UInt
import Mathlib.Tactic

/-!
# The pressure sensor

Embedding of the compensation in `drv_ms5837.c`. The signed fields and the results of signed operations
are integers. An operation whose result is outside of its type has no defined value, and the embedding
ends with `none` (`int32`, `int64`). The subtraction of two `uint32_t` wraps around, and so does a
conversion to `int32_t`. A shift to the right of a signed value is a division that rounds down.
-/

namespace Drivers.Ms5837

open Option

/-- `ms5837_st`. -/
structure Inst where
  /-- `C`. -/
  coef : ℕ → UInt16
  d1 : UInt32
  d2 : UInt32
  dT : ℤ
  temp : ℤ
  off : ℤ
  sens : ℤ
  p : ℤ
  ti : ℤ
  offi : ℤ
  sensi : ℤ
  temp2 : ℤ
  p2 : ℤ

def int32 (x : ℤ) : Option ℤ := if -2 ^ 31 ≤ x ∧ x < 2 ^ 31 then some x else none

/-- The result of an operation on `int64_t`. -/
def int64 (x : ℤ) : Option ℤ := if -2 ^ 63 ≤ x ∧ x < 2 ^ 63 then some x else none

/-- `(int32_t)x`. -/
def toInt32 (x : ℤ) : ℤ := x.bmod (2 ^ 32)

/-- The two branches behind `dT`, `OFF` and `SENS`. -/
def clamp (lo hi x : ℤ) : ℤ := if x < lo then lo else if hi < x then hi else x

/-- `update_sensor_raw`, with the conversions of 24 bits that `ms5837_rd_adc` returns. -/
def updateSensorRaw (s : Inst) (d1 d2 : BitVec 24) : Inst :=
  { s with d1 := ⟨d1.setWidth 32⟩, d2 := ⟨d2.setWidth 32⟩ }

/-- `C[i]`, converted to `int64_t`. -/
def Inst.c (s : Inst) (i : ℕ) : ℤ := (s.coef i).toNat

def calc1stOrd (s : Inst) : Option Inst := do
  let c5 ← int32 (s.c 5 * 2 ^ 8)
  let dT := clamp (-16776960) 16777215 (toInt32 ((s.d2.toNat - c5) % 2 ^ 32))
  let dTC6 ← int64 (dT * s.c 6)
  let temp ← int64 (2000 + dTC6 / 2 ^ 23)
  let c2 ← int64 (s.c 2 * 2 ^ 16)
  let dTC4 ← int64 (dT * s.c 4)
  let off ← int64 (c2 + dTC4 / 2 ^ 7)
  let off := clamp (-17179344900) 25769410560 off
  let c1 ← int64 (s.c 1 * 2 ^ 15)
  let dTC3 ← int64 (dT * s.c 3)
  let sens ← int64 (c1 + dTC3 / 2 ^ 8)
  let sens := clamp (-8589672450) 12884705280 sens
  let d1Sens ← int64 (s.d1.toNat * sens)
  let diff ← int64 (d1Sens / 2 ^ 21 - off)
  some { s with dT, temp := toInt32 temp, off, sens, p := toInt32 (diff / 2 ^ 13) }

/-- The formulas of `calc_1st_ord` over the integers. -/
def firstOrd (s : Inst) : Inst :=
  let dT := s.d2.toNat - s.c 5 * 2 ^ 8
  let off := s.c 2 * 2 ^ 16 + dT * s.c 4 / 2 ^ 7
  let sens := s.c 1 * 2 ^ 15 + dT * s.c 3 / 2 ^ 8
  { s with
    dT, off, sens
    temp := 2000 + dT * s.c 6 / 2 ^ 23
    p := (s.d1.toNat * sens / 2 ^ 21 - off) / 2 ^ 13 }

/-- `Ti`, `OFFi` and `SENSi` of `calc_2nd_ord`. The operator `^` is the exclusive or, and binds less
than the sums and the shifts. -/
def terms (s : Inst) : Option (ℤ × ℤ × ℤ) :=
  if s.temp < 2000 then do
    let ti ← int32 (s.dT / 2 ^ 16 * (s.dT / 2 ^ 17))
    let ti ← int32 (ti * 3)
    let a ← int64 (s.temp - 2000)
    let a3 ← int64 (3 * a)
    let offi := Int.xor a3 (2 / 2 ^ 1)
    let a5 ← int64 (5 * a)
    let sensi := Int.xor a5 (2 / 2 ^ 3)
    if s.temp < -15 then do
      let b ← int64 (s.temp + 1500)
      let b7 ← int64 (7 * b)
      let sumOff ← int64 (offi + b7)
      let sumSens ← int64 (sensi + b)
      some (ti, Int.xor sumOff 2, Int.xor sumSens (2 * 2 ^ 2))
    else some (ti, offi, sensi)
  else do
    let ti ← int32 (s.dT / 2 ^ 16 * (s.dT / 2 ^ 16))
    let a ← int64 (s.temp - 2000)
    some (ti, Int.xor a (2 / 2 ^ 4), 0)

def calc2ndOrd (s : Inst) : Option Inst := do
  let (ti, offi, sensi) ← terms s
  let temp2 ← int32 (s.temp - ti)
  let sens ← int64 (s.sens - sensi)
  let d1Sens ← int64 (s.d1.toNat * sens)
  let off ← int64 (s.off - offi)
  let diff ← int64 (d1Sens / 2 ^ 21 - off)
  some { s with ti, offi, sensi, temp2, p2 := toInt32 (diff / 2 ^ 13) }

variable {s : Inst} {f : Inst} {x : ℤ}

lemma int32_of_mem (h : -2 ^ 31 ≤ x ∧ x < 2 ^ 31) : int32 x = some x := if_pos h

lemma int64_of_mem (h : -2 ^ 63 ≤ x ∧ x < 2 ^ 63) : int64 x = some x := if_pos h

lemma clamp_of_mem {lo hi x : ℤ} (h : lo ≤ x ∧ x ≤ hi) : clamp lo hi x = x := by
  rw [clamp, if_neg (by omega), if_neg (by omega)]

lemma toInt32_of_mem (h : -2 ^ 31 ≤ x ∧ x < 2 ^ 31) : toInt32 x = x := by
  rw [toInt32, Int.bmod_def]
  split <;> omega

lemma c_mem (s : Inst) (i : ℕ) : 0 ≤ s.c i ∧ s.c i ≤ 65535 := by
  have := (s.coef i).toNat_lt
  unfold Inst.c
  omega

lemma mul_mem {x c l u n : ℤ} (hx : l ≤ x ∧ x ≤ u) (hc : 0 ≤ c ∧ c ≤ n) (hl : l ≤ 0) (hu : 0 ≤ u) :
    l * n ≤ x * c ∧ x * c ≤ u * n := by
  constructor <;> nlinarith

/-- The ranges of the first-order results. -/
structure Ranges (f : Inst) : Prop where
  dT : -16776960 ≤ f.dT ∧ f.dT ≤ 16777215
  temp : -129072 ≤ f.temp ∧ f.temp ≤ 133071
  off : -8589803520 ≤ f.off ∧ f.off ≤ 12884770560
  sens : -4294901760 ≤ f.sens ∧ f.sens ≤ 6442385280
  prod : -4294901760 * 16777215 ≤ f.d1.toNat * f.sens ∧ f.d1.toNat * f.sens ≤ 6442385280 * 16777215

section FirstOrder

variable (h1 : s.d1.toNat < 2 ^ 24) (h2 : s.d2.toNat < 2 ^ 24)
include h2

lemma dT_mem : -16776960 ≤ (firstOrd s).dT ∧ (firstOrd s).dT ≤ 16777215 := by
  have h5 := c_mem s 5
  simp only [firstOrd]
  omega

lemma dT_mul_mem (i : ℕ) : -16776960 * 65535 ≤ (firstOrd s).dT * s.c i ∧
    (firstOrd s).dT * s.c i ≤ 16777215 * 65535 :=
  mul_mem (dT_mem h2) (c_mem s i) (by decide) (by decide)

include h1

lemma ranges_firstOrd : Ranges (firstOrd s) := by
  have h3 := dT_mul_mem h2 3
  have h4 := dT_mul_mem h2 4
  have h6 := dT_mul_mem h2 6
  have hc1 := c_mem s 1
  have hc2 := c_mem s 2
  have hsens : -4294901760 ≤ (firstOrd s).sens ∧ (firstOrd s).sens ≤ 6442385280 := by
    simp only [firstOrd] at *
    omega
  have hprod := mul_mem (c := s.d1.toNat) (n := 16777215) hsens (by omega) (by decide) (by decide)
  rw [mul_comm (firstOrd s).sens] at hprod
  refine ⟨dT_mem h2, ?_, ?_, hsens, hprod⟩ <;> simp only [firstOrd] at * <;> omega

/-- `calc_1st_ord` computes its formulas over the integers: no operation overflows, and no branch that
bounds a value changes it. -/
lemma calc1stOrd_eq : calc1stOrd s = some (firstOrd s) := by
  obtain ⟨hdT, htemp, hoff, hsens, hprod⟩ := ranges_firstOrd h1 h2
  rw [show (firstOrd s).d1 = s.d1 from rfl] at hprod
  have hc5 : int32 (s.c 5 * 2 ^ 8) = some (s.c 5 * 2 ^ 8) :=
    int32_of_mem (by have := c_mem s 5; omega)
  have hsub : toInt32 ((s.d2.toNat - s.c 5 * 2 ^ 8) % 2 ^ 32) = (firstOrd s).dT := by
    rw [toInt32, show (2 : ℤ) ^ 32 = ((2 ^ 32 : ℕ) : ℤ) by norm_num, Int.emod_bmod]
    exact toInt32_of_mem (x := (firstOrd s).dT) (by omega)
  have hmul : ∀ i, int64 ((firstOrd s).dT * s.c i) = some ((firstOrd s).dT * s.c i) := fun i =>
    int64_of_mem (by have := dT_mul_mem h2 i; omega)
  have htemp' : int64 (2000 + (firstOrd s).dT * s.c 6 / 2 ^ 23) = some (firstOrd s).temp :=
    int64_of_mem (x := (firstOrd s).temp) (by omega)
  have hc2 : int64 (s.c 2 * 2 ^ 16) = some (s.c 2 * 2 ^ 16) :=
    int64_of_mem (by have := c_mem s 2; omega)
  have hoff' : int64 (s.c 2 * 2 ^ 16 + (firstOrd s).dT * s.c 4 / 2 ^ 7) = some (firstOrd s).off :=
    int64_of_mem (x := (firstOrd s).off) (by omega)
  have hc1 : int64 (s.c 1 * 2 ^ 15) = some (s.c 1 * 2 ^ 15) :=
    int64_of_mem (by have := c_mem s 1; omega)
  have hsens' : int64 (s.c 1 * 2 ^ 15 + (firstOrd s).dT * s.c 3 / 2 ^ 8) = some (firstOrd s).sens :=
    int64_of_mem (x := (firstOrd s).sens) (by omega)
  have hd1 : int64 (s.d1.toNat * (firstOrd s).sens) = some (s.d1.toNat * (firstOrd s).sens) :=
    int64_of_mem (by omega)
  have hdiff : int64 (s.d1.toNat * (firstOrd s).sens / 2 ^ 21 - (firstOrd s).off) =
      some (s.d1.toNat * (firstOrd s).sens / 2 ^ 21 - (firstOrd s).off) := int64_of_mem (by omega)
  have hclamp : clamp (-17179344900) 25769410560 (firstOrd s).off = (firstOrd s).off :=
    clamp_of_mem (by omega)
  have hclamp' : clamp (-8589672450) 12884705280 (firstOrd s).sens = (firstOrd s).sens :=
    clamp_of_mem (by omega)
  have hcast : toInt32 (firstOrd s).temp = (firstOrd s).temp :=
    toInt32_of_mem (by omega)
  simp only [calc1stOrd, bind_eq_bind, bind_some, hc5, hsub, clamp_of_mem hdT, hmul,
    htemp', hc2, hoff', hc1, hsens', hd1, hdiff, hclamp, hclamp', hcast]
  rw [toInt32_of_mem (by omega)]
  rfl

end FirstOrder

lemma toNat_updateSensorRaw (s : Inst) (d1 d2 : BitVec 24) :
    (updateSensorRaw s d1 d2).d1.toNat < 2 ^ 24 ∧ (updateSensorRaw s d1 d2).d2.toNat < 2 ^ 24 := by
  simp only [updateSensorRaw, UInt32.toNat_ofBitVec, BitVec.toNat_setWidth]
  omega

/-- `calc_1st_ord` computes its formulas over the integers: no operation overflows, and no branch that
bounds a value changes it. -/
theorem calc1stOrd_exact (s : Inst) (d1 d2 : BitVec 24) :
    calc1stOrd (updateSensorRaw s d1 d2) = some (firstOrd (updateSensorRaw s d1 d2)) := by
  obtain ⟨h1, h2⟩ := toNat_updateSensorRaw s d1 d2
  exact calc1stOrd_eq h1 h2

/-! ## Second order -/

/-- The compensation: `OFFi` and `SENSi` are multiples of squares, and `TEMP2` and `P2` follow. -/
structure Compensates (s s' : Inst) : Prop where
  offi : s'.offi = if s.temp < 2000 then
      3 * (s.temp - 2000) ^ 2 / 2 ^ 1 + (if s.temp < -1500 then 7 * (s.temp + 1500) ^ 2 else 0)
    else (s.temp - 2000) ^ 2 / 2 ^ 4
  sensi : s'.sensi = if s.temp < 2000 then
      5 * (s.temp - 2000) ^ 2 / 2 ^ 3 + (if s.temp < -1500 then (s.temp + 1500) ^ 2 * 2 ^ 2 else 0)
    else 0
  temp2 : s'.temp2 = s.temp - s'.ti
  p2 : s'.p2 = (s.d1.toNat * (s.sens - s'.sensi) / 2 ^ 21 - (s.off - s'.offi)) / 2 ^ 13

lemma eq_of_int64 {x y : ℤ} (h : int64 x = some y) : y = x :=
  (some.inj (ite_none_right_eq_some.mp h).2).symm

lemma xor_zero (x : ℤ) : Int.xor x 0 = x := by
  cases x <;> simp [Int.xor]

/-- An exclusive or with a small number keeps the sign and all but the last four bits. -/
lemma xor_near (x : ℤ) {k : ℕ} (hk : k < 16) :
    x - 16 < Int.xor x k ∧ Int.xor x k < x + 16 ∧ (x < 0 → Int.xor x k < 0) := by
  have hnat : ∀ m : ℕ, (m ^^^ k) / 2 ^ 4 = m / 2 ^ 4 := fun m => by
    rw [← Nat.shiftRight_eq_div_pow, Nat.shiftRight_xor_distrib, Nat.shiftRight_eq_div_pow k,
      Nat.div_eq_of_lt hk, Nat.xor_zero, Nat.shiftRight_eq_div_pow]
  cases x with
  | ofNat m =>
    have := hnat m
    simp only [Int.xor, Int.ofNat_eq_natCast]
    omega
  | negSucc m =>
    have := hnat m
    simp only [Int.xor, Int.negSucc_eq]
    omega

/-- Below 20 degrees `OFFi` is less than the multiple of the square. -/
lemma offi_lt {t : ℤ × ℤ × ℤ} (h : terms s = some t) (htemp : s.temp < 2000) :
    t.2.1 < 3 * (s.temp - 2000) ^ 2 / 2 ^ 1 := by
  have hsq := sq_nonneg (s.temp - 2000)
  have hone := xor_near (3 * (s.temp - 2000)) (k := 1) (by decide)
  rw [terms, if_pos htemp] at h
  simp only [bind_eq_bind, bind_eq_some_iff] at h
  obtain ⟨-, -, ti, -, a, ha, a3, ha3, a5, -, h⟩ := h
  obtain rfl := eq_of_int64 ha
  obtain rfl := eq_of_int64 ha3
  split at h
  case isTrue hlow =>
    simp only [bind_eq_some_iff] at h
    obtain ⟨b, hb, b7, hb7, sum, hsum, -, -, ⟨⟩⟩ := h
    obtain rfl := eq_of_int64 hb
    obtain rfl := eq_of_int64 hb7
    obtain rfl := eq_of_int64 hsum
    have htwo := xor_near (Int.xor (3 * (s.temp - 2000)) 1 + 7 * (s.temp + 1500)) (k := 2) (by decide)
    have hbig : 2016 ^ 2 ≤ (s.temp - 2000) ^ 2 := by nlinarith
    norm_num at *
    omega
  case isFalse =>
    cases h
    have := hone.2.2 (by omega)
    norm_num at *
    omega

/-- The multiple of the square is the number itself. -/
lemma sq_div_eq_iff {a : ℤ} (ha : 0 ≤ a) : a = a ^ 2 / 2 ^ 4 ↔ a = 0 ∨ a = 16 := by
  constructor
  · intro h
    rcases lt_or_ge a 17 with hlt | hge
    · interval_cases a <;> omega
    · have : 17 * a ≤ a ^ 2 := by nlinarith
      omega
  · rintro (rfl | rfl) <;> decide

lemma Ranges.terms_eq (h : Ranges f) (htemp : 2000 ≤ f.temp) :
    terms f = some (f.dT / 2 ^ 16 * (f.dT / 2 ^ 16), f.temp - 2000, 0) ∧
      0 ≤ f.dT / 2 ^ 16 * (f.dT / 2 ^ 16) ∧ f.dT / 2 ^ 16 * (f.dT / 2 ^ 16) ≤ 2 ^ 16 := by
  have hdT := h.dT
  have hrange := h.temp
  have hti : 0 ≤ f.dT / 2 ^ 16 * (f.dT / 2 ^ 16) ∧ f.dT / 2 ^ 16 * (f.dT / 2 ^ 16) ≤ 2 ^ 16 := by
    have hlo : -256 ≤ f.dT / 2 ^ 16 := by omega
    have hhi : f.dT / 2 ^ 16 ≤ 255 := by omega
    constructor <;> nlinarith
  have hti' : int32 (f.dT / 2 ^ 16 * (f.dT / 2 ^ 16)) = some _ := int32_of_mem (by omega)
  have ha : int64 (f.temp - 2000) = some _ := int64_of_mem (by omega)
  refine ⟨?_, hti⟩
  simp only [terms, if_neg (not_lt.mpr htemp), bind_eq_bind, hti', ha, bind_some]
  exact congrArg (fun x => some (_, x, 0)) (xor_zero _)

lemma Ranges.terms_mem (h : Ranges f) : ∃ ti offi sensi,
    terms f = some (ti, offi, sensi) ∧ (-2 ^ 17 ≤ ti ∧ ti ≤ 2 ^ 17) ∧
      (-2 ^ 21 ≤ offi ∧ offi ≤ 2 ^ 21) ∧ -2 ^ 21 ≤ sensi ∧ sensi ≤ 2 ^ 21 := by
  have hdT := h.dT
  have htemp := h.temp
  by_cases hlow : f.temp < 2000
  · have hti : -2 ^ 15 ≤ f.dT / 2 ^ 16 * (f.dT / 2 ^ 17) ∧
        f.dT / 2 ^ 16 * (f.dT / 2 ^ 17) ≤ 2 ^ 15 := by
      have hlo : -256 ≤ f.dT / 2 ^ 16 ∧ f.dT / 2 ^ 16 ≤ 255 := by omega
      have hhi : -128 ≤ f.dT / 2 ^ 17 ∧ f.dT / 2 ^ 17 ≤ 127 := by omega
      constructor <;> nlinarith
    have hti1 : int32 (f.dT / 2 ^ 16 * (f.dT / 2 ^ 17)) = some _ := int32_of_mem (by omega)
    have hti2 : int32 (f.dT / 2 ^ 16 * (f.dT / 2 ^ 17) * 3) = some _ := int32_of_mem (by omega)
    have ha : int64 (f.temp - 2000) = some _ := int64_of_mem (by omega)
    have ha3 : int64 (3 * (f.temp - 2000)) = some _ := int64_of_mem (by omega)
    have ha5 : int64 (5 * (f.temp - 2000)) = some _ := int64_of_mem (by omega)
    have hone := xor_near (3 * (f.temp - 2000)) (k := 1) (by decide)
    have hzero := xor_zero (5 * (f.temp - 2000))
    simp only [terms, if_pos hlow, bind_eq_bind, bind_some, hti1, hti2, ha, ha3, ha5,
      show (2 : ℤ) / 2 ^ 1 = (1 : ℕ) by decide, show (2 : ℤ) / 2 ^ 3 = 0 by decide, hzero]
    generalize Int.xor (3 * (f.temp - 2000)) (1 : ℕ) = offi at hone ⊢
    split
    case isTrue hcold =>
      have hb : int64 (f.temp + 1500) = some _ := int64_of_mem (by omega)
      have hb7 : int64 (7 * (f.temp + 1500)) = some _ := int64_of_mem (by omega)
      have hoff : int64 (offi + 7 * (f.temp + 1500)) = some _ := int64_of_mem (by omega)
      have hsens : int64 (5 * (f.temp - 2000) + (f.temp + 1500)) = some _ := int64_of_mem (by omega)
      have htwo := xor_near (offi + 7 * (f.temp + 1500)) (k := 2) (by decide)
      have height := xor_near (5 * (f.temp - 2000) + (f.temp + 1500)) (k := 8) (by decide)
      simp only [hb, hb7, hoff, hsens, bind_some]
      refine ⟨_, _, _, rfl, by omega, ?_, ?_⟩
      · push_cast at htwo
        omega
      · push_cast at height
        norm_num
        omega
    case isFalse => exact ⟨_, _, _, rfl, by omega, by omega, by omega⟩
  · have hterms := (h.terms_eq (not_lt.mp hlow))
    exact ⟨_, _, _, hterms.1, by omega, by omega, by omega⟩

/-- No operation of the second order overflows. -/
lemma Ranges.calc2ndOrd_eq (h : Ranges f) (hd1 : f.d1.toNat < 2 ^ 24) : ∃ ti offi sensi,
    terms f = some (ti, offi, sensi) ∧ calc2ndOrd f = some { f with
      ti, offi, sensi
      temp2 := f.temp - ti
      p2 := (f.d1.toNat * (f.sens - sensi) / 2 ^ 21 - (f.off - offi)) / 2 ^ 13 } := by
  obtain ⟨ti, offi, sensi, hterms, hti, hoffi, hsensi⟩ := h.terms_mem
  obtain ⟨-, htemp, hoff, hsens, -⟩ := h
  have hsub : -2 ^ 34 ≤ f.sens - sensi ∧ f.sens - sensi ≤ 2 ^ 34 := by omega
  have hprod := mul_mem (c := f.d1.toNat) (n := 2 ^ 24) hsub (by omega) (by decide) (by decide)
  rw [mul_comm (f.sens - sensi)] at hprod
  have htemp2 : int32 (f.temp - ti) = some _ := int32_of_mem (by omega)
  have hsens' : int64 (f.sens - sensi) = some _ := int64_of_mem (by omega)
  have hd1 : int64 (f.d1.toNat * (f.sens - sensi)) = some _ := int64_of_mem (by omega)
  have hoff' : int64 (f.off - offi) = some _ := int64_of_mem (by omega)
  have hdiff : int64 (f.d1.toNat * (f.sens - sensi) / 2 ^ 21 - (f.off - offi)) = some _ :=
    int64_of_mem (by omega)
  refine ⟨ti, offi, sensi, hterms, ?_⟩
  simp only [calc2ndOrd, bind_eq_bind, bind_some, hterms, htemp2, hsens', hd1, hoff', hdiff]
  rw [toInt32_of_mem (by omega)]

/-- The second order is as it should be exactly at two temperatures. -/
lemma Ranges.compensates_iff (h : Ranges f) (hd1 : f.d1.toNat < 2 ^ 24) :
    (∃ s', calc2ndOrd f = some s' ∧ Compensates f s') ↔ f.temp = 2000 ∨ f.temp = 2016 := by
  obtain ⟨ti, offi, sensi, hterms, hcalc⟩ := h.calc2ndOrd_eq hd1
  constructor
  · rintro ⟨s', hs', hcomp⟩
    obtain rfl := some.inj (hcalc.symm.trans hs')
    have hoffi := hcomp.offi
    by_cases htemp : f.temp < 2000
    · have hlt : offi < _ := offi_lt hterms htemp
      have hsq := sq_nonneg (f.temp + 1500)
      rw [if_pos htemp] at hoffi
      simp only at hoffi
      split at hoffi <;> omega
    · rw [if_neg htemp] at hoffi
      obtain ⟨⟩ := (h.terms_eq (not_lt.mp htemp)).1.symm.trans hterms
      have := (sq_div_eq_iff (a := f.temp - 2000) (by omega)).mp hoffi
      omega
  · intro htemp
    obtain ⟨⟩ := (h.terms_eq (by omega)).1.symm.trans hterms
    refine ⟨_, hcalc, ⟨?_, ?_, rfl, rfl⟩⟩
    · rw [if_neg (by omega)]
      exact (sq_div_eq_iff (a := f.temp - 2000) (by omega)).mpr (by omega)
    · rw [if_neg (by omega)]

/-- For the first-order results of conversions of 24 bits, `calc_2nd_ord` computes the compensation
exactly if `TEMP` is 2000 or 2016. -/
theorem calc2ndOrd_iff (s : Inst) (d1 d2 : BitVec 24) :
    ∃ f, calc1stOrd (updateSensorRaw s d1 d2) = some f ∧
      ((∃ s', calc2ndOrd f = some s' ∧ Compensates f s') ↔ f.temp = 2000 ∨ f.temp = 2016) := by
  obtain ⟨h1, h2⟩ := toNat_updateSensorRaw s d1 d2
  exact ⟨_, calc1stOrd_eq h1 h2, (ranges_firstOrd h1 h2).compensates_iff h1⟩

def warm : Inst :=
  ⟨fun i => if i = 6 then 1 else 0, 0, 0, 0, 0, 0, 0, 0, 0, 0, 0, 0, 0⟩

/-- At 20.01 degrees `OFFi` is 1 and should be 0. -/
theorem not_compensates_warm : ∃ f, calc1stOrd (updateSensorRaw warm 0 (2 ^ 23)) = some f ∧
    f.temp = 2001 ∧ ¬ ∃ s', calc2ndOrd f = some s' ∧ Compensates f s' := by
  obtain ⟨h1, h2⟩ := toNat_updateSensorRaw warm 0 (2 ^ 23)
  have htemp : (firstOrd (updateSensorRaw warm 0 (2 ^ 23))).temp = 2001 := by decide
  refine ⟨_, calc1stOrd_eq h1 h2, htemp, ?_⟩
  rw [(ranges_firstOrd h1 h2).compensates_iff h1, htemp]
  decide

end Drivers.Ms5837
