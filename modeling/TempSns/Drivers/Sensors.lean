import TempSns.Drivers.Ms5837

/-!
# The sensor registers

Embedding of `drv_tmp117.c` and of `mbs_sts_update` of `user_mb_app.c`, with the initialisation of both
sensors. The result of a transfer that reads is a parameter: the bytes that were received, or `none` if
the transfer failed. A local variable that the source does not initialise has an arbitrary value, which is
a parameter too.

`mbs_sts_update` publishes the low 16 bits of the pressure and the temperature, and it does so whether the
transfers succeeded or not.
-/

namespace Drivers.Sensors

open Ms5837 Function Option

/-! ## Temperature sensor -/

/-- The result, and the variable that gets the register. -/
def tmp117RdReg (received : Option (UInt8 × UInt8)) (rdBuf : BitVec 16) : ℤ × BitVec 16 :=
  match received with
  | none => (-1, rdBuf)
  | some (hi, lo) => (0, hi.toBitVec ++ lo.toBitVec)

/-- `tmp117_get_temp` after the register was read. -/
def tmp117Convert (temp k b : BitVec 16) : Option (BitVec 16) := do
  let raw ← int32 (temp.toInt * 100)
  let tempReg := raw / 2 ^ 7
  let scale ← int32 (100000 + k.toInt)
  let prod ← int32 (tempReg * scale)
  let sum ← int32 (prod.tdiv 100000 + b.toInt)
  some (.ofInt 16 sum)

/-- `tmp117_get_temp`, with a value of the variable `temp` before the read. -/
def tmp117GetTemp (received : Option (UInt8 × UInt8)) (temp k b : BitVec 16) : Option (BitVec 16) :=
  tmp117Convert (tmp117RdReg received temp).2 k b

/-- The product of `tmp117_get_temp` over the integers. -/
def scaled (raw k : BitVec 16) : ℤ := raw.toInt * 100 / 128 * (100000 + k.toInt)

/-- The result of `tmp117_get_temp` over the integers. -/
def reading (raw k b : BitVec 16) : ℤ := (scaled raw k).tdiv 100000 + b.toInt

/-- The conversion returns the result over the integers. -/
def Exact (raw k b : BitVec 16) : Prop :=
  ∃ r, tmp117Convert raw k b = some r ∧ r.toInt = reading raw k b

def Fits (raw k b : BitVec 16) : Prop :=
  (-2 ^ 31 ≤ scaled raw k ∧ scaled raw k < 2 ^ 31) ∧
    -2 ^ 15 ≤ reading raw k b ∧ reading raw k b < 2 ^ 15

variable {raw raw' k b : BitVec 16}

lemma toInt_mem (x : BitVec 16) : -2 ^ 15 ≤ x.toInt ∧ x.toInt < 2 ^ 15 := by
  simpa using And.intro x.le_toInt x.toInt_lt

lemma toInt_ofInt_iff (x : ℤ) : (BitVec.ofInt 16 x).toInt = x ↔ -2 ^ 15 ≤ x ∧ x < 2 ^ 15 := by
  rw [BitVec.toInt_ofInt, Int.bmod_def]
  split <;> omega

lemma toNat_ofInt_iff (x : ℤ) : ((BitVec.ofInt 16 x).toNat : ℤ) = x ↔ 0 ≤ x ∧ x < 2 ^ 16 := by
  rw [BitVec.toNat_ofInt]
  omega

/-- Only the product can overflow. -/
lemma tmp117Convert_eq (raw k b : BitVec 16) :
    tmp117Convert raw k b = (int32 (scaled raw k)).map fun _ => .ofInt 16 (reading raw k b) := by
  have hraw := toInt_mem raw
  have hk := toInt_mem k
  have hb := toInt_mem b
  have hfirst : int32 (raw.toInt * 100) = some _ := int32_of_mem (by omega)
  have hscale : int32 (100000 + k.toInt) = some _ := int32_of_mem (by omega)
  have hprod : raw.toInt * 100 / 2 ^ 7 * (100000 + k.toInt) = scaled raw k := rfl
  simp only [tmp117Convert, hfirst, hscale, bind_eq_bind, bind_some, hprod]
  by_cases hmem : -2 ^ 31 ≤ scaled raw k ∧ scaled raw k < 2 ^ 31
  · have hlo : -21475 ≤ (scaled raw k).tdiv 100000 :=
      le_trans (by decide) (Int.tdiv_le_tdiv (by decide) hmem.1)
    have hhi : (scaled raw k).tdiv 100000 ≤ 21475 :=
      (Int.tdiv_le_tdiv (by decide) hmem.2.le).trans (by decide)
    have hsum : int32 ((scaled raw k).tdiv 100000 + b.toInt) = some _ := int32_of_mem (by omega)
    rw [int32_of_mem hmem, bind_some, hsum]
    rfl
  · rw [int32, if_neg hmem]
    rfl

lemma exact_iff_fits : Exact raw k b ↔ Fits raw k b := by
  rw [Exact, Fits, tmp117Convert_eq, ← toInt_ofInt_iff]
  by_cases hmem : -2 ^ 31 ≤ scaled raw k ∧ scaled raw k < 2 ^ 31
  · rw [int32_of_mem hmem, and_iff_right hmem]
    simp only [map_some, some.injEq, exists_eq_left']
  · rw [int32, if_neg hmem]
    exact iff_of_false (fun ⟨_, hnone, _⟩ => nomatch hnone) fun hfits => hmem hfits.1

/-- A larger register means a larger result. -/
lemma reading_mono (h : raw.toInt ≤ raw'.toInt) : reading raw k b ≤ reading raw' k b := by
  have hk := toInt_mem k
  have hscaled : scaled raw k ≤ scaled raw' k :=
    mul_le_mul_of_nonneg_right (by omega) (by omega)
  exact add_le_add_left (Int.tdiv_le_tdiv (by decide) hscaled) _

/-- For every register and all calibration values: `tmp117_get_temp` computes the formula over the
integers iff the product fits 32 bits and the result fits 16 bits. Among such registers the
result grows with the register. -/
theorem tmp117Convert_exact (k b : BitVec 16) : (∀ raw, Exact raw k b ↔ Fits raw k b) ∧
      ∀ raw raw' r r', Fits raw k b → Fits raw' k b → raw.toInt ≤ raw'.toInt →
        tmp117Convert raw k b = some r → tmp117Convert raw' k b = some r' → r.toInt ≤ r'.toInt := by
  refine ⟨fun _ => exact_iff_fits, fun raw raw' r r' hfits hfits' hle hr hr' => ?_⟩
  obtain ⟨x, hx, hval⟩ := exact_iff_fits.mpr hfits
  obtain ⟨x', hx', hval'⟩ := exact_iff_fits.mpr hfits'
  obtain rfl := some.inj (hx.symm.trans hr)
  obtain rfl := some.inj (hx'.symm.trans hr')
  rw [hval, hval']
  exact reading_mono hle

/-- The register has its smallest value, as before the first conversion, and the product overflows. -/
theorem not_exact_min : ¬ Exact 0x8000 0 0 := by
  rw [exact_iff_fits, Fits]
  decide

/-! ## Registers -/

def mbsStatusInd : ℕ := 2
def calcKInd : ℕ := 4
def calcBInd : ℕ := 5
def tmp117TempInd : ℕ := 6
def ms5837LtempInd : ℕ := 7
def ms5837LpresInd : ℕ := 8

/-- `update_ms5837` after the conversions were read. -/
def updateMs5837 (s : Inst) : Option Inst := calc1stOrd s >>= calc2ndOrd

/-- The part of `mbs_sts_update` up to the registers of the pressure sensor. -/
def publishMs5837 (conf : BitVec 16) (s : Inst) (hold : ℕ → BitVec 16) : ℕ → BitVec 16 :=
  let hold := update hold mbsStatusInd conf
  let hold := update hold ms5837LtempInd (.ofInt 16 s.temp)
  update hold ms5837LpresInd (.ofInt 16 s.p)

/-- The registers determine the temperature and the pressure. -/
def Published (s : Inst) (hold : ℕ → BitVec 16) : Prop :=
  (hold ms5837LtempInd).toInt = s.temp ∧ ((hold ms5837LpresInd).toNat : ℤ) = s.p

lemma updateMs5837_eq (s : Inst) (d1 d2 : BitVec 24) :
    ∃ s', updateMs5837 (updateSensorRaw s d1 d2) = some s' ∧
      s'.temp = (firstOrd (updateSensorRaw s d1 d2)).temp ∧
      s'.p = (firstOrd (updateSensorRaw s d1 d2)).p := by
  obtain ⟨h1, h2⟩ := toNat_updateSensorRaw s d1 d2
  obtain ⟨ti, offi, sensi, -, hcalc⟩ := (ranges_firstOrd h1 h2).calc2ndOrd_eq h1
  rw [updateMs5837, calc1stOrd_eq h1 h2]
  exact ⟨_, hcalc, rfl, rfl⟩

lemma published_iff (conf : BitVec 16) (s : Inst) (hold : ℕ → BitVec 16) :
    Published s (publishMs5837 conf s hold) ↔
      (-2 ^ 15 ≤ s.temp ∧ s.temp < 2 ^ 15) ∧ 0 ≤ s.p ∧ s.p < 2 ^ 16 :=
  and_congr (toInt_ofInt_iff s.temp) (toNat_ofInt_iff s.p)

/-- For all coefficients and conversions of 24 bits: the registers have the low halves of the temperature
and the pressure, and they determine both iff these fit. -/
theorem publishMs5837_low (s : Inst) (d1 d2 : BitVec 24) (conf : BitVec 16) (hold : ℕ → BitVec 16) :
    ∃ s', updateMs5837 (updateSensorRaw s d1 d2) = some s' ∧
      publishMs5837 conf s' hold ms5837LtempInd = .ofInt 16 s'.temp ∧
      publishMs5837 conf s' hold ms5837LpresInd = .ofInt 16 s'.p ∧
      (Published s' (publishMs5837 conf s' hold) ↔
        (-2 ^ 15 ≤ (firstOrd (updateSensorRaw s d1 d2)).temp ∧
          (firstOrd (updateSensorRaw s d1 d2)).temp < 2 ^ 15) ∧
        0 ≤ (firstOrd (updateSensorRaw s d1 d2)).p ∧
          (firstOrd (updateSensorRaw s d1 d2)).p < 2 ^ 16) := by
  obtain ⟨s', hs', htemp, hp⟩ := updateMs5837_eq s d1 d2
  refine ⟨s', hs', rfl, rfl, ?_⟩
  rw [published_iff, htemp, hp]

def highPressure : Inst :=
  ⟨fun i => if i = 1 then 2 ^ 15 else 0, 0, 0, 0, 0, 0, 0, 0, 0, 0, 0, 0, 0⟩

/-- The pressure is 2^19, and its low half is 0. -/
theorem not_published_high : ∃ s', updateMs5837 (updateSensorRaw highPressure (2 ^ 23) 0) = some s' ∧
    s'.p = 2 ^ 19 ∧ ¬ Published s' (publishMs5837 0 s' fun _ => 0) := by
  obtain ⟨s', hs', -, hp⟩ := updateMs5837_eq highPressure (2 ^ 23) 0
  have hval : (firstOrd (updateSensorRaw highPressure (2 ^ 23) 0)).p = 2 ^ 19 := by decide
  refine ⟨s', hs', hp.trans hval, ?_⟩
  rw [published_iff, hp, hval]
  exact fun hrange => absurd hrange.2.2 (by decide)

/-! ## Failed transfers -/

/-- The result, and the variable that gets the conversion. -/
def ms5837RdAdc (received : Option (UInt8 × UInt8 × UInt8)) (rdBuf : UInt32) : ℤ × UInt32 :=
  match received with
  | none => (-1, rdBuf)
  | some (hi, mid, lo) => (0, ⟨(hi.toBitVec ++ mid.toBitVec ++ lo.toBitVec).setWidth 32⟩)

/-- `ms5837_get_val`, with a value of the variable `conv_data` before the read. The result of the transfer
that starts the conversion is ignored. -/
def ms5837GetVal (_start : Bool) (received : Option (UInt8 × UInt8 × UInt8)) (convData : UInt32) :
    UInt32 := (ms5837RdAdc received convData).2

/-- The transfers of `mbs_sts_update` in their order. -/
structure Transfers where
  start1 : Bool
  adc1 : Option (UInt8 × UInt8 × UInt8)
  start2 : Bool
  adc2 : Option (UInt8 × UInt8 × UInt8)
  temp : Option (UInt8 × UInt8)

/-- The values of the variables that `mbs_sts_update` does not initialise. -/
structure Locals where
  convData1 : UInt32
  convData2 : UInt32
  temp : BitVec 16

def mbsStsUpdate (conf : BitVec 16) (s : Inst) (hold : ℕ → BitVec 16) (t : Transfers) (v : Locals) :
    Option (ℕ → BitVec 16) := do
  let s ← updateMs5837 { s with
    d1 := ms5837GetVal t.start1 t.adc1 v.convData1
    d2 := ms5837GetVal t.start2 t.adc2 v.convData2 }
  let hold := publishMs5837 conf s hold
  let temp ← tmp117GetTemp t.temp v.temp (hold calcKInd) (hold calcBInd)
  some (update hold tmp117TempInd temp)

/-- The result and the coefficients. The results of `ms5837_rd_prom` are ignored. -/
def ms5337DsInit (reset : Bool) (prom : ℕ → Option (UInt8 × UInt8)) (coef : ℕ → UInt16) :
    ℤ × (ℕ → UInt16) :=
  if reset then
    (0, fun i => if i < 7 then ((prom i).map fun x => ⟨x.1.toBitVec ++ x.2.toBitVec⟩).getD (coef i)
      else coef i)
  else (-1, coef)

/-- The bit `ms5837` after `ms5837_init`. -/
def ms5837Bit (reset : Bool) (prom : ℕ → Option (UInt8 × UInt8)) (coef : ℕ → UInt16) : Bool :=
  (ms5337DsInit reset prom coef).1 == 0

/-- The bit `tmp117` after `tmp117_init`, with a value of the variable `reg_buf` before the read. The
results of both transfers are ignored. -/
def tmp117Bit (_reset : Bool) (devId : Option (UInt8 × UInt8)) (regBuf : BitVec 16) : Bool :=
  (tmp117RdReg devId regBuf).2 == 0x117

/-- Which transfers succeed. -/
structure Pattern where
  ms5837Reset : Bool
  prom : ℕ → Bool
  tmp117Reset : Bool
  devId : Bool
  start1 : Bool
  adc1 : Bool
  start2 : Bool
  adc2 : Bool
  temp : Bool

def received {α : Type} (ok : Bool) (bytes : α) : Option α := if ok then some bytes else none

/-- The transfers of `mbs_sts_update`. -/
def Pattern.transfers (p : Pattern) (adc1 adc2 : UInt8 × UInt8 × UInt8) (temp : UInt8 × UInt8) :
    Transfers :=
  ⟨p.start1, received p.adc1 adc1, p.start2, received p.adc2 adc2, received p.temp temp⟩

/-- The registers are a function of the received bytes, the coefficients and the registers before: they
do not depend on the variables that were not initialised. -/
def RegistersOk (p : Pattern) : Prop :=
  ∀ adc1 adc2 temp conf s hold v v',
    mbsStsUpdate conf s hold (p.transfers adc1 adc2 temp) v =
      mbsStsUpdate conf s hold (p.transfers adc1 adc2 temp) v'

/-- A status bit is set only if every transfer of the initialisation succeeded. -/
def StatusOk (p : Pattern) : Prop :=
  (∀ (bytes : ℕ → UInt8 × UInt8) coef, ms5837Bit p.ms5837Reset (fun i => received (p.prom i) (bytes i)) coef = true →
    p.ms5837Reset = true ∧ ∀ i < 7, p.prom i = true) ∧
  ∀ bytes regBuf, tmp117Bit p.tmp117Reset (received p.devId bytes) regBuf = true →
    p.tmp117Reset = true ∧ p.devId = true

variable {p : Pattern}

/-- `C[1]` and `C[6]` are set, so that both conversions have an effect. -/
def someCoef : Inst :=
  ⟨fun i => if i = 1 then 2 ^ 8 else if i = 6 then 1 else 0, 0, 0, 0, 0, 0, 0, 0, 0, 0, 0, 0, 0⟩

/-- Each of the three variables has an effect if the transfer that should set it fails. -/
lemma update_differs : ∀ start1 adc1 start2 adc2 temp : Bool,
    let reg := fun v i => (mbsStsUpdate 0 someCoef (fun _ => 0) ⟨start1, received adc1 (0, 0, 0),
      start2, received adc2 (0, 0, 0), received temp (0, 0)⟩ v).map fun hold => hold i
    (reg ⟨0, 0, 0⟩ ms5837LpresInd = reg ⟨2 ^ 11, 0, 0⟩ ms5837LpresInd → adc1 = true) ∧
    (reg ⟨0, 0, 0⟩ ms5837LtempInd = reg ⟨0, 2 ^ 23, 0⟩ ms5837LtempInd → adc2 = true) ∧
    (reg ⟨0, 0, 0⟩ tmp117TempInd = reg ⟨0, 0, 128⟩ tmp117TempInd → temp = true) := by
  decide +kernel

lemma registersOk_iff : RegistersOk p ↔ p.adc1 = true ∧ p.adc2 = true ∧ p.temp = true := by
  constructor
  · intro h
    have heq (v v' : Locals) (i : ℕ) := congrArg (Option.map fun hold => hold i)
      (h (0, 0, 0) (0, 0, 0) (0, 0) 0 someCoef (fun _ => 0) v v')
    obtain ⟨h1, h2, h3⟩ := update_differs p.start1 p.adc1 p.start2 p.adc2 p.temp
    exact ⟨h1 (heq _ _ _), h2 (heq _ _ _), h3 (heq _ _ _)⟩
  · rintro ⟨h1, h2, h3⟩ adc1 adc2 temp conf s hold v v'
    rw [Pattern.transfers, h1, h2, h3]
    rfl

lemma statusOk_iff : StatusOk p ↔ (p.ms5837Reset = true → ∀ i < 7, p.prom i = true) ∧
    p.tmp117Reset = true ∧ p.devId = true := by
  have hbit : ∀ prom coef, ms5837Bit p.ms5837Reset prom coef = p.ms5837Reset := fun prom coef => by
    rw [ms5837Bit, ms5337DsInit]
    cases p.ms5837Reset <;> rfl
  refine and_congr ?_ ⟨fun h => ?_, fun h _ _ _ => h⟩
  · simp only [hbit]
    exact ⟨fun h hreset => (h (fun _ => (0, 0)) (fun _ => 0) hreset).2, fun h _ _ hreset =>
      ⟨hreset, h hreset⟩⟩
  · -- the identifier of the sensor is received, or it is in the variable already
    refine h (1, 0x17) 0x117 ?_
    cases p.devId <;> rfl

/-- For every pattern of failures: the registers depend on nothing but what was received, and the status
bits are right, iff no read of `mbs_sts_update` fails, both transfers of the temperature sensor's
initialisation succeed, and those of the pressure sensor's do if its reset does. -/
theorem registers_status_iff (p : Pattern) : RegistersOk p ∧ StatusOk p ↔
    (p.adc1 = true ∧ p.adc2 = true ∧ p.temp = true) ∧
      (p.ms5837Reset = true → ∀ i < 7, p.prom i = true) ∧ p.tmp117Reset = true ∧ p.devId = true :=
  and_congr registersOk_iff statusOk_iff

/-- Only the read of the temperature and one of a coefficient fail. -/
def twoFailures : Pattern := ⟨true, fun i => i != 3, true, true, true, true, true, true, false⟩

theorem not_ok_twoFailures : ¬ RegistersOk twoFailures ∧ ¬ StatusOk twoFailures := by
  rw [registersOk_iff, statusOk_iff]
  decide

end Drivers.Sensors
