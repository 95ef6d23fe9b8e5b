import TempSns.Calib.Registers
import TempSns.Lib.Transition

/-!
# Requests to the holding registers

Embedding of `eMBRegHoldingCB` of `user_mb_app.c`. A write request copies its data to the registers one
by one, and calls `wr_calc_data` when the index has passed `CALC_B_IND`. So a request that ends with
`CALC_K_IND` changes a calibration register and not the flash page.
-/

namespace Calib

open Function Nat Hal

/-- The bytes from `pucRegBuffer` on. -/
abbrev Buffer := ℕ → UInt8

/-- `eMBRegisterMode`. -/
inductive RegisterMode where
  | read
  | write
  deriving DecidableEq, Repr

/-- The values of `eMBErrorCode` that the function returns. -/
inductive ErrorCode where
  | enoerr
  | enoreg
  deriving DecidableEq, Repr

/-- `S_REG_HOLDING_START`. -/
def regHoldingStart : UInt16 := 0

/-- `S_REG_HOLDING_NREGS`. -/
def regHoldingNregs : UInt16 := 12

def regValue (buf : Buffer) (pos : ℕ) : UInt16 :=
  ((buf pos).toUInt16 <<< 8) ||| (buf (pos + 1)).toUInt16

/-- The loop of `MB_REG_READ`; `pos` is how far `pucRegBuffer` has moved. -/
def readRegs (regs : Regs) : (usNRegs : ℕ) → (iRegIndex : UInt16) → (pos : ℕ) → Buffer → Buffer
  | 0, _, _, buf => buf
  | usNRegs + 1, iRegIndex, pos, buf =>
    let buf := update buf pos (regs iRegIndex.toNat >>> 8).toUInt8
    let buf := update buf (pos + 1) (regs iRegIndex.toNat &&& 0xFF).toUInt8
    readRegs regs usNRegs (iRegIndex + 1) (pos + 2) buf

/-- The loop of `MB_REG_WRITE`. -/
def writeRegs (hal : Hal) (buf : Buffer) :
    (usNRegs : ℕ) → (iRegIndex : UInt16) → (pos : ℕ) → Device → Device
  | 0, _, _, dev => dev
  | usNRegs + 1, iRegIndex, pos, dev =>
    let regs := update dev.regs iRegIndex.toNat (regValue buf pos)
    let iRegIndex := iRegIndex + 1
    let page :=
      if iRegIndex.toNat = calcBInd + 1 then
        (wrCalcData hal (regs calcKInd).toInt16 (regs calcBInd).toInt16 dev.page).2
      else dev.page
    writeRegs hal buf usNRegs iRegIndex (pos + 2) ⟨page, regs⟩

def eMBRegHoldingCB (hal : Hal) (buf : Buffer) (usAddress usNRegs : UInt16) (mode : RegisterMode)
    (dev : Device) : ErrorCode × Buffer × Device :=
  let usAddress := usAddress - 1
  -- the sum is an `int` and does not wrap
  if usAddress ≥ regHoldingStart ∧
      usAddress.toNat + usNRegs.toNat ≤ regHoldingStart.toNat + regHoldingNregs.toNat then
    let iRegIndex := usAddress - regHoldingStart
    match mode with
    | .read => (.enoerr, readRegs dev.regs usNRegs.toNat iRegIndex 0 buf, dev)
    | .write => (.enoerr, buf, writeRegs hal buf usNRegs.toNat iRegIndex 0 dev)
  else (.enoreg, buf, dev)

/-- `mbs_sts_update`, with the status word and the values of the sensors. -/
def mbsStsUpdate (sysBm : UInt16) (ms5837Temp ms5837Pres : UInt32)
    (tmp117GetTemp : Int16 → Int16 → UInt16) (regs : Regs) : Regs :=
  let regs := update regs mbsStatusInd sysBm
  let regs := update regs ms5837LtempInd (ms5837Temp &&& 0x0000ffff).toUInt16
  let regs := update regs ms5837LpresInd (ms5837Pres &&& 0x0000ffff).toUInt16
  update regs tmp117TempInd
    (tmp117GetTemp (regs calcKInd).toInt16 (regs calcBInd).toInt16)

/-! ## Loops -/

variable {hal : Hal} {buf : Buffer} {dev : Device} {usNRegs pos : ℕ} {iRegIndex : UInt16}

lemma toNat_succ_index (h : iRegIndex.toNat + (usNRegs + 1) ≤ 12) :
    (iRegIndex + 1).toNat = iRegIndex.toNat + 1 := by
  rw [UInt16.toNat_add]
  exact mod_eq_of_lt (by simp; omega)

/-- The registers after the loop of a write: those that the request names have its data. -/
lemma regs_writeRegs (h : iRegIndex.toNat + usNRegs ≤ 12) (j : ℕ) :
    (writeRegs hal buf usNRegs iRegIndex pos dev).regs j =
      if iRegIndex.toNat ≤ j ∧ j < iRegIndex.toNat + usNRegs then
        regValue buf (pos + 2 * (j - iRegIndex.toNat))
      else dev.regs j := by
  induction usNRegs generalizing iRegIndex pos dev with
  | zero =>
    have hnot : ¬ (iRegIndex.toNat ≤ j ∧ j < iRegIndex.toNat + 0) := by omega
    rw [if_neg hnot]
    rfl
  | succ usNRegs ih =>
    have hsucc := toNat_succ_index h
    rw [writeRegs, ih (by omega), hsucc]
    simp only
    by_cases hj : j = iRegIndex.toNat
    · -- the register of this round is not written again
      subst hj
      have hnot : ¬ (iRegIndex.toNat + 1 ≤ iRegIndex.toNat ∧
          iRegIndex.toNat < iRegIndex.toNat + 1 + usNRegs) := by omega
      have hnow : iRegIndex.toNat ≤ iRegIndex.toNat ∧
          iRegIndex.toNat < iRegIndex.toNat + (usNRegs + 1) := by omega
      rw [if_neg hnot, if_pos hnow, update_self, Nat.sub_self, Nat.mul_zero, Nat.add_zero]
    · rw [update_of_ne hj]
      by_cases hlater : iRegIndex.toNat + 1 ≤ j ∧ j < iRegIndex.toNat + 1 + usNRegs
      · have hpos : pos + 2 + 2 * (j - (iRegIndex.toNat + 1)) = pos + 2 * (j - iRegIndex.toNat) := by
          omega
        rw [if_pos hlater, if_pos (by omega), hpos]
      · rw [if_neg hlater, if_neg (by omega)]

/-- The page after the loop of a write: the calibration registers as they are at the end are written if
the request names `CALC_B_IND`. -/
lemma page_writeRegs (h : iRegIndex.toNat + usNRegs ≤ 12) :
    (writeRegs hal buf usNRegs iRegIndex pos dev).page =
      if iRegIndex.toNat ≤ calcBInd ∧ calcBInd < iRegIndex.toNat + usNRegs then
        (wrCalcData hal ((writeRegs hal buf usNRegs iRegIndex pos dev).regs calcKInd).toInt16
          ((writeRegs hal buf usNRegs iRegIndex pos dev).regs calcBInd).toInt16 dev.page).2
      else dev.page := by
  induction usNRegs generalizing iRegIndex pos dev with
  | zero =>
    have hnot : ¬ (iRegIndex.toNat ≤ calcBInd ∧ calcBInd < iRegIndex.toNat + 0) := by omega
    rw [if_neg hnot]
    rfl
  | succ usNRegs ih =>
    have hsucc := toNat_succ_index h
    have hrest : (iRegIndex + 1).toNat + usNRegs ≤ 12 := by omega
    rw [writeRegs, ih hrest, hsucc]
    by_cases hnow : iRegIndex.toNat = calcBInd
    · -- `CALC_B_IND` was written in this round, and the calibration registers stay as they are now
      have hlater : ¬ (iRegIndex.toNat + 1 ≤ calcBInd ∧
          calcBInd < iRegIndex.toNat + 1 + usNRegs) := by omega
      have hkeep : ∀ j, j ≤ calcBInd → ¬ ((iRegIndex + 1).toNat ≤ j ∧
          j < (iRegIndex + 1).toNat + usNRegs) := by
        intro j hj
        omega
      rw [if_neg hlater, if_pos (by omega), regs_writeRegs hrest, regs_writeRegs hrest,
        if_neg (hkeep calcKInd (by decide)), if_neg (hkeep calcBInd le_rfl)]
      have hcovers : calcBInd ≤ calcBInd ∧ calcBInd < calcBInd + (usNRegs + 1) := by omega
      simp only [hnow]
      exact (if_pos hcovers).symm
    · have hne : ¬ iRegIndex.toNat + 1 = calcBInd + 1 := by omega
      simp only [if_neg hne]
      by_cases hlater : iRegIndex.toNat + 1 ≤ calcBInd ∧ calcBInd < iRegIndex.toNat + 1 + usNRegs
      · rw [if_pos hlater, if_pos (by omega)]
      · rw [if_neg hlater, if_neg (by omega)]

/-- The bytes of a register value, the high one first. -/
def regByte (v : UInt16) (i : ℕ) : UInt8 :=
  if i % 2 = 0 then (v >>> 8).toUInt8 else (v &&& 0xFF).toUInt8

/-- The buffer after the loop of a read: the bytes of the registers that the request names. -/
lemma readRegs_apply {regs : Regs} (h : iRegIndex.toNat + usNRegs ≤ 12) (i : ℕ) :
    readRegs regs usNRegs iRegIndex pos buf i =
      if pos ≤ i ∧ i < pos + 2 * usNRegs then
        regByte (regs (iRegIndex.toNat + (i - pos) / 2)) (i - pos)
      else buf i := by
  induction usNRegs generalizing iRegIndex pos buf with
  | zero => rw [if_neg (by omega)]; rfl
  | succ usNRegs ih =>
    have hsucc := toNat_succ_index h
    rw [readRegs, ih (by omega), hsucc]
    by_cases hlater : pos + 2 ≤ i ∧ i < pos + 2 + 2 * usNRegs
    · have hreg : iRegIndex.toNat + 1 + (i - (pos + 2)) / 2 = iRegIndex.toNat + (i - pos) / 2 := by
        omega
      have hpar : (i - (pos + 2)) % 2 = (i - pos) % 2 := by omega
      rw [if_pos hlater, if_pos (by omega), hreg, regByte, regByte, hpar]
    · rw [if_neg hlater]
      by_cases hhigh : i = pos
      · rw [if_pos (by omega), hhigh, update_of_ne (by omega), update_self, Nat.sub_self]
        rfl
      · by_cases hlow : i = pos + 1
        · have hone : pos + 1 - pos = 1 := by omega
          rw [if_pos (by omega), hlow, update_self, hone]
          rfl
        · rw [if_neg (by omega), update_of_ne hlow, update_of_ne hhigh]

lemma regByte_regValue (pos i : ℕ) : regByte (regValue buf pos) i = buf (pos + i % 2) := by
  have hlow := (buf (pos + 1)).toNat_lt
  have hhigh := (buf pos).toNat_lt
  have hvalue : (regValue buf pos).toNat = (buf pos).toNat * 256 + (buf (pos + 1)).toNat := by
    have hshift : (buf pos).toNat * 256 % 65536 = (buf pos).toNat <<< 8 := by
      rw [shiftLeft_eq]
      omega
    have hor : (regValue buf pos).toNat =
        (buf pos).toNat * 256 % 65536 ||| (buf (pos + 1)).toNat := by
      simp [regValue, shiftLeft_eq]
    rw [hor, hshift, ← shiftLeft_add_eq_or_of_lt hlow, shiftLeft_eq]
  apply UInt8.toNat_inj.mp
  unfold regByte
  rcases mod_two_eq_zero_or_one i with hi | hi
  · have hnat : (regValue buf pos >>> 8).toUInt8.toNat = (regValue buf pos).toNat / 256 % 256 := by
      simp [shiftRight_eq_div_pow]
    rw [if_pos hi, hnat, hvalue]
    simp only [hi, add_zero]
    omega
  · have hnat : (regValue buf pos &&& 0xFF).toUInt8.toNat =
        (regValue buf pos).toNat % 256 &&& (2 ^ 8 - 1) := by
      simp
    rw [if_neg (by omega), hnat, hvalue, and_two_pow_sub_one_eq_mod, hi]
    omega

/-! ## Persistence -/

lemma bytes_regValue (v : UInt16) :
    ((v >>> 8).toUInt8.toUInt16 <<< 8) ||| (v &&& 0xFF).toUInt8.toUInt16 = v := by
  have hv := v.toNat_lt
  have hmask : v.toNat % 256 &&& 255 = v.toNat % 256 := by
    rw [show (255 : ℕ) = 2 ^ 8 - 1 from rfl, and_two_pow_sub_one_eq_mod]
    omega
  have hhigh : v.toNat / 256 % 256 * 256 % 65536 = (v.toNat / 256) <<< 8 := by
    rw [shiftLeft_eq]
    omega
  have hlow : v.toNat % 256 < 2 ^ 8 := mod_lt _ (by decide)
  have hnat : (((v >>> 8).toUInt8.toUInt16 <<< 8) ||| (v &&& 0xFF).toUInt8.toUInt16).toNat =
      v.toNat / 256 % 256 * 256 % 65536 ||| (v.toNat % 256 &&& 255) := by
    simp [shiftRight_eq_div_pow, shiftLeft_eq]
  apply UInt16.toNat_inj.mp
  rw [hnat, hmask, hhigh, ← shiftLeft_add_eq_or_of_lt hlow, shiftLeft_eq]
  omega

/-- The calibration registers as a read request returns them. -/
def readCalibration (dev : Device) : UInt16 × UInt16 :=
  let (_, buf, _) := eMBRegHoldingCB allOk (fun _ => 0) 5 2 .read dev
  (regValue buf 0, regValue buf 2)

lemma readCalibration_eq (dev : Device) : readCalibration dev = calibration dev.regs := by
  apply Prod.ext
  · exact bytes_regValue (dev.regs calcKInd)
  · exact bytes_regValue (dev.regs calcBInd)

/-- The page has the calibration registers, and a restart brings back what a read request returns. -/
structure Persisted (dev : Device) : Prop where
  stored : unpack (rdCalcData dev.page) = calibration dev.regs
  /-- The pair after a restart, whatever the results of the HAL are in it. -/
  restored : ∀ hal addr, calibration (restart hal addr dev.page).regs = readCalibration dev

/-- The results of the HAL if every attempt to erase the page fails and leaves the word `w`. -/
def leaves (w : UInt32) : Hal := ⟨fun _ => .error fun _ _ => w, .ok, .ok⟩

lemma restartWord_leaves {page : Page} (hflag : page 0 ≠ progFlag) (w : UInt32) :
    restartWord (leaves w) page = w := by
  rw [restartWord, if_neg hflag]
  rfl

/-- The flag has to be set, since a restart would write the page otherwise. -/
lemma persisted_iff (dev : Device) :
    Persisted dev ↔ dev.page 0 = progFlag ∧ unpack (dev.page 1) = calibration dev.regs := by
  constructor
  · intro h
    refine ⟨?_, h.stored⟩
    by_contra hflag
    have hzero := h.restored (leaves 0) 1
    have hone := h.restored (leaves 1) 1
    rw [calibration_restart, restartWord_leaves hflag] at hzero hone
    have heq := unpack_inj.mp (hzero.trans hone.symm)
    exact absurd heq (by decide)
  · rintro ⟨hflag, hword⟩
    refine ⟨hword, fun hal addr => ?_⟩
    rw [calibration_restart, restartWord, if_pos hflag, readCalibration_eq, hword]

/-- A request names the register `j`. -/
def Covers (usAddress usNRegs : UInt16) (j : ℕ) : Prop :=
  (usAddress - 1).toNat ≤ j ∧ j < (usAddress - 1).toNat + usNRegs.toNat

instance (usAddress usNRegs : UInt16) (j : ℕ) : Decidable (Covers usAddress usNRegs j) :=
  inferInstanceAs (Decidable (_ ∧ _))

variable {usAddress usCount : UInt16}

/-- The first register is the first one of the array, so the lower bound holds. -/
lemma eMBRegHoldingCB_eq (mode : RegisterMode) :
    eMBRegHoldingCB hal buf usAddress usCount mode dev =
      if (usAddress - 1).toNat + usCount.toNat ≤ 12 then
        match mode with
        | .read => (.enoerr, readRegs dev.regs usCount.toNat (usAddress - 1) 0 buf, dev)
        | .write => (.enoerr, buf, writeRegs hal buf usCount.toNat (usAddress - 1) 0 dev)
      else (.enoreg, buf, dev) := by
  have hstart : usAddress - 1 ≥ regHoldingStart := UInt16.le_iff_toNat_le.mpr (zero_le _)
  have hindex : usAddress - 1 - regHoldingStart = usAddress - 1 := by simp [regHoldingStart]
  unfold eMBRegHoldingCB
  simp only [hstart, hindex, true_and]
  rfl

lemma eMBRegHoldingCB_write
    (haccept : (eMBRegHoldingCB hal buf usAddress usCount .write dev).1 = .enoerr) :
    (usAddress - 1).toNat + usCount.toNat ≤ 12 ∧
      (eMBRegHoldingCB hal buf usAddress usCount .write dev).2.2 =
        writeRegs hal buf usCount.toNat (usAddress - 1) 0 dev := by
  rw [eMBRegHoldingCB_eq] at haccept ⊢
  split at haccept
  case isTrue hbound =>
    rw [if_pos hbound]
    exact ⟨hbound, rfl⟩
  case isFalse => cases haccept

/-- A request is accepted exactly if its registers are in the array. One that is rejected changes
nothing. A read returns their bytes, and changes no register. A write sets them to the big-endian values
of the buffer and changes no other register, and a read of the same registers returns the bytes of the
write. -/
theorem eMBRegHoldingCB_spec (hal : Hal) (buf : Buffer) (usAddress usCount : UInt16) (dev : Device) :
    (∀ mode, (eMBRegHoldingCB hal buf usAddress usCount mode dev).1 = .enoerr ↔
      (usAddress - 1).toNat + usCount.toNat ≤ regHoldingNregs.toNat) ∧
    (∀ mode, (eMBRegHoldingCB hal buf usAddress usCount mode dev).1 ≠ .enoerr →
      (eMBRegHoldingCB hal buf usAddress usCount mode dev).2 = (buf, dev)) ∧
    (∀ mode, (eMBRegHoldingCB hal buf usAddress usCount mode dev).1 = .enoerr →
      ∀ j, Covers usAddress usCount j → j < regHoldingNregs.toNat) ∧
    (∀ buf' dev', eMBRegHoldingCB hal buf usAddress usCount .read dev = (.enoerr, buf', dev') →
      dev' = dev ∧ ∀ i, buf' i = if i < 2 * usCount.toNat then
        regByte (dev.regs ((usAddress - 1).toNat + i / 2)) i else buf i) ∧
    (∀ buf' dev', eMBRegHoldingCB hal buf usAddress usCount .write dev = (.enoerr, buf', dev') →
      buf' = buf ∧ (∀ j, dev'.regs j = if Covers usAddress usCount j then
        regValue buf (2 * (j - (usAddress - 1).toNat)) else dev.regs j) ∧
      ∀ hal' old, ∃ new, eMBRegHoldingCB hal' old usAddress usCount .read dev' =
        (.enoerr, new, dev') ∧ ∀ i, new i = if i < 2 * usCount.toNat then buf i else old i) := by
  refine ⟨fun mode => ?_, fun mode hcode => ?_, fun mode hok j hj => ?_, fun buf' dev' hok => ?_,
    fun buf' dev' hok => ?_⟩
  · rw [eMBRegHoldingCB_eq]
    split
    case isTrue hbound => exact iff_of_true (by cases mode <;> rfl) hbound
    case isFalse hbound => exact iff_of_false nofun hbound
  · rw [eMBRegHoldingCB_eq] at hcode ⊢
    split at hcode
    case isTrue => cases mode <;> exact absurd rfl hcode
    case isFalse hbound => rw [if_neg hbound]
  · rw [eMBRegHoldingCB_eq] at hok
    split at hok
    case isTrue hbound => exact lt_of_lt_of_le hj.2 hbound
    case isFalse => cases hok
  · rw [eMBRegHoldingCB_eq] at hok
    split at hok
    case isTrue hbound =>
      obtain ⟨rfl, rfl⟩ := Prod.mk.inj (Prod.mk.inj hok).2
      refine ⟨rfl, fun i => ?_⟩
      rw [readRegs_apply hbound, Nat.sub_zero, Nat.zero_add]
      simp only [zero_le, true_and]
    case isFalse => cases (Prod.mk.inj hok).1
  · rw [eMBRegHoldingCB_eq] at hok
    split at hok
    case isTrue hbound =>
      obtain ⟨rfl, rfl⟩ := Prod.mk.inj (Prod.mk.inj hok).2
      have hregs : ∀ j, (writeRegs hal buf usCount.toNat (usAddress - 1) 0 dev).regs j = _ :=
        regs_writeRegs hbound
      refine ⟨rfl, fun j => ?_, fun hal' old =>
        ⟨_, (eMBRegHoldingCB_eq .read).trans (if_pos hbound), fun i => ?_⟩⟩
      · rw [hregs, zero_add]
        rfl
      · rw [readRegs_apply hbound, Nat.sub_zero, Nat.zero_add]
        simp only [zero_le, true_and]
        by_cases hi : i < 2 * usCount.toNat
        · -- the byte comes from the register that the write set from it
          have hpos : 0 + 2 * ((usAddress - 1).toNat + i / 2 - (usAddress - 1).toNat) + i % 2 = i := by
            omega
          rw [if_pos hi, if_pos hi, hregs, if_pos (by omega), regByte_regValue, hpos]
        · rw [if_neg hi, if_neg hi]
    case isFalse => cases (Prod.mk.inj hok).1

/-- The request `01 02 03 04` for two registers from address 3 on. -/
theorem eMBRegHoldingCB_two : ∃ buf dev, eMBRegHoldingCB allOk (fun i => UInt8.ofNat (i + 1)) 3 2 .write
    ⟨fun _ => 0, fun _ => 7⟩ = (.enoerr, buf, dev) ∧ dev.regs 1 = 7 ∧ dev.regs 2 = 0x0102 ∧
    dev.regs 3 = 0x0304 ∧ dev.regs 4 = 7 := by
  obtain ⟨accepted, -, -, -, hwrite⟩ := eMBRegHoldingCB_spec allOk (fun i => UInt8.ofNat (i + 1)) 3 2
    ⟨fun _ => 0, fun _ => 7⟩
  have hok := Prod.ext ((accepted .write).mpr (by decide)) rfl
  obtain ⟨-, hregs, -⟩ := hwrite _ _ hok
  refine ⟨_, _, hok, ?_⟩
  simp only [hregs]
  decide

/-- The pair that a write with all flash operations successful leaves on the page. -/
lemma wrCalcData_allOk (k b : UInt16) (page : Page) :
    (wrCalcData allOk k.toInt16 b.toInt16 page).2 0 = progFlag ∧
      unpack ((wrCalcData allOk k.toInt16 b.toInt16 page).2 1) = (k, b) := by
  rw [wrCalcData_eq]
  refine ⟨rfl, ?_⟩
  change unpack (programmed allOk _ 1) = _
  rw [programmed_one]
  change unpack (pack k.toInt16 b.toInt16) = _
  rw [unpack_pack, UInt16.toUInt16_toInt16, UInt16.toUInt16_toInt16]

/-- The value of `CALC_K_IND` after a write request. -/
def newK (buf : Buffer) (usAddress usNRegs : UInt16) (regs : Regs) : UInt16 :=
  if Covers usAddress usNRegs calcKInd then regValue buf (2 * (calcKInd - (usAddress - 1).toNat))
  else regs calcKInd

lemma persisted_writeRegs_iff (hbound : (usAddress - 1).toNat + usCount.toNat ≤ 12) :
    Persisted (writeRegs allOk buf usCount.toNat (usAddress - 1) 0 dev) ↔
      Covers usAddress usCount calcBInd ∨ dev.page 0 = progFlag ∧
          unpack (dev.page 1) = (newK buf usAddress usCount dev.regs, dev.regs calcBInd) := by
  rw [persisted_iff, page_writeRegs hbound]
  by_cases hcovers : Covers usAddress usCount calcBInd
  · -- the last values of both registers are written to the page
    have hnames : (usAddress - 1).toNat ≤ calcBInd ∧
        calcBInd < (usAddress - 1).toNat + usCount.toNat := hcovers
    rw [if_pos hnames]
    have hpage := wrCalcData_allOk
      ((writeRegs allOk buf usCount.toNat (usAddress - 1) 0 dev).regs calcKInd)
      ((writeRegs allOk buf usCount.toNat (usAddress - 1) 0 dev).regs calcBInd) dev.page
    exact iff_of_true hpage (Or.inl hcovers)
  · have hnames : ¬ ((usAddress - 1).toNat ≤ calcBInd ∧
        calcBInd < (usAddress - 1).toNat + usCount.toNat) := hcovers
    rw [if_neg hnames]
    have hcalib : calibration (writeRegs allOk buf usCount.toNat (usAddress - 1) 0 dev).regs =
        (newK buf usAddress usCount dev.regs, dev.regs calcBInd) := by
      rw [calibration, regs_writeRegs hbound, regs_writeRegs hbound, if_neg hnames, zero_add]
      rfl
    rw [hcalib]
    simp only [hcovers, false_or]

/-- After an accepted write request with all flash operations successful, the calibration pair is
persistent exactly if the request names `CALC_B_IND`, or if the page has the pair already. -/
theorem persisted_write_iff
    (haccept : (eMBRegHoldingCB allOk buf usAddress usCount .write dev).1 = .enoerr) :
    Persisted (eMBRegHoldingCB allOk buf usAddress usCount .write dev).2.2 ↔
      Covers usAddress usCount calcBInd ∨ dev.page 0 = progFlag ∧
          unpack (dev.page 1) = (newK buf usAddress usCount dev.regs, dev.regs calcBInd) := by
  obtain ⟨hbound, hdev⟩ := eMBRegHoldingCB_write haccept
  rw [hdev]
  exact persisted_writeRegs_iff hbound

/-- A write of both calibration registers. -/
theorem persisted_write_pair :
    Persisted (eMBRegHoldingCB allOk (fun pos => UInt8.ofNat (pos + 1)) 5 2 .write
      ⟨erased, fun _ => 0⟩).2.2 :=
  (persisted_write_iff rfl).mpr (Or.inl (by decide))

/-- A write of `CALC_K_IND` alone after a regular start: the request is accepted, all flash operations
succeed, and the page keeps the old value. -/
theorem calcK_write_not_persisted :
    (eMBRegHoldingCB allOk (fun _ => 1) 5 1 .write (restart allOk 1 erased)).1 = .enoerr ∧
      ¬ Persisted (eMBRegHoldingCB allOk (fun _ => 1) 5 1 .write (restart allOk 1 erased)).2.2 := by
  refine ⟨rfl, fun h => ?_⟩
  have hstored := h.stored
  exact absurd hstored (by decide)

/-! ## Runs of requests -/

/-- What happens to a device. -/
inductive Act where
  | request (buf : Buffer) (usAddress usNRegs : UInt16) (mode : RegisterMode)
  | update (sysBm : UInt16) (ms5837Temp ms5837Pres : UInt32)
      (tmp117GetTemp : Int16 → Int16 → UInt16)
  | reset (addr : UInt8)

/-- One step with all flash operations successful. -/
def step (dev : Device) : Act → Option Device
  | .request buf usAddress usNRegs mode =>
    some (eMBRegHoldingCB allOk buf usAddress usNRegs mode dev).2.2
  | .update sysBm ms5837Temp ms5837Pres tmp117GetTemp =>
    some { dev with regs := mbsStsUpdate sysBm ms5837Temp ms5837Pres tmp117GetTemp dev.regs }
  | .reset addr => some (restart allOk addr dev.page)

/-- A write that names `CALC_K_IND` names `CALC_B_IND` as well. -/
def WritesPairs (_ : Device) : Act → Prop
  | .request _ usAddress usNRegs .write =>
    Covers usAddress usNRegs calcKInd → Covers usAddress usNRegs calcBInd
  | _ => True

lemma persisted_restart (addr : UInt8) (page : Page) : Persisted (restart allOk addr page) := by
  rw [persisted_iff]
  unfold restart iflashInit getProgramFlag iflashRdVal
  by_cases hflag : page 0 = progFlag
  · simp only [if_pos hflag, if_true]
    exact ⟨hflag, (calibration_mbsStsInit addr page _).symm⟩
  · rw [wrCalcData_eq]
    simp only [if_neg hflag, Int.reduceNeg, neg_eq_zero, one_ne_zero, if_false]
    exact ⟨rfl, (calibration_mbsStsInit addr _ _).symm⟩

lemma Persisted.request (h : Persisted dev) {mode : RegisterMode}
    (hact : WritesPairs dev (.request buf usAddress usCount mode)) :
    Persisted (eMBRegHoldingCB allOk buf usAddress usCount mode dev).2.2 := by
  cases mode with
  | read =>
    unfold eMBRegHoldingCB
    simp only
    split <;> exact h
  | write =>
    cases hresult : (eMBRegHoldingCB allOk buf usAddress usCount .write dev).1 with
    | enoreg =>
      -- the request is rejected
      rw [eMBRegHoldingCB_eq] at hresult ⊢
      split at hresult
      case isTrue => cases hresult
      case isFalse hbound =>
        rw [if_neg hbound]
        exact h
    | enoerr =>
      obtain ⟨hbound, hdev⟩ := eMBRegHoldingCB_write hresult
      rw [hdev, persisted_writeRegs_iff hbound]
      by_cases hcovers : Covers usAddress usCount calcBInd
      · exact Or.inl hcovers
      · -- neither of the two registers is named
        have hnotK : ¬ Covers usAddress usCount calcKInd := fun hK => hcovers (hact hK)
        rw [newK, if_neg hnotK]
        exact Or.inr ((persisted_iff dev).mp h)

/-- The pair is persistent in every state of a run in which writes name both calibration registers or
none of them, or `CALC_B_IND` alone. -/
theorem persisted_of_writesPairs
    (h : Transition.Reach (fun dev => ∃ addr page, dev = restart allOk addr page) step
      WritesPairs dev) : Persisted dev := by
  refine h.invariant (I := Persisted) ?_ ?_
  · rintro dev ⟨addr, page, rfl⟩
    exact persisted_restart addr page
  · intro dev act dev' hdev hact hstep
    cases act with
    | request buf usAddress usNRegs mode =>
      obtain rfl := Option.some.inj hstep
      exact hdev.request hact
    | update sysBm ms5837Temp ms5837Pres tmp117GetTemp =>
      obtain rfl := Option.some.inj hstep
      rw [persisted_iff] at hdev ⊢
      exact hdev
    | reset addr =>
      obtain rfl := Option.some.inj hstep
      exact persisted_restart addr dev.page

/-- Both registers of the pair are written. -/
theorem persisted_of_writesPairs_one : Persisted
    (eMBRegHoldingCB allOk (fun _ => 1) 5 2 .write (restart allOk 1 erased)).2.2 :=
  persisted_of_writesPairs (.step (a := .request (fun _ => 1) 5 2 .write) (.init ⟨1, erased, rfl⟩)
    (fun _ => by decide) rfl)

end Calib
