import Mathlib.Tactic

/-!
# Calibration data in flash

Embedding of `drv_flash.c`. One page holds a flag word at the offset 0 and the calibration word at
the offset 1. `iflash_wr_val` erases the page, with up to ten attempts, and then programs both words.

A call of the HAL succeeds or fails. A program operation writes the word half by half and stops at the
first error, so what a failed call leaves behind is open: `HalStatus.error` carries its effect. A call
is atomic if it has no effect when it fails.
-/

namespace Calib

open Function

abbrev Page := ℕ → UInt32

def erased : Page := fun _ => 0xFFFFFFFF

def progFlag : UInt32 := 0x9bdf1bdf

/-- The result of a call of the HAL. -/
inductive HalStatus (α : Type) where
  | ok
  /-- Any other result, with what the call did to its operand. -/
  | error (effect : α → α)

namespace HalStatus

/-- The call succeeds. -/
def isOk {α : Type} : HalStatus α → Bool
  | .ok => true
  | .error _ => false

/-- A value after a call that sets it to `target`. -/
def apply {α : Type} (target : α) : HalStatus α → α → α
  | .ok, _ => target
  | .error effect, a => effect a

def Atomic {α : Type} (r : HalStatus α) : Prop := ∀ effect, r = .error effect → effect = id

lemma apply_of_atomic {α : Type} {r : HalStatus α} (h : r.Atomic) (target a : α) :
    r.apply target a = if r.isOk then target else a := by
  cases r with
  | ok => rfl
  | error effect =>
    obtain rfl := h effect rfl
    rfl

end HalStatus

/-- The results of the HAL in one call of `iflash_wr_val`. -/
structure Hal where
  /-- The attempts of `HAL_FLASHEx_Erase`. -/
  erase : ℕ → HalStatus Page
  /-- `HAL_FLASH_Program` for the flag. -/
  flag : HalStatus UInt32
  /-- `HAL_FLASH_Program` for the data. -/
  data : HalStatus UInt32

namespace Hal

/-- Every call succeeds. -/
def allOk : Hal := ⟨fun _ => .ok, .ok, .ok⟩

/-- No call has an effect if it fails. -/
structure Atomic (hal : Hal) : Prop where
  erase : ∀ timeout, (hal.erase timeout).Atomic
  flag : hal.flag.Atomic
  data : hal.data.Atomic

/-- Some attempt to erase the page succeeds. -/
def erases (hal : Hal) : Bool := (List.range 10).any fun timeout => (hal.erase timeout).isOk

end Hal

def iflashRdVal (offset : ℕ) (page : Page) : UInt32 := page offset

/-- `HAL_FLASH_Program` at an offset of the page. -/
def halFlashProgram (r : HalStatus UInt32) (offset : ℕ) (data : UInt32) (page : Page) : Page :=
  update page offset (r.apply data (page offset))

/-- The `while` loop of `iflash_wr_val`, with `attempts` rounds left: the value of `timeout` and the
page at its end. -/
def eraseLoop (hal : Hal) : (attempts timeout : ℕ) → Page → ℕ × Page
  | 0, timeout, page => (timeout, page)
  | attempts + 1, timeout, page =>
    match hal.erase timeout with
    | .ok => (timeout, erased)
    | .error effect => eraseLoop hal attempts (timeout + 1) (effect page)

def iflashWrVal (hal : Hal) (offset : ℕ) (wrData : UInt32) (page : Page) : ℤ × Page :=
  let (timeout, page) := eraseLoop hal 10 0 page
  if timeout ≥ 10 then (-1, page)
  else
    -- the result of the first program call is only printed
    let page := halFlashProgram hal.flag 0 progFlag page
    let ret := if hal.data.isOk then 0 else -1
    (ret, halFlashProgram hal.data offset wrData page)

def getProgramFlag (page : Page) : ℤ := if iflashRdVal 0 page = progFlag then 0 else -1

def rdCalcData (page : Page) : UInt32 := iflashRdVal 1 page

/-- `buf` in `wr_calc_data`, with the sign extension of its arguments. -/
def pack (startDat endDat : Int16) : UInt32 :=
  (startDat.toInt32.toUInt32 <<< 16) ||| (endDat.toInt32.toUInt32 &&& 0x0000ffff)

def wrCalcData (hal : Hal) (startDat endDat : Int16) (page : Page) : ℤ × Page :=
  let (ret, page) := iflashWrVal hal 1 (pack startDat endDat) page
  if ret = 0 then (0, page) else (-1, page)

/-- The result, which has no value if the flag is found, `prog` and the page. -/
def iflashInit (hal : Hal) (page : Page) : Option ℤ × Bool × Page :=
  if getProgramFlag page = 0 then (none, true, page)
  else
    let (ret, page) := wrCalcData hal 0 0 page
    (some ret, false, page)

/-! ## Packing -/

/-- The two halves of the calibration word. -/
def unpack (w : UInt32) : UInt16 × UInt16 := ((w >>> 16).toUInt16, (w &&& 0x0000ffff).toUInt16)

lemma unpack_pack (startDat endDat : Int16) :
    unpack (pack startDat endDat) = (startDat.toUInt16, endDat.toUInt16) := by
  have hhigh : ∀ i, i < 16 → (65535#32).getLsbD (16 + i) = false := by decide
  have hlow : ∀ i, i < 16 → (65535#16).getLsbD i = true := by decide
  apply Prod.ext
  · -- the mask keeps the sign of the second argument out of the first half
    apply UInt16.toBitVec_inj.mp
    ext i hi
    have hlt : i < 32 := by omega
    have hlt' : 16 + i < 32 := by omega
    have hmask := hhigh i hi
    rw [BitVec.getLsbD_eq_getElem hlt'] at hmask
    simp [unpack, pack, BitVec.getElem_signExtend, hi, hlt, hlt', hmask]
  · apply UInt16.toBitVec_inj.mp
    ext i hi
    have hlt : i < 32 := by omega
    have hmask := hlow i hi
    rw [BitVec.getLsbD_eq_getElem hi] at hmask
    simp [unpack, pack, BitVec.getElem_signExtend, hi, hlt, hmask]

lemma unpack_inj {w v : UInt32} : unpack w = unpack v ↔ w = v := by
  refine ⟨fun h => ?_, congrArg unpack⟩
  have hw := w.toNat_lt
  have hv := v.toNat_lt
  have hhigh := congrArg (fun pair => pair.1.toNat) h
  have hlow := congrArg (fun pair => pair.2.toNat) h
  have hmask : (65535 : ℕ) = 2 ^ 16 - 1 := rfl
  simp only [unpack, UInt32.toNat_toUInt16, UInt32.toNat_shiftRight, UInt32.toNat_and,
    UInt32.reduceToNat, Nat.shiftRight_eq_div_pow, Nat.reduceMod] at hhigh hlow
  rw [hmask, Nat.and_two_pow_sub_one_eq_mod, Nat.and_two_pow_sub_one_eq_mod] at hlow
  apply UInt32.toNat_inj.mp
  omega

/-! ## Erase loop -/

variable {hal : Hal} {page : Page} {attempts timeout : ℕ}

lemma eraseLoop_of_ok (page : Page)
    (hok : ∃ k, timeout ≤ k ∧ k < timeout + attempts ∧ (hal.erase k).isOk = true) :
    (eraseLoop hal attempts timeout page).1 < timeout + attempts ∧
      (eraseLoop hal attempts timeout page).2 = erased := by
  induction attempts generalizing timeout page with
  | zero =>
    obtain ⟨k, hle, hlt, -⟩ := hok
    omega
  | succ attempts ih =>
    unfold eraseLoop
    split
    case h_1 => exact ⟨by simp, rfl⟩
    case h_2 effect herr =>
      -- the attempt `timeout` failed, so the successful one is later
      obtain ⟨k, hle, hlt, hk⟩ := hok
      have hne : k ≠ timeout := by
        rintro rfl
        simp [herr, HalStatus.isOk] at hk
      have hlater : ∃ k, timeout + 1 ≤ k ∧ k < timeout + 1 + attempts ∧ (hal.erase k).isOk = true :=
        ⟨k, by omega, by omega, hk⟩
      obtain ⟨hres, hpage⟩ := ih (effect page) hlater
      exact ⟨by omega, hpage⟩

def failedErases (hal : Hal) : (attempts timeout : ℕ) → Page → Page
  | 0, _, page => page
  | attempts + 1, timeout, page =>
    failedErases hal attempts (timeout + 1) ((hal.erase timeout).apply erased page)

lemma eraseLoop_of_error
    (herr : ∀ k, timeout ≤ k → k < timeout + attempts → (hal.erase k).isOk = false) :
    eraseLoop hal attempts timeout page =
      (timeout + attempts, failedErases hal attempts timeout page) := by
  induction attempts generalizing timeout page with
  | zero => rfl
  | succ attempts ih =>
    have hnow := herr timeout le_rfl (by omega)
    unfold eraseLoop failedErases
    cases hcall : hal.erase timeout with
    | ok => simp [hcall, HalStatus.isOk] at hnow
    | error effect =>
      simp only [HalStatus.apply]
      rw [ih fun k hle hlt => herr k (by omega) (by omega)]
      simp only [Prod.mk.injEq, and_true]
      omega

lemma failedErases_of_atomic (hatomic : hal.Atomic)
    (herr : ∀ k, timeout ≤ k → k < timeout + attempts → (hal.erase k).isOk = false) :
    failedErases hal attempts timeout page = page := by
  induction attempts generalizing timeout with
  | zero => rfl
  | succ attempts ih =>
    have hnow := herr timeout le_rfl (by omega)
    unfold failedErases
    rw [HalStatus.apply_of_atomic (hatomic.erase timeout), if_neg (by simp [hnow])]
    exact ih fun k hle hlt => herr k (by omega) (by omega)

/-! ## What a call writes -/

/-- The flag word and the data word that the two program calls leave on an erased page. -/
def programmed (hal : Hal) (wrData : UInt32) : Page :=
  halFlashProgram hal.data 1 wrData (halFlashProgram hal.flag 0 progFlag erased)

@[simp]
lemma programmed_zero (hal : Hal) (wrData : UInt32) :
    programmed hal wrData 0 = hal.flag.apply progFlag 0xFFFFFFFF := by
  simp [programmed, halFlashProgram, erased]

@[simp]
lemma programmed_one (hal : Hal) (wrData : UInt32) :
    programmed hal wrData 1 = hal.data.apply wrData 0xFFFFFFFF := by
  simp [programmed, halFlashProgram, erased]

lemma erases_iff : hal.erases = true ↔ ∃ k, k < 10 ∧ (hal.erase k).isOk = true := by
  simp [Hal.erases]

lemma erase_of_not_erases (h : hal.erases = false) :
    ∀ k, 0 ≤ k → k < 0 + 10 → (hal.erase k).isOk = false := by
  intro k _ hk
  by_contra hok
  rw [erases_iff.mpr ⟨k, by omega, by simpa using hok⟩] at h
  cases h

lemma wrCalcData_eq (hal : Hal) (startDat endDat : Int16) (page : Page) :
    wrCalcData hal startDat endDat page =
      if hal.erases then
        (if hal.data.isOk then 0 else -1, programmed hal (pack startDat endDat))
      else (-1, failedErases hal 10 0 page) := by
  unfold wrCalcData iflashWrVal
  cases herases : hal.erases with
  | true =>
    obtain ⟨k, hk, hok⟩ := erases_iff.mp herases
    have hsome : ∃ k, 0 ≤ k ∧ k < 0 + 10 ∧ (hal.erase k).isOk = true :=
      ⟨k, Nat.zero_le k, by omega, hok⟩
    obtain ⟨hlt, hpage⟩ := eraseLoop_of_ok page hsome
    have hnot : ¬ (eraseLoop hal 10 0 page).1 ≥ 10 := by omega
    simp only [if_neg hnot, hpage, if_true]
    cases hal.data.isOk <;> rfl
  | false =>
    simp [eraseLoop_of_error (erase_of_not_erases herases)]

/-! ## One call of the HAL at a time -/

/-- Where `iflash_wr_val` is. -/
inductive WrPc where
  /-- In the loop. -/
  | erase (timeout : ℕ)
  /-- Before the flag is programmed. -/
  | flag
  /-- Before the data is programmed. -/
  | data
  /-- At the end. -/
  | done (ret : ℤ)

/-- `iflash_wr_val` up to its next call of the HAL. -/
def wrStep (hal : Hal) (offset : ℕ) (wrData : UInt32) : WrPc × Page → WrPc × Page
  | (.erase timeout, page) =>
    if timeout < 10 then
      match hal.erase timeout with
      | .ok => (.flag, erased)
      | .error effect => (.erase (timeout + 1), effect page)
    else (.done (-1), page)
  | (.flag, page) => (.data, halFlashProgram hal.flag 0 progFlag page)
  | (.data, page) =>
    (.done (if hal.data.isOk then 0 else -1), halFlashProgram hal.data offset wrData page)
  | (.done ret, page) => (.done ret, page)

def pageAfter (hal : Hal) (offset : ℕ) (wrData : UInt32) (n : ℕ) (page : Page) : Page :=
  ((wrStep hal offset wrData)^[n] (.erase 0, page)).2

variable {offset : ℕ} {wrData : UInt32}

lemma iterate_wrStep_done (n : ℕ) (ret : ℤ) (page : Page) :
    (wrStep hal offset wrData)^[n] (.done ret, page) = (.done ret, page) := by
  induction n with
  | zero => rfl
  | succ n ih => rw [iterate_succ_apply, wrStep, ih]

lemma iterate_wrStep_flag (n : ℕ) (page : Page) :
    (wrStep hal offset wrData)^[n + 2] (.flag, page) = (.done (if hal.data.isOk then 0 else -1),
        halFlashProgram hal.data offset wrData (halFlashProgram hal.flag 0 progFlag page)) := by
  rw [iterate_add_apply]
  exact iterate_wrStep_done n _ _

lemma iterate_wrStep_erase (hsum : timeout + attempts = 10) (page : Page) :
    (wrStep hal offset wrData)^[attempts + 3] (.erase timeout, page) =
      (let (timeout, page) := eraseLoop hal attempts timeout page
      if timeout ≥ 10 then (.done (-1), page)
      else (.done (if hal.data.isOk then 0 else -1),
        halFlashProgram hal.data offset wrData (halFlashProgram hal.flag 0 progFlag page))) := by
  induction attempts generalizing timeout page with
  | zero =>
    have hten : ¬ timeout < 10 := by omega
    have hge : timeout ≥ 10 := by omega
    rw [iterate_succ_apply, wrStep, if_neg hten, iterate_wrStep_done]
    exact (if_pos hge).symm
  | succ attempts ih =>
    have hlt : timeout < 10 := by omega
    have hnot : ¬ timeout ≥ 10 := by omega
    rw [show attempts + 1 + 3 = (attempts + 3) + 1 from rfl, iterate_succ_apply, wrStep, if_pos hlt]
    unfold eraseLoop
    cases hal.erase timeout with
    | ok =>
      simp only [if_neg hnot]
      exact iterate_wrStep_flag (attempts + 1) erased
    | error effect => exact ih (by omega) (effect page)

/-- The steps are those of the call: after thirteen of them it has returned. -/
theorem iterate_wrStep_eq (page : Page) : (wrStep hal offset wrData)^[13] (.erase 0, page) =
      (.done (iflashWrVal hal offset wrData page).1, (iflashWrVal hal offset wrData page).2) := by
  rw [iterate_wrStep_erase (by rfl : 0 + 10 = 10)]
  unfold iflashWrVal
  simp only
  split <;> rfl

/-- Before the first attempt that succeeds, an atomic call leaves the page as it is. -/
lemma iterate_wrStep_of_error (hatomic : hal.Atomic) {n timeout : ℕ} (hn : timeout + n ≤ 10)
    (herr : ∀ k, timeout ≤ k → k < timeout + n → (hal.erase k).isOk = false) (page : Page) :
    (wrStep hal offset wrData)^[n] (.erase timeout, page) = (.erase (timeout + n), page) := by
  induction n generalizing timeout with
  | zero => rfl
  | succ n ih =>
    have hlt : timeout < 10 := by omega
    have hnow := herr timeout le_rfl (by omega)
    rw [iterate_succ_apply, wrStep, if_pos hlt]
    cases hcall : hal.erase timeout with
    | ok => simp [hcall, HalStatus.isOk] at hnow
    | error effect =>
      obtain rfl := hatomic.erase timeout effect hcall
      simp only [id_eq]
      rw [ih (by omega) fun k hle hlt => herr k (by omega) (by omega)]
      congr 2
      omega

end Calib
