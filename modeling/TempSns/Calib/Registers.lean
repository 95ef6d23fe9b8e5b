import TempSns.Calib.Flash

/-!
# Calibration registers after a restart

`mbs_sts_init` of `user_mb_app.c` loads the calibration registers from the page that `iflash_init` has
left. The first part says which pair a restart loads. The second part is about a restart after
`wr_calc_data`, for all results of the HAL, and the third part about a reset in the middle of it.
-/

namespace Calib

open Function List

/-- `usSRegHoldBuf`. -/
abbrev Regs := ℕ → UInt16

def mbsRegCnt : ℕ := 0

def mbsAddrInd : ℕ := 1

def mbsStatusInd : ℕ := 2

def softVerInd : ℕ := 3

def calcKInd : ℕ := 4

def calcBInd : ℕ := 5

def tmp117TempInd : ℕ := 6

def ms5837LtempInd : ℕ := 7

def ms5837LpresInd : ℕ := 8

def maxInd : UInt16 := 9

def softVer : UInt16 := 0x0105

def calibration (regs : Regs) : UInt16 × UInt16 := (regs calcKInd, regs calcBInd)

/-- `mbs_sts_init`; `addr` is the value of `drv_autoaddr_get_addr`. -/
def mbsStsInit (addr : UInt8) (page : Page) (regs : Regs) : Regs :=
  let regs := update regs mbsRegCnt maxInd
  let regs := update regs softVerInd softVer
  let regs := update regs mbsAddrInd addr.toUInt16
  let regs := update regs calcKInd (rdCalcData page >>> 16).toUInt16
  update regs calcBInd (rdCalcData page &&& 0x0000ffff).toUInt16

/-- The page and the registers. -/
structure Device where
  page : Page
  regs : Regs

/-- `iflash_init` and `mbs_sts_init` after a reset: the page is kept, the registers are cleared. -/
def restart (hal : Hal) (addr : UInt8) (page : Page) : Device :=
  let (_, _, page) := iflashInit hal page
  ⟨page, mbsStsInit addr page fun _ => 0⟩

variable {hal hal' : Hal} {addr : UInt8} {page : Page}

lemma calibration_mbsStsInit (addr : UInt8) (page : Page) (regs : Regs) :
    calibration (mbsStsInit addr page regs) = unpack (page 1) := rfl

/-- The calibration word that a restart finds or leaves. -/
def restartWord (hal : Hal) (page : Page) : UInt32 :=
  if page 0 = progFlag then page 1
  else if hal.erases then hal.data.apply 0 0xFFFFFFFF
  else failedErases hal 10 0 page 1

lemma pack_zero : pack 0 0 = 0 := by decide

lemma calibration_restart (hal : Hal) (addr : UInt8) (page : Page) :
    calibration (restart hal addr page).regs = unpack (restartWord hal page) := by
  unfold restart restartWord iflashInit getProgramFlag iflashRdVal
  by_cases hflag : page 0 = progFlag
  · simp only [if_pos hflag, if_true, calibration_mbsStsInit]
  · rw [wrCalcData_eq]
    simp only [if_neg hflag, pack_zero, Int.reduceNeg, neg_eq_zero, one_ne_zero, if_false]
    cases hal.erases <;> simp only [calibration_mbsStsInit, if_true, Bool.false_eq_true, if_false,
      programmed_one]

/-! ## Restart after a write -/

/-- After `wr_calc_data` has returned 0, the next restart may load another pair only if the flag word is
wrong; it then writes the default pair, and what it loads is what its own calls leave. -/
def PairSurvives (hal hal' : Hal) (k b : Int16) : Prop :=
  hal.flag.apply progFlag 0xFFFFFFFF = progFlag ∨
    if hal'.erases then hal'.data.apply 0 0xFFFFFFFF = pack k b
    else failedErases hal' 10 0 (programmed hal (pack k b)) 1 = pack k b

/-- If `wr_calc_data` returns 0, the next restart loads the pair exactly if the flag was programmed, or
if the calls of the restart leave the same pair. -/
theorem restart_loads_iff (hal hal' : Hal) (addr : UInt8) (k b : Int16) (page : Page) :
    ((wrCalcData hal k b page).1 = 0 →
      calibration (restart hal' addr (wrCalcData hal k b page).2).regs = (k.toUInt16, b.toUInt16)) ↔
    (hal.erases = true → hal.data.isOk = true → PairSurvives hal hal' k b) := by
  rw [calibration_restart, ← unpack_pack, unpack_inj, wrCalcData_eq]
  cases herases : hal.erases with
  | false => simp
  | true =>
    cases hdata : hal.data with
    | error effect => simp [HalStatus.isOk]
    | ok =>
      have hword : programmed hal (pack k b) 1 = pack k b := by
        rw [programmed_one, hdata]
        rfl
      simp only [HalStatus.isOk, if_true, true_imp_iff, restartWord, PairSurvives, programmed_zero,
        hword]
      by_cases hflag : hal.flag.apply progFlag 0xFFFFFFFF = progFlag
      · simp only [hflag, if_true, true_or]
      · simp only [hflag, if_false, false_or]
        split <;> rfl

/-- The results of the HAL if only the flag is not programmed. -/
def flagFails : Hal := ⟨fun _ => .ok, .error id, .ok⟩

/-- The flag is not programmed, `wr_calc_data` returns 0, and the next restart replaces the pair. -/
theorem pair_lost_without_flag : (wrCalcData flagFails 7 (-3) erased).1 = 0 ∧
      calibration (restart Hal.allOk 1 (wrCalcData flagFails 7 (-3) erased).2).regs ≠
        (Int16.toUInt16 7, Int16.toUInt16 (-3)) := by
  decide

/-! ## Reset during a write -/

/-- What a write has done to the page when the device is reset. -/
inductive Progress where
  /-- Nothing. -/
  | none
  /-- The page is erased. -/
  | erased
  /-- The call for the flag has returned. -/
  | flag
  /-- The call for the data has returned. -/
  | data
  deriving DecidableEq, Repr

def Hal.progress (hal : Hal) (n : ℕ) : Progress :=
  match (range 10).find? fun timeout => (hal.erase timeout).isOk with
  | none => .none
  | some first =>
    if n ≤ first then .none
    else if n = first + 1 then .erased
    else if n = first + 2 then .flag
    else .data

lemma pageAfter_eq (hatomic : hal.Atomic) (wrData : UInt32) (n : ℕ) (page : Page) :
    pageAfter hal 1 wrData n page =
      match hal.progress n with
      | .none => page
      | .erased => erased
      | .flag => halFlashProgram hal.flag 0 progFlag erased
      | .data => programmed hal wrData := by
  unfold pageAfter Hal.progress
  cases hfind : (range 10).find? fun timeout => (hal.erase timeout).isOk with
  | none =>
    -- all attempts fail
    have herr : ∀ k, 0 ≤ k → k < 0 + 10 → (hal.erase k).isOk = false := by
      intro k _ hk
      have hk' := find?_eq_none.mp hfind k (mem_range.mpr (by omega))
      simpa using hk'
    rcases Nat.le_total n 10 with hn | hn
    · rw [iterate_wrStep_of_error hatomic (by omega) fun k hle hlt => herr k hle (by omega)]
    · obtain ⟨m, rfl⟩ := Nat.exists_eq_add_of_le' hn
      rw [iterate_add_apply, iterate_wrStep_of_error hatomic (by omega) herr]
      cases m with
      | zero => rfl
      | succ m =>
        rw [iterate_succ_apply]
        exact congrArg Prod.snd (iterate_wrStep_done m _ _)
  | some first =>
    obtain ⟨hok, hmem, hbefore⟩ : (hal.erase first).isOk = true ∧ first < 10 ∧
        ∀ k, k < first → (hal.erase k).isOk = false := by
      obtain ⟨hok, hmem, hbefore⟩ := find?_range_eq_some.mp hfind
      exact ⟨hok, mem_range.mp hmem, fun k hk => by simpa using hbefore k hk⟩
    have hstart : (wrStep hal 1 wrData)^[first + 1] (.erase 0, page) = (.flag, erased) := by
      rw [iterate_succ_apply',
        iterate_wrStep_of_error hatomic (by omega) fun k _ hk => hbefore k (by omega), wrStep]
      cases hcall : hal.erase first with
      | ok => simp [hmem, hcall]
      | error effect => simp [hcall, HalStatus.isOk] at hok
    rcases Nat.lt_or_ge first n with hn | hn
    · obtain ⟨m, rfl⟩ := Nat.exists_eq_add_of_le' (Nat.succ_le_of_lt hn)
      rw [Nat.succ_eq_add_one, iterate_add_apply, hstart]
      have hnot : ¬ m + (first + 1) ≤ first := by omega
      simp only [if_neg hnot]
      rcases m with - | - | m
      · simp
      · have hne : 0 + 1 + (first + 1) ≠ first + 1 := by omega
        have heq : 0 + 1 + (first + 1) = first + 2 := by omega
        simp only [if_neg hne, if_pos heq]
        rfl
      · have hne : m + 1 + 1 + (first + 1) ≠ first + 1 := by omega
        have hne' : m + 1 + 1 + (first + 1) ≠ first + 2 := by omega
        simp only [if_neg hne, if_neg hne']
        exact congrArg Prod.snd (iterate_wrStep_flag m erased)
    · rw [iterate_wrStep_of_error hatomic (by omega) fun k _ hk => hbefore k (by omega)]
      simp [hn]

def flagAtReset (hal : Hal) (n : ℕ) (page : Page) : Bool :=
  match hal.progress n with
  | .none => page 0 == progFlag
  | .erased => false
  | .flag | .data => hal.flag.isOk

/-- The write has erased the calibration word and has not programmed it at the reset. -/
def erasedAtReset (hal : Hal) (n : ℕ) : Bool :=
  match hal.progress n with
  | .none => false
  | .erased | .flag => true
  | .data => !hal.data.isOk

/-- The calibration word is erased after the next restart. -/
def leftErased (hal hal' : Hal) (n : ℕ) (page : Page) : Bool :=
  if flagAtReset hal n page || !hal'.erases then erasedAtReset hal n else !hal'.data.isOk

/-- A word that the next restart loads though it was not programmed: an erased one, or that of a page
without the flag which the write has not touched and the restart cannot erase. -/
def unwritten (hal hal' : Hal) (n : ℕ) (page : Page) : Option UInt32 :=
  if leftErased hal hal' n page then some 0xFFFFFFFF
  else if page 0 ≠ progFlag ∧ hal.progress n = .none ∧ hal'.erases = false then some (page 1)
  else none

lemma atomic_allOk : Hal.allOk.Atomic := ⟨fun _ => nofun, nofun, nofun⟩

lemma restartWord_of_atomic (hatomic : hal.Atomic) (page : Page) :
    restartWord hal page = if page 0 = progFlag ∨ hal.erases = false then page 1
      else if hal.data.isOk then 0 else 0xFFFFFFFF := by
  unfold restartWord
  by_cases hflag : page 0 = progFlag
  · simp only [hflag, if_true, true_or]
  · cases herases : hal.erases with
    | true => simp [hflag, HalStatus.apply_of_atomic hatomic.data]
    | false => simp [hflag, failedErases_of_atomic hatomic (erase_of_not_erases herases)]

/-- A restart after a reset loads an unwritten word, or the word of a restart before the write, the new
word or the default. -/
lemma restartWord_pageAfter (hatomic : hal.Atomic) (hatomic' : hal'.Atomic) (wrData : UInt32) (n : ℕ)
    (page : Page) :
    unwritten hal hal' n page = some (restartWord hal' (pageAfter hal 1 wrData n page)) ∨
      unwritten hal hal' n page = none ∧
        (restartWord hal' (pageAfter hal 1 wrData n page) = restartWord Hal.allOk page ∨
          restartWord hal' (pageAfter hal 1 wrData n page) = wrData ∨
          restartWord hal' (pageAfter hal 1 wrData n page) = 0) := by
  have hne : (0xFFFFFFFF : UInt32) ≠ progFlag := by decide
  rw [restartWord_of_atomic hatomic', pageAfter_eq hatomic]
  unfold unwritten leftErased flagAtReset erasedAtReset
  cases hal.progress n with
  | none =>
    -- the restart finds the page as it was
    by_cases hflag : page 0 = progFlag
    · exact .inr (by simp [hflag, restartWord])
    · cases hal'.erases <;> cases hal'.data.isOk <;> simp [hflag]
  | erased => cases hal'.erases <;> cases hal'.data.isOk <;> simp [erased, hne]
  | flag =>
    have hword : halFlashProgram hal.flag 0 progFlag erased 1 = 0xFFFFFFFF := rfl
    have hflag : halFlashProgram hal.flag 0 progFlag erased 0 = progFlag ↔ hal.flag.isOk = true := by
      simp only [halFlashProgram, update_self, HalStatus.apply_of_atomic hatomic.flag]
      cases hal.flag.isOk <;> simp [erased, hne]
    simp only [hword, hflag]
    cases hal.flag.isOk <;> cases hal'.erases <;> cases hal'.data.isOk <;> simp
  | data =>
    have hflag : programmed hal wrData 0 = progFlag ↔ hal.flag.isOk = true := by
      rw [programmed_zero, HalStatus.apply_of_atomic hatomic.flag]
      cases hal.flag.isOk <;> simp [hne]
    simp only [hflag, programmed_one, HalStatus.apply_of_atomic hatomic.data]
    cases hal.flag.isOk <;> cases hal.data.isOk <;> cases hal'.erases <;> cases hal'.data.isOk <;> simp

/-- The pair is the previous one, which a restart loads from the page before the write of `(k, b)`, the
new one or the default. -/
def Expected (addr : UInt8) (page : Page) (k b : Int16) (pair : UInt16 × UInt16) : Prop :=
  pair = calibration (restart Hal.allOk addr page).regs ∨ pair = (k.toUInt16, b.toUInt16) ∨
    pair = (0, 0)

instance (addr : UInt8) (page : Page) (k b : Int16) : DecidablePred (Expected addr page k b) :=
  fun _ => inferInstanceAs (Decidable (_ ∨ _ ∨ _))

/-- After a reset during a write of the pair `(k, b)`, the next restart loads the previous pair, the new
one or the default exactly if it does not load an unwritten word, or if the pair of that word is one of
the three. -/
theorem restart_after_reset_iff (hatomic : hal.Atomic) (hatomic' : hal'.Atomic) (addr : UInt8)
    (k b : Int16) (n : ℕ) (page : Page) :
    Expected addr page k b
        (calibration (restart hal' addr (pageAfter hal 1 (pack k b) n page)).regs) ↔
      ∀ word ∈ unwritten hal hal' n page, Expected addr page k b (unpack word) := by
  rw [calibration_restart]
  rcases restartWord_pageAfter hatomic hatomic' (pack k b) n page with hsome | ⟨hnone, hword⟩
  · simp [hsome]
  · have hzero : ((0 : UInt16), (0 : UInt16)) = unpack 0 := by decide
    simp only [hnone, Option.mem_def, reduceCtorEq, false_imp_iff, implies_true, iff_true]
    rw [Expected, calibration_restart, ← unpack_pack, hzero]
    simpa only [unpack_inj] using hword

def pageOf (k b : Int16) : Page := programmed Hal.allOk (pack k b)

/-- The device is reset when the page is erased: the default is loaded. -/
theorem restart_after_reset_erased : unwritten Hal.allOk Hal.allOk 1 (pageOf 7 (-3)) = none ∧
    Expected 1 (pageOf 7 (-3)) 9 2 (calibration
      (restart Hal.allOk 1 (pageAfter Hal.allOk 1 (pack 9 2) 1 (pageOf 7 (-3)))).regs) := by
  have hnone : unwritten Hal.allOk Hal.allOk 1 (pageOf 7 (-3)) = none := by decide
  refine ⟨hnone, (restart_after_reset_iff atomic_allOk atomic_allOk 1 9 2 1 _).mpr fun word hword => ?_⟩
  cases hnone.symm.trans hword

/-- The device is reset between the two program calls: the restart finds the flag and loads the
erased word. -/
theorem erased_word_loaded : ¬ Expected 1 (pageOf 7 (-3)) 9 2 (calibration
      (restart Hal.allOk 1 (pageAfter Hal.allOk 1 (pack 9 2) 2 (pageOf 7 (-3)))).regs) := by
  decide

end Calib
