import TempSns.Lib.CString

/-!
# String functions of the kernel

Embedding of `rt_strncmp` and `rt_strncpy` of `src/kservice.c`.
-/

namespace Kservice

open CString List

variable {a b : UInt8} {i n : ℕ} {l w : List UInt8} {cs ct : ℕ → UInt8} {dst : ℕ → UInt8}

def rtStrncmp (cs ct : ℕ → UInt8) : ℕ → Int8
  | 0 => 0
  | count + 1 =>
    let res := (cs 0 - ct 0).toInt8
    if res ≠ 0 ∨ cs 0 = 0 then res
    else rtStrncmp (fun i => cs (i + 1)) (fun i => ct (i + 1)) count

/-- `rt_strncpy` from the index `i` on, for `n` bytes. -/
def strncpyFrom (dst src : ℕ → UInt8) (i : ℕ) : ℕ → ℕ → UInt8
  | 0 => dst
  | n + 1 =>
    if src i = 0 then
      -- NUL pad the remaining bytes
      fun j => if i ≤ j ∧ j < i + (n + 1) then 0 else dst j
    else strncpyFrom (Function.update dst i (src i)) src (i + 1) n

def rtStrncpy (dst src : ℕ → UInt8) (n : ℕ) : ℕ → UInt8 := strncpyFrom dst src 0 n

lemma toInt8_sub_eq_zero : (a - b).toInt8 = 0 ↔ a = b := by
  constructor
  · intro h
    have hsub : a - b = 0 := congrArg Int8.toUInt8 h
    rwa [UInt8.sub_eq_iff_eq_add, UInt8.zero_add] at hsub
  · rintro rfl
    rw [UInt8.sub_self]
    rfl

/-- The comparison depends on the first bytes only. -/
lemma rtStrncmp_congr {cs' : ℕ → UInt8} (h : ∀ i < n, cs i = cs' i) :
    rtStrncmp cs ct n = rtStrncmp cs' ct n := by
  induction n generalizing cs cs' ct with
  | zero => rfl
  | succ n ih =>
    rw [rtStrncmp, rtStrncmp, h 0 (by omega), ih fun i hi => h (i + 1) (by omega)]

/-- Two texts without zeros compare equal iff their first `n` bytes are the same. -/
lemma rtStrncmp_cstr (hl : 0 ∉ l) (hw : 0 ∉ w) :
    rtStrncmp (cstr l) (cstr w) n = 0 ↔ l.take n = w.take n := by
  induction n generalizing l w with
  | zero => simp [rtStrncmp]
  | succ n ih =>
    rw [rtStrncmp]
    cases l with
    | nil =>
      cases w with
      | nil => simp
      | cons b w =>
        have hb : b ≠ 0 := fun h => hw (h ▸ mem_cons_self)
        have hne : ((cstr [] 0) - (cstr (b :: w) 0)).toInt8 ≠ 0 := by
          rw [Ne, toInt8_sub_eq_zero]
          exact hb.symm
        simp only [if_pos (Or.inl hne)]
        simpa using hne
    | cons a l =>
      have ha : a ≠ 0 := fun h => hl (h ▸ mem_cons_self)
      have hl' : 0 ∉ l := fun h => hl (mem_cons_of_mem a h)
      cases w with
      | nil =>
        have hne : ((cstr (a :: l) 0) - (cstr [] 0)).toInt8 ≠ 0 := by
          rw [Ne, toInt8_sub_eq_zero]
          exact ha
        simp only [if_pos (Or.inl hne)]
        simpa using hne
      | cons b w =>
        have hw' : 0 ∉ w := fun h => hw (mem_cons_of_mem b h)
        rw [take_succ_cons, take_succ_cons]
        by_cases hab : a = b
        · -- the first bytes are equal
          subst hab
          have hres : ((cstr (a :: l) 0) - (cstr (a :: w) 0)).toInt8 = 0 :=
            toInt8_sub_eq_zero.mpr rfl
          simp only [hres]
          rw [if_neg (by simpa using ha)]
          simp only [cstr_cons_succ, cons.injEq, true_and]
          exact ih hl' hw'
        · have hne : ((cstr (a :: l) 0) - (cstr (b :: w) 0)).toInt8 ≠ 0 := by
            rw [Ne, toInt8_sub_eq_zero]
            exact hab
          simp only [if_pos (Or.inl hne)]
          simpa [hab] using hne

/-- What the copy holds from the index `i` on. -/
lemma strncpyFrom_eq {j : ℕ} (hl : 0 ∉ l) :
    strncpyFrom dst (cstr l) i n j = if i ≤ j ∧ j < i + n then cstr l j else dst j := by
  induction n generalizing dst i with
  | zero => rw [strncpyFrom, if_neg (by omega)]
  | succ n ih =>
    rw [strncpyFrom]
    by_cases hzero : cstr l i = 0
    · -- the end of the text
      have hend : l.length ≤ i := by
        by_contra hlt
        rw [cstr_of_lt (not_le.mp hlt)] at hzero
        exact hl (hzero ▸ getElem_mem (not_le.mp hlt))
      rw [if_pos hzero]
      split
      case isTrue hj => rw [cstr_of_ge (hend.trans hj.1)]
      case isFalse => rfl
    · rw [if_neg hzero, ih]
      by_cases hj : i = j
      · subst hj
        rw [if_neg (by omega), if_pos (by omega), Function.update_self]
      · rw [Function.update_of_ne (Ne.symm hj)]
        by_cases hin : i + 1 ≤ j ∧ j < i + 1 + n
        · rw [if_pos hin, if_pos (by omega)]
        · rw [if_neg hin, if_neg (by omega)]

lemma rtStrncpy_cstr (hl : 0 ∉ l) (hi : i < n) : rtStrncpy dst (cstr l) n i = cstr l i := by
  rw [rtStrncpy, strncpyFrom_eq hl, if_pos (by omega)]

end Kservice
