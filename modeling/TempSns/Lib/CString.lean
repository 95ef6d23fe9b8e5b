import Mathlib.Data.List.GetD
import Mathlib.Tactic

/-!
# Strings of bytes with a NUL at the end

A buffer is a map from indices to bytes. `cstr l` is the buffer that holds the bytes of `l` and zeros
behind them.
-/

namespace CString

open Function List

variable {a : UInt8} {i : ℕ} {l w : List UInt8} {k : ℕ} {size : ℕ}

/-- The bytes of a list, and zeros behind them. -/
def cstr (l : List UInt8) : ℕ → UInt8 := fun i => l.getD i 0

@[simp] lemma cstr_nil : cstr [] = fun _ => 0 := rfl

@[simp] lemma cstr_cons_zero : cstr (a :: l) 0 = a := rfl

@[simp] lemma cstr_cons_succ : cstr (a :: l) (i + 1) = cstr l i := rfl

lemma cstr_of_lt (hi : i < l.length) : cstr l i = l[i] := by
  rw [cstr, getD_eq_getElem _ _ hi]

lemma cstr_of_ge (hi : l.length ≤ i) : cstr l i = 0 := getD_eq_default _ _ hi

lemma cstr_append_of_lt (hi : i < l.length) : cstr (l ++ w) i = cstr l i := by
  rw [cstr_of_lt hi, cstr_of_lt (by rw [length_append]; omega), getElem_append_left hi]

lemma cstr_append_of_ge (hi : l.length ≤ i) : cstr (l ++ w) i = cstr w (i - l.length) := by
  rw [cstr, getD_append_right _ _ _ _ hi]
  rfl

@[simp] lemma cstr_append_add : cstr (l ++ w) (l.length + k) = cstr w k := by
  rw [cstr_append_of_ge (Nat.le_add_right _ _), Nat.add_sub_cancel_left]

lemma cstr_drop : cstr (l.drop k) i = cstr l (k + i) := by
  rw [cstr, cstr, getD_eq_getElem?_getD, getD_eq_getElem?_getD, getElem?_drop]

lemma cstr_take (hi : i < k) : cstr (l.take k) i = cstr l i := by
  rw [cstr, cstr, getD_eq_getElem?_getD, getD_eq_getElem?_getD, getElem?_take_of_lt hi]

/-- A byte is written behind the text `l`, over what stood there. -/
lemma update_cstr (l : List UInt8) (b : UInt8) (hw : w.length ≤ 1) :
    update (cstr (l ++ w)) l.length b = cstr (l ++ [b]) := by
  funext i
  rcases lt_trichotomy i l.length with hlt | rfl | hgt
  · rw [update_of_ne hlt.ne, cstr_append_of_lt hlt, cstr_append_of_lt hlt]
  · rw [update_self, cstr_append_of_ge le_rfl, Nat.sub_self, cstr_cons_zero]
  · rw [update_of_ne hgt.ne', cstr_of_ge (by rw [length_append]; omega),
      cstr_of_ge (by rw [length_append, length_singleton]; omega)]

lemma cstr_append_zero (l : List UInt8) : cstr (l ++ [0]) = cstr l := by
  funext i
  rcases lt_or_ge i l.length with hlt | hge
  · exact cstr_append_of_lt hlt
  · rw [cstr_append_of_ge hge, cstr_of_ge hge]
    cases i - l.length with
    | zero => rfl
    | succ k => rfl

/-- The length of the string in a buffer of `size` bytes, if the string ends in it. -/
def strlen (size : ℕ) (s : ℕ → UInt8) : Option ℕ := (range size).find? fun i => s i = 0

lemma cstr_ne_zero (hl : 0 ∉ l) (hi : i < l.length) : cstr l i ≠ 0 := by
  rw [cstr_of_lt hi]
  exact fun hzero => hl (hzero ▸ getElem_mem hi)

lemma strlen_cstr (hl : 0 ∉ l) (hsize : l.length < size) :
    strlen size (cstr l) = some l.length := by
  rw [strlen, find?_range_eq_some]
  refine ⟨by rw [cstr_of_ge le_rfl]; rfl, mem_range.mpr hsize, ?_⟩
  intro i hi
  simpa using cstr_ne_zero hl hi

lemma strlen_cstr_of_le (hl : 0 ∉ l) (hsize : size ≤ l.length) : strlen size (cstr l) = none := by
  rw [strlen, find?_eq_none]
  intro i hi
  simpa using cstr_ne_zero hl ((mem_range.mp hi).trans_le hsize)

/-- A byte is inserted between `l` and `w` by a move of `w`. -/
lemma insert_cstr (l w : List UInt8) (b : UInt8) :
    update (fun i => if l.length < i ∧ i ≤ l.length + w.length then cstr (l ++ w) (i - 1)
      else cstr (l ++ w) i) l.length b = cstr (l ++ b :: w) := by
  funext i
  rcases lt_trichotomy i l.length with hlt | rfl | hgt
  · rw [update_of_ne hlt.ne, if_neg (by omega), cstr_append_of_lt hlt, cstr_append_of_lt hlt]
  · rw [update_self, cstr_append_of_ge le_rfl, Nat.sub_self, cstr_cons_zero]
  · obtain ⟨k, rfl⟩ := Nat.exists_eq_add_of_lt hgt
    rw [update_of_ne hgt.ne', Nat.add_sub_cancel, cstr_append_add, Nat.add_assoc,
      cstr_append_add, cstr_append_add, cstr_cons_succ]
    split
    case isTrue => rfl
    case isFalse hout => rw [cstr_of_ge (by omega), cstr_of_ge (by omega)]

/-- The byte between `l` and `w` is deleted by a move of `w`, and the last byte is cleared. -/
lemma delete_cstr (l w : List UInt8) (b : UInt8) :
    update (fun i => if l.length ≤ i ∧ i < l.length + w.length then cstr (l ++ b :: w) (i + 1)
      else cstr (l ++ b :: w) i) (l.length + w.length) 0 = cstr (l ++ w) := by
  funext i
  rcases eq_or_ne i (l.length + w.length) with rfl | hne
  · rw [update_self, cstr_of_ge (by rw [length_append])]
  · rw [update_of_ne hne]
    rcases lt_or_ge i l.length with hlt | hge
    · rw [if_neg (by omega), cstr_append_of_lt hlt, cstr_append_of_lt hlt]
    · obtain ⟨k, rfl⟩ := Nat.exists_eq_add_of_le hge
      rw [Nat.add_assoc, cstr_append_add, cstr_append_add, cstr_append_add, cstr_cons_succ]
      split
      case isTrue => rfl
      case isFalse hout =>
        rw [cstr_of_ge (by rw [length_cons]; omega), cstr_of_ge (by omega)]

end CString
