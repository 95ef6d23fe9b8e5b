import Mathlib.Tactic

/-!
# Find first set

Embedding of `__rt_ffs` of `src/kservice.c`, which finds the least significant set bit of a word
with one table look-up per byte. `rtFfs_lowest` is its specification: for a word that is not zero
the result is one more than the index of the lowest set bit.
-/

namespace Sched

open BitVec

/-- The index of the lowest set bit of a byte. -/
def lowestBitBitmap : List ℕ :=
  [0, 0, 1, 0, 2, 0, 1, 0, 3, 0, 1, 0, 2, 0, 1, 0,
   4, 0, 1, 0, 2, 0, 1, 0, 3, 0, 1, 0, 2, 0, 1, 0,
   5, 0, 1, 0, 2, 0, 1, 0, 3, 0, 1, 0, 2, 0, 1, 0,
   4, 0, 1, 0, 2, 0, 1, 0, 3, 0, 1, 0, 2, 0, 1, 0,
   6, 0, 1, 0, 2, 0, 1, 0, 3, 0, 1, 0, 2, 0, 1, 0,
   4, 0, 1, 0, 2, 0, 1, 0, 3, 0, 1, 0, 2, 0, 1, 0,
   5, 0, 1, 0, 2, 0, 1, 0, 3, 0, 1, 0, 2, 0, 1, 0,
   4, 0, 1, 0, 2, 0, 1, 0, 3, 0, 1, 0, 2, 0, 1, 0,
   7, 0, 1, 0, 2, 0, 1, 0, 3, 0, 1, 0, 2, 0, 1, 0,
   4, 0, 1, 0, 2, 0, 1, 0, 3, 0, 1, 0, 2, 0, 1, 0,
   5, 0, 1, 0, 2, 0, 1, 0, 3, 0, 1, 0, 2, 0, 1, 0,
   4, 0, 1, 0, 2, 0, 1, 0, 3, 0, 1, 0, 2, 0, 1, 0,
   6, 0, 1, 0, 2, 0, 1, 0, 3, 0, 1, 0, 2, 0, 1, 0,
   4, 0, 1, 0, 2, 0, 1, 0, 3, 0, 1, 0, 2, 0, 1, 0,
   5, 0, 1, 0, 2, 0, 1, 0, 3, 0, 1, 0, 2, 0, 1, 0,
   4, 0, 1, 0, 2, 0, 1, 0, 3, 0, 1, 0, 2, 0, 1, 0]

def rtFfs (value : BitVec 32) : ℕ :=
  if value = 0 then 0
  else if value &&& 0xff ≠ 0 then
    lowestBitBitmap.getD (value &&& 0xff).toNat 0 + 1
  else if value &&& 0xff00 ≠ 0 then
    lowestBitBitmap.getD ((value &&& 0xff00) >>> 8).toNat 0 + 9
  else if value &&& 0xff0000 ≠ 0 then
    lowestBitBitmap.getD ((value &&& 0xff0000) >>> 16).toNat 0 + 17
  else
    lowestBitBitmap.getD ((value &&& 0xff000000) >>> 24).toNat 0 + 25

/-- `n` is the index of the lowest set bit of `v`. -/
structure IsLowestBit {w : ℕ} (v : BitVec w) (n : ℕ) : Prop where
  set : v.getLsbD n = true
  clear : ∀ i < n, v.getLsbD i = false

/-- The table is right for every byte that is not zero. -/
lemma lowestBitBitmap_spec : ∀ b : BitVec 8, b ≠ 0 →
    b.getLsbD (lowestBitBitmap.getD b.toNat 0) = true ∧
      ∀ i < lowestBitBitmap.getD b.toNat 0, b.getLsbD i = false := by
  decide +kernel

def byteAt (v : BitVec 32) (k : ℕ) : BitVec 8 := (v >>> k).setWidth 8

lemma getLsbD_byteAt {v : BitVec 32} {k i : ℕ} :
    (byteAt v k).getLsbD i = (decide (i < 8) && v.getLsbD (k + i)) := by
  simp [byteAt]

/-- The lowest set bit of a word is in its first byte that is not zero. -/
lemma isLowestBit_of_byte {v : BitVec 32} {k : ℕ} (hlow : ∀ i < k, v.getLsbD i = false)
    (hbyte : byteAt v k ≠ 0) :
    IsLowestBit v (lowestBitBitmap.getD (byteAt v k).toNat 0 + k) := by
  obtain ⟨hset, hclear⟩ := lowestBitBitmap_spec _ hbyte
  simp only [getLsbD_byteAt, Bool.and_eq_true, decide_eq_true_eq] at hset hclear
  obtain ⟨hlt, hset⟩ := hset
  refine ⟨by rwa [Nat.add_comm], fun i hi => ?_⟩
  by_cases hik : i < k
  · exact hlow i hik
  · have hbit := hclear (i - k) (by omega)
    rwa [show k + (i - k) = i by omega, decide_eq_true (by omega), Bool.true_and] at hbit

lemma clear_of_byteAt {v : BitVec 32} {k : ℕ} (hbyte : byteAt v k = 0) :
    ∀ i, k ≤ i → i < k + 8 → v.getLsbD i = false := by
  intro i hlo hhi
  have hbit : (byteAt v k).getLsbD (i - k) = false := by rw [hbyte]; simp
  rwa [getLsbD_byteAt, show k + (i - k) = i by omega, decide_eq_true (by omega),
    Bool.true_and] at hbit

lemma getLsbD_mask {k i : ℕ} (hi : i < 32) :
    (0xff#32 <<< k).getLsbD i = (decide (k ≤ i) && decide (i < k + 8)) := by
  have hff : 0xff#32 = BitVec.ofNat 32 (2 ^ 8 - 1) := rfl
  rw [hff, getLsbD_shiftLeft, getLsbD_ofNat, Nat.testBit_two_pow_sub_one]
  rw [Bool.eq_iff_iff]
  simp only [Bool.and_eq_true, Bool.not_eq_true', decide_eq_true_eq, decide_eq_false_iff_not]
  omega

lemma mask_shift (v : BitVec 32) (k : ℕ) :
    (v &&& (0xff#32 <<< k)) >>> k = (byteAt v k).setWidth 32 := by
  refine eq_of_getLsbD_eq fun i hi => ?_
  rw [getLsbD_ushiftRight, getLsbD_and, getLsbD_setWidth, getLsbD_byteAt]
  by_cases hki : k + i < 32
  · rw [getLsbD_mask hki]
    simp [hi, Bool.and_comm]
  · simp [getLsbD_of_ge v (k + i) (by omega)]

lemma mask_toNat (v : BitVec 32) (k : ℕ) :
    ((v &&& (0xff#32 <<< k)) >>> k).toNat = (byteAt v k).toNat := by
  rw [mask_shift, toNat_setWidth]
  exact Nat.mod_eq_of_lt ((byteAt v k).isLt.trans (by norm_num))

lemma mask_eq_zero {v : BitVec 32} {k : ℕ} : v &&& (0xff#32 <<< k) = 0 ↔ byteAt v k = 0 := by
  constructor
  · intro hmask
    have htoNat := mask_toNat v k
    rw [hmask] at htoNat
    exact eq_of_toNat_eq (by simpa using htoNat.symm)
  · intro hbyte
    refine eq_of_getLsbD_eq fun i hi => ?_
    rw [getLsbD_and, getLsbD_mask hi]
    by_cases hin : k ≤ i ∧ i < k + 8
    · rw [clear_of_byteAt hbyte i hin.1 hin.2]
      simp
    · simp only [not_and_or, not_le, not_lt] at hin
      rcases hin with hin | hin <;> simp [hin]

lemma rtFfs_lowest {v : BitVec 32} (hv : v ≠ 0) : 0 < rtFfs v ∧ IsLowestBit v (rtFfs v - 1) := by
  have h0 : v &&& 0xff = 0 ↔ byteAt v 0 = 0 := mask_eq_zero (k := 0)
  have h8 : v &&& 0xff00 = 0 ↔ byteAt v 8 = 0 := mask_eq_zero (k := 8)
  have h16 : v &&& 0xff0000 = 0 ↔ byteAt v 16 = 0 := mask_eq_zero (k := 16)
  have t0 : (v &&& 0xff).toNat = (byteAt v 0).toNat := mask_toNat v 0
  have t8 : ((v &&& 0xff00) >>> 8).toNat = (byteAt v 8).toNat := mask_toNat v 8
  have t16 : ((v &&& 0xff0000) >>> 16).toNat = (byteAt v 16).toNat := mask_toNat v 16
  have t24 : ((v &&& 0xff000000) >>> 24).toNat = (byteAt v 24).toNat := mask_toNat v 24
  unfold rtFfs
  rw [if_neg hv, t0, t8, t16, t24]
  simp only [ne_eq, h0, h8, h16]
  by_cases hb0 : byteAt v 0 = 0
  swap
  · rw [if_pos hb0]
    exact ⟨by omega, isLowestBit_of_byte (k := 0) (by simp) hb0⟩
  have c0 := clear_of_byteAt hb0
  rw [if_neg (not_not.mpr hb0)]
  by_cases hb8 : byteAt v 8 = 0
  swap
  · rw [if_pos hb8]
    exact ⟨by omega, isLowestBit_of_byte (k := 8) (fun i hi => c0 i (by omega) (by omega)) hb8⟩
  have c8 := clear_of_byteAt hb8
  rw [if_neg (not_not.mpr hb8)]
  by_cases hb16 : byteAt v 16 = 0
  swap
  · rw [if_pos hb16]
    refine ⟨by omega, isLowestBit_of_byte (k := 16) (fun i hi => ?_) hb16⟩
    by_cases hi8 : i < 8
    · exact c0 i (by omega) (by omega)
    · exact c8 i (by omega) (by omega)
  have c16 := clear_of_byteAt hb16
  rw [if_neg (not_not.mpr hb16)]
  have hlow : ∀ i < 24, v.getLsbD i = false := by
    intro i hi
    rcases Nat.lt_or_ge i 8 with hi8 | hi8
    · exact c0 i (by omega) (by omega)
    rcases Nat.lt_or_ge i 16 with hi16 | hi16
    · exact c8 i (by omega) (by omega)
    · exact c16 i (by omega) (by omega)
  refine ⟨by omega, isLowestBit_of_byte (k := 24) hlow fun hb24 => hv ?_⟩
  -- all four bytes are zero
  refine eq_of_getLsbD_eq fun i hi => ?_
  rcases Nat.lt_or_ge i 24 with hi24 | hi24
  · simpa using hlow i hi24
  · simpa using clear_of_byteAt hb24 i hi24 (by omega)

end Sched
