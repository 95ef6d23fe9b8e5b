import Mathlib.Tactic

/-!
# 32-bit unsigned words as natural numbers

Unsigned 32-bit arithmetic on natural numbers below `2 ^ 32`. Sums, differences and products are
reduced modulo `2 ^ 32`, so that `omega` can reason about them once they are unfolded. They are
irreducible: unification must not compute with the modulus.

`alignUp` and `alignDown` are the mask expressions `(x + a - 1) & ~(a - 1)` and `x & ~(a - 1)`,
stated on bit vectors; `alignUp_two_pow` and `alignDown_two_pow` give their value for an alignment
that is a power of two.
-/

namespace Word32

/-- `a + b` modulo `2 ^ 32`. -/
@[irreducible]
def add (a b : ℕ) : ℕ := (a + b) % 2 ^ 32

/-- `a - b` modulo `2 ^ 32`, for `b` below `2 ^ 32`. -/
@[irreducible]
def sub (a b : ℕ) : ℕ := (a + 2 ^ 32 - b) % 2 ^ 32

/-- `a * b` modulo `2 ^ 32`. -/
@[irreducible]
def mul (a b : ℕ) : ℕ := a * b % 2 ^ 32

lemma add_of_lt {a b : ℕ} (h : a + b < 2 ^ 32) : add a b = a + b := by
  rw [add]
  exact Nat.mod_eq_of_lt h

lemma sub_of_le {a b : ℕ} (hle : b ≤ a) (ha : a < 2 ^ 32) : sub a b = a - b := by
  rw [sub]
  omega

/-- `x & ~(a - 1)`. -/
def alignDown (x a : ℕ) : ℕ :=
  (BitVec.ofNat 32 x &&& ~~~(BitVec.ofNat 32 (a - 1))).toNat

/-- `(x + a - 1) & ~(a - 1)`. -/
def alignUp (x a : ℕ) : ℕ :=
  alignDown (add x (a - 1)) a

/-- Clearing the low `k` bits rounds down to a multiple of `2 ^ k`. -/
lemma alignDown_two_pow {x k : ℕ} (hx : x < 2 ^ 32) :
    alignDown x (2 ^ k) = x / 2 ^ k * 2 ^ k := by
  have hbits : BitVec.ofNat 32 x &&& ~~~(BitVec.ofNat 32 (2 ^ k - 1)) =
      (BitVec.ofNat 32 x >>> k) <<< k := by
    refine BitVec.eq_of_getLsbD_eq fun i hi => ?_
    simp only [BitVec.getLsbD_and, BitVec.getLsbD_not, BitVec.getLsbD_ofNat,
      BitVec.getLsbD_shiftLeft, BitVec.getLsbD_ushiftRight, Nat.testBit_two_pow_sub_one]
    by_cases hik : i < k
    · simp [hik, hi]
    · simp [hik, hi, show k + (i - k) = i by omega]
  rw [alignDown, hbits, BitVec.toNat_shiftLeft, BitVec.toNat_ushiftRight, BitVec.toNat_ofNat,
    Nat.mod_eq_of_lt hx, Nat.shiftRight_eq_div_pow, Nat.shiftLeft_eq]
  exact Nat.mod_eq_of_lt ((Nat.div_mul_le_self x (2 ^ k)).trans_lt hx)

/-- Rounding up to a multiple of `2 ^ k`; the sum wraps at the top of the word. -/
lemma alignUp_two_pow {x k : ℕ} :
    alignUp x (2 ^ k) = (x + (2 ^ k - 1)) % 2 ^ 32 / 2 ^ k * 2 ^ k := by
  rw [alignUp, add]
  exact alignDown_two_pow (Nat.mod_lt _ (by norm_num))

end Word32
