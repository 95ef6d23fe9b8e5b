import Mathlib.Tactic

/-!
# Wrap-around time

Points in time as 32-bit counters that wrap. `a` is before or at `b` if the distance from `a` to
`b`, modulo `2 ^ 32`, is less than half the range. This is an order only among points that lie on
one arc of half the range; there it agrees with the distance from the start of the arc
(`before_iff`).
-/

namespace WrapTime

/-- Half the range of the counter. -/
def half : ℕ := 0x7fffffff

/-- `a` is before `b` or at the same time. -/
def Before (a b : BitVec 32) : Prop := (b - a).toNat < half

instance (a b : BitVec 32) : Decidable (Before a b) := inferInstanceAs (Decidable (_ < _))

/-- The time `a` is on the arc of half the range that starts at `base`. -/
def InArc (base a : BitVec 32) : Prop := (a - base).toNat < half

instance (base a : BitVec 32) : Decidable (InArc base a) := inferInstanceAs (Decidable (_ < _))

variable {a b c base : BitVec 32}

lemma before_refl (a : BitVec 32) : Before a a := by
  simp [Before, half]

section

variable (ha : InArc base a)

include ha

lemma before_iff (hb : InArc base b) : Before a b ↔ (a - base).toNat ≤ (b - base).toNat := by
  simp only [Before, InArc, half, BitVec.toNat_sub] at *
  omega

lemma Before.trans (hb : InArc base b) (hc : InArc base c)
    (hab : Before a b) (hbc : Before b c) : Before a c := by
  rw [before_iff ha hb] at hab
  rw [before_iff hb hc] at hbc
  rw [before_iff ha hc]
  exact hab.trans hbc

lemma before_total (hb : InArc base b) : Before a b ∨ Before b a := by
  rw [before_iff ha hb, before_iff hb ha]
  exact Nat.le_total _ _

lemma Before.antisymm (hb : InArc base b) (hab : Before a b) (hba : Before b a) : a = b := by
  rw [before_iff ha hb] at hab
  rw [before_iff hb ha] at hba
  simp only [BitVec.toNat_sub] at hab hba
  apply BitVec.eq_of_toNat_eq
  omega

/-- The test for a time that is strictly later, as it is made with one subtraction. -/
lemma before_iff_not_later (hb : InArc base b) :
    Before b a ↔ ¬ (b - a ≠ 0 ∧ (b - a).toNat < half) := by
  have hzero : b - a = 0 ↔ (b - a).toNat = 0 := by
    rw [← BitVec.toNat_inj]
    rfl
  rw [ne_eq, hzero]
  simp only [Before, InArc, half, BitVec.toNat_sub] at *
  omega

end

end WrapTime
