import TempSns.Sched.Defs

/-!
# The ready bitmap

`Bitmap prioMax group table S`: the bitmap stands for the set `S` of priorities. With at most 32
priorities bit `p` of the group is the bit of priority `p`. With more, it is bit `p & 7` of row
`p >> 3` of the table, and the group has one bit for each row that is not zero.
-/

namespace Sched

open Function Word32

variable {prioMax : ℕ} {group : BitVec 32} {table : ℕ → BitVec 8} {S S' : Set ℕ} {n p : ℕ}

/-- The bitmap stands for the set `S` of priorities. -/
structure Bitmap (prioMax : ℕ) (group : BitVec 32) (table : ℕ → BitVec 8) (S : Set ℕ) : Prop where
  bound : ∀ p ∈ S, p < prioMax ∧ p < 256
  one : prioMax ≤ 32 → ∀ p, group.getLsbD p = true ↔ p ∈ S
  row : 32 < prioMax → ∀ p < 256, (table (p / 8)).getLsbD (p % 8) = true ↔ p ∈ S
  group : 32 < prioMax → ∀ n, group.getLsbD n = true ↔ n < 32 ∧ table n ≠ 0

/-- The priority attributes belong to the current priority. -/
structure Attrs (prioMax : ℕ) (x : Thread) : Prop where
  one : prioMax ≤ 32 → x.numberMask = 1#32 <<< x.currentPriority.toNat
  two : 32 < prioMax → x.number = x.currentPriority.toNat / 8 ∧
    x.numberMask = 1#32 <<< (x.currentPriority.toNat / 8) ∧
    x.highMask = 1#8 <<< (x.currentPriority.toNat % 8)

lemma Attrs.congr {x y : Thread} (ha : Attrs prioMax x)
    (hprio : y.currentPriority = x.currentPriority) (hnumber : y.number = x.number)
    (hmask : y.numberMask = x.numberMask) (hhigh : y.highMask = x.highMask) : Attrs prioMax y := by
  constructor
  · rw [hmask, hprio]
    exact ha.one
  · rw [hnumber, hmask, hhigh, hprio]
    exact ha.two

lemma Attrs.setStat {x : Thread} (ha : Attrs prioMax x) (s : ThreadStat) :
    Attrs prioMax { x with stat := s } :=
  ha.congr rfl rfl rfl rfl

/-- The priority attributes of a thread that was never started select no bit. -/
structure Blank (x : Thread) : Prop where
  numberMask : x.numberMask = 0
  highMask : x.highMask = 0

lemma attrs_setPriority (x : Thread) (q : UInt8) : Attrs prioMax (x.setPriority prioMax q) := by
  unfold Thread.setPriority
  constructor
  · intro hone
    rw [if_neg (by omega)]
  · intro htwo
    have hmask : q.toNat &&& 7 = q.toNat % 8 := Nat.and_two_pow_sub_one_eq_mod q.toNat 3
    rw [if_pos htwo]
    exact ⟨Nat.shiftRight_eq_div_pow _ 3, by rw [Nat.shiftRight_eq_div_pow], by simp only [hmask]⟩

@[simp] lemma setPriority_currentPriority (x : Thread) (q : UInt8) :
    (x.setPriority prioMax q).currentPriority = q := by
  unfold Thread.setPriority
  split <;> rfl

@[simp] lemma setPriority_stat (x : Thread) (q : UInt8) :
    (x.setPriority prioMax q).stat = x.stat := by
  unfold Thread.setPriority
  split <;> rfl

/-! ## Single bits -/

lemma getLsbD_or_bit {w : ℕ} {v : BitVec w} {i j : ℕ} (hi : i < w) :
    (v ||| 1#w <<< i).getLsbD j = true ↔ j = i ∨ v.getLsbD j = true := by
  rw [BitVec.getLsbD_or, ← BitVec.twoPow_eq, BitVec.getLsbD_twoPow]
  by_cases hij : j = i <;> simp [hij, hi]
  tauto

lemma getLsbD_and_not_bit {w : ℕ} {v : BitVec w} {i j : ℕ} :
    (v &&& ~~~(1#w <<< i)).getLsbD j = true ↔ j ≠ i ∧ v.getLsbD j = true := by
  rw [BitVec.getLsbD_and, BitVec.getLsbD_not, ← BitVec.twoPow_eq, BitVec.getLsbD_twoPow]
  by_cases hjw : j < w
  · by_cases hij : j = i
    · simp [hij]
    · simp [hij, hjw, Ne.symm hij]
  · simp [BitVec.getLsbD_of_ge v j (by omega)]

lemma ne_zero_iff_getLsbD {w : ℕ} {v : BitVec w} : v ≠ 0 ↔ ∃ i, v.getLsbD i = true := by
  constructor
  · intro hv
    by_contra hnone
    push Not at hnone
    exact hv (BitVec.eq_of_getLsbD_eq fun i _ => by simpa using hnone i)
  · rintro ⟨i, hi⟩ rfl
    simp at hi

/-! ## Setting and clearing the bits of a thread -/

lemma eq_iff_div_mod {q : ℕ} : q = p ↔ q / 8 = p / 8 ∧ q % 8 = p % 8 := by
  omega

lemma Bitmap.insert (b : Bitmap prioMax group table S) {x : Thread} (a : Attrs prioMax x)
    (hp : x.currentPriority.toNat < prioMax) :
    Bitmap prioMax (group ||| x.numberMask)
      (if 32 < prioMax then update table x.number (table x.number ||| x.highMask) else table)
      (insert x.currentPriority.toNat S) := by
  have hlt : x.currentPriority.toNat < 256 := x.currentPriority.toNat_lt
  obtain ⟨aone, atwo⟩ := a
  generalize x.currentPriority.toNat = p at *
  refine ⟨fun q hq => ?_, fun hone q => ?_, fun htwo q hq => ?_, fun htwo n => ?_⟩
  · rcases hq with rfl | hq
    · exact ⟨hp, hlt⟩
    · exact b.bound q hq
  · rw [aone hone, getLsbD_or_bit (by omega), b.one hone, Set.mem_insert_iff]
  · obtain ⟨hnumber, -, hhigh⟩ := atwo htwo
    rw [if_pos htwo, hnumber, hhigh, Set.mem_insert_iff, ← b.row htwo q hq, eq_iff_div_mod]
    by_cases hrow : q / 8 = p / 8
    · rw [hrow, update_self, getLsbD_or_bit (by omega)]
      simp
    · rw [update_of_ne hrow]
      simp [hrow]
  · obtain ⟨hnumber, hmask, hhigh⟩ := atwo htwo
    rw [if_pos htwo, hnumber, hmask, getLsbD_or_bit (by omega), b.group htwo]
    by_cases hrow : n = p / 8
    · subst hrow
      rw [update_self, hhigh]
      simp only [true_or, true_iff]
      exact ⟨by omega, ne_zero_iff_getLsbD.mpr
        ⟨p % 8, (getLsbD_or_bit (by omega)).mpr (Or.inl rfl)⟩⟩
    · rw [update_of_ne hrow]
      simp [hrow]

variable {T : Type} {k : Kernel T}

lemma Blank.clearReady {x : Thread} (hx : Blank x) : clearReady prioMax k x = k := by
  have hgroup : k.readyGroup &&& ~~~(0#32) = k.readyGroup := by
    rw [BitVec.not_zero, BitVec.and_allOnes]
  have hrow : k.readyTable x.number &&& ~~~(0#8) = k.readyTable x.number := by
    rw [BitVec.not_zero, BitVec.and_allOnes]
  unfold Sched.clearReady
  simp only [hx.numberMask, hx.highMask, BitVec.ofNat_eq_ofNat, hgroup, hrow,
    update_eq_self, ite_self]

lemma Bitmap.clearReady (b : Bitmap prioMax k.readyGroup k.readyTable S) {x : Thread}
    (a : Attrs prioMax x) :
    Bitmap prioMax (clearReady prioMax k x).readyGroup (clearReady prioMax k x).readyTable
      (S \ {x.currentPriority.toNat}) := by
  obtain ⟨aone, atwo⟩ := a
  generalize x.currentPriority.toNat = p at *
  unfold Sched.clearReady
  refine ⟨fun q hq => b.bound q hq.1, fun hone q => ?_, fun htwo q hq => ?_, fun htwo n => ?_⟩
  · rw [if_neg (by omega), aone hone, getLsbD_and_not_bit, b.one hone]
    simp [and_comm]
  · obtain ⟨hnumber, -, hhigh⟩ := atwo htwo
    rw [if_pos htwo]
    simp only [hnumber, hhigh, Set.mem_sdiff, Set.mem_singleton_iff, ← b.row htwo q hq]
    rw [eq_iff_div_mod (q := q)]
    by_cases hrow : q / 8 = p / 8
    · rw [hrow, update_self, getLsbD_and_not_bit]
      simp [and_comm]
    · rw [update_of_ne hrow]
      simp [hrow]
  · obtain ⟨hnumber, hmask, hhigh⟩ := atwo htwo
    rw [if_pos htwo]
    simp only [hnumber, hmask, hhigh]
    by_cases hrow : n = p / 8
    · subst hrow
      rw [update_self]
      split
      case isTrue hzero => simp [hzero]
      case isFalse hne =>
        -- the row keeps another bit, so its bit in the group stays
        rw [b.group htwo]
        refine ⟨fun hold => ⟨hold.1, hne⟩, fun hnew => ⟨hnew.1, ?_⟩⟩
        obtain ⟨i, hi⟩ := ne_zero_iff_getLsbD.mp hne
        exact ne_zero_iff_getLsbD.mpr ⟨i, (getLsbD_and_not_bit.mp hi).2⟩
    · rw [update_of_ne hrow]
      split
      case isTrue => rw [getLsbD_and_not_bit, b.group htwo]; simp [hrow]
      case isFalse => exact b.group htwo n

lemma Bitmap.group_eq_zero (b : Bitmap prioMax group table S) : group = 0 ↔ S = ∅ := by
  rw [← not_iff_not, ← ne_eq, ne_zero_iff_getLsbD, ← ne_eq, Set.nonempty_iff_ne_empty.symm]
  rcases Nat.lt_or_ge 32 prioMax with htwo | hone
  · constructor
    · rintro ⟨n, hn⟩
      obtain ⟨hlt, hrow⟩ := (b.group htwo n).mp hn
      obtain ⟨i, hi⟩ := ne_zero_iff_getLsbD.mp hrow
      have hi8 : i < 8 := BitVec.lt_of_getLsbD hi
      refine ⟨8 * n + i, (b.row htwo _ (by omega)).mp ?_⟩
      rwa [show (8 * n + i) / 8 = n by omega, show (8 * n + i) % 8 = i by omega]
    · rintro ⟨q, hq⟩
      have hlt := (b.bound q hq).2
      refine ⟨q / 8, (b.group htwo _).mpr ⟨by omega, ne_zero_iff_getLsbD.mpr ⟨q % 8, ?_⟩⟩⟩
      exact (b.row htwo q hlt).mpr hq
  · exact ⟨fun ⟨n, hn⟩ => ⟨n, (b.one hone n).mp hn⟩, fun ⟨q, hq⟩ => ⟨q, (b.one hone q).mpr hq⟩⟩

/-- `_get_highest_priority_thread` finds the least priority of a bitmap that is not empty. -/
lemma highestReadyPriority_spec (b : Bitmap prioMax k.readyGroup k.readyTable S)
    (hne : k.readyGroup ≠ 0) :
    ∃ p, highestReadyPriority prioMax k = .ok p ∧ p ∈ S ∧ ∀ q ∈ S, p ≤ q := by
  obtain ⟨hpos, hlow⟩ := rtFfs_lowest hne
  have hlt : rtFfs k.readyGroup - 1 < 32 := BitVec.lt_of_getLsbD hlow.set
  have hsub : sub (rtFfs k.readyGroup) 1 = rtFfs k.readyGroup - 1 := by
    rw [sub]
    omega
  unfold highestReadyPriority
  simp only [hsub]
  set n := rtFfs k.readyGroup - 1
  rcases Nat.lt_or_ge 32 prioMax with htwo | hone
  · rw [if_pos htwo, if_pos hlt]
    obtain ⟨-, hrow⟩ := (b.group htwo n).mp hlow.set
    have hrow32 : (k.readyTable n).setWidth 32 ≠ 0 := by
      obtain ⟨i, hi⟩ := ne_zero_iff_getLsbD.mp hrow
      have hi8 : i < 8 := BitVec.lt_of_getLsbD hi
      exact ne_zero_iff_getLsbD.mpr ⟨i, by simp [hi]; omega⟩
    obtain ⟨hpos', hlow'⟩ := rtFfs_lowest hrow32
    have hset := hlow'.set
    rw [BitVec.getLsbD_setWidth] at hset
    simp only [Bool.and_eq_true, decide_eq_true_eq] at hset
    have hcol : rtFfs ((k.readyTable n).setWidth 32) - 1 < 8 := BitVec.lt_of_getLsbD hset.2
    set c := rtFfs ((k.readyTable n).setWidth 32) - 1
    refine ⟨8 * n + c, ?_, (b.row htwo _ (by omega)).mp ?_, fun q hq => ?_⟩
    · simp only [sub, add, mul, Except.ok.injEq]
      omega
    · rw [show (8 * n + c) / 8 = n by omega, show (8 * n + c) % 8 = c by omega]
      exact hset.2
    · -- a smaller priority is in a row below, or in a lower column of this row
      have hq256 := (b.bound q hq).2
      have hqbit := (b.row htwo q hq256).mpr hq
      by_contra hlt'
      rcases Nat.lt_or_ge (q / 8) n with hrowlt | hrowge
      · have hclear := hlow.clear (q / 8) hrowlt
        rw [← Bool.not_eq_true, b.group htwo] at hclear
        exact hclear ⟨by omega, ne_zero_iff_getLsbD.mpr ⟨_, hqbit⟩⟩
      · have hq8 : q / 8 = n := by omega
        have hclear := hlow'.clear (q % 8) (by omega)
        rw [BitVec.getLsbD_setWidth, ← hq8, hqbit] at hclear
        simp at hclear
        omega
  · rw [if_neg (by omega)]
    refine ⟨n, rfl, (b.one hone n).mp hlow.set, fun q hq => ?_⟩
    by_contra hlt'
    have hclear := hlow.clear q (by omega)
    rw [(b.one hone q).mpr hq] at hclear
    cases hclear

end Sched
