import Mathlib.Tactic

/-!
# Byte-addressed memory

A memory is a map from addresses to bytes. Multi-byte fields are read and written in
little-endian order.

* `load m a n` is the value of the `n` bytes at `a`; `store m a n v` writes the low `n` bytes
  of `v` there.
* `fill m a n v` sets `n` bytes to `v` and `copy m d s n` moves `n` bytes from `s` to `d`.

A field reads back what was stored into it (`load_store_same`) and is not affected by a change
of memory outside its own bytes (`load_congr`). `AgreeOff m m' a n` is the frame condition that
every write of this file satisfies: only the `n` bytes at `a` may differ.
-/

namespace ByteMem

open Function

/-- A byte-addressed memory. -/
abbrev Mem := ℕ → UInt8

/-- The little-endian value of the `n` bytes at `a`. -/
def load (m : Mem) (a : ℕ) : ℕ → ℕ
  | 0 => 0
  | n + 1 => (m a).toNat + 256 * load m (a + 1) n

/-- Write the low `n` bytes of `v` at `a`. -/
def store (m : Mem) (a n v : ℕ) : Mem :=
  fun i => if a ≤ i ∧ i < a + n then UInt8.ofNat (v / 256 ^ (i - a)) else m i

/-- Set the `n` bytes at `a` to `v`. -/
def fill (m : Mem) (a n : ℕ) (v : UInt8) : Mem :=
  fun i => if a ≤ i ∧ i < a + n then v else m i

/-- Copy the `n` bytes at `s` to `d`, reading the source before anything is written. -/
def copy (m : Mem) (d s n : ℕ) : Mem :=
  fun i => if d ≤ i ∧ i < d + n then m (s + (i - d)) else m i

/-- `m'` differs from `m` at most in the `n` bytes at `a`. -/
def AgreeOff (m m' : Mem) (a n : ℕ) : Prop :=
  ∀ i, i < a ∨ a + n ≤ i → m' i = m i

lemma store_agreeOff (m : Mem) (a n v : ℕ) : AgreeOff m (store m a n v) a n := by
  intro i hi
  rw [store, if_neg (by omega)]

lemma fill_agreeOff (m : Mem) (a n : ℕ) (v : UInt8) : AgreeOff m (fill m a n v) a n := by
  intro i hi
  rw [fill, if_neg (by omega)]

lemma copy_agreeOff (m : Mem) (d s n : ℕ) : AgreeOff m (copy m d s n) d n := by
  intro i hi
  rw [copy, if_neg (by omega)]

lemma AgreeOff.trans {m m' m'' : Mem} {a n : ℕ} (h : AgreeOff m m' a n)
    (h' : AgreeOff m' m'' a n) : AgreeOff m m'' a n :=
  fun i hi => (h' i hi).trans (h i hi)

/-- A field depends only on its own bytes. -/
lemma load_congr {m m' : Mem} {a n : ℕ} (h : ∀ i, a ≤ i → i < a + n → m' i = m i) :
    load m' a n = load m a n := by
  induction n generalizing a with
  | zero => rfl
  | succ n ih =>
    rw [load, load, h a (by omega) (by omega), ih fun i hi hi' => h i (by omega) (by omega)]

lemma load_of_agreeOff {m m' : Mem} {a n b k : ℕ} (h : AgreeOff m m' b k)
    (hd : a + n ≤ b ∨ b + k ≤ a) : load m' a n = load m a n :=
  load_congr fun i _ _ => h i (by omega)

/-- Reading `k` bytes out of a longer stored field, starting at its byte `j`. -/
private lemma load_store_suffix (m : Mem) (a v : ℕ) {n j k : ℕ} (hk : j + k = n) :
    load (store m a n v) (a + j) k = v / 256 ^ j % 256 ^ k := by
  induction k generalizing j with
  | zero => simp [load, Nat.mod_one]
  | succ k ih =>
    have hbyte : ((store m a n v) (a + j)).toNat = v / 256 ^ j % 256 := by
      rw [store, if_pos (by omega), Nat.add_sub_cancel_left]
      simp
    rw [load, hbyte, Nat.add_assoc, ih (by omega), pow_succ, ← Nat.div_div_eq_div_mul,
      pow_succ', Nat.mod_mul]

lemma load_store_same (m : Mem) (a n v : ℕ) : load (store m a n v) a n = v % 256 ^ n := by
  simpa using load_store_suffix m a v (n := n) (j := 0) (k := n) (by omega)

lemma load_byte (m : Mem) (a : ℕ) {n i : ℕ} (hi : i < n) :
    UInt8.ofNat (load m a n / 256 ^ i) = m (a + i) := by
  induction n generalizing a i with
  | zero => omega
  | succ n ih =>
    have hb : (m a).toNat < 256 := (m a).toNat_lt
    apply UInt8.toNat_inj.mp
    cases i with
    | zero =>
      simp only [load, UInt8.toNat_ofNat', pow_zero, Nat.div_one, Nat.add_zero]
      omega
    | succ i =>
      have hdiv : load m a (n + 1) / 256 ^ (i + 1) = load m (a + 1) n / 256 ^ i := by
        rw [pow_succ', ← Nat.div_div_eq_div_mul, load]
        congr 1
        omega
      rw [hdiv, ih (a + 1) (by omega)]
      congr 2
      omega

/-! ## Filling and copying in pieces -/

section Pieces

variable {m : Mem} {a d s n k : ℕ} {v : UInt8}

@[simp] lemma fill_zero : fill m a 0 v = m := by
  funext i
  rw [fill, if_neg (by omega)]

@[simp] lemma copy_zero : copy m d s 0 = m := by
  funext i
  rw [copy, if_neg (by omega)]

lemma update_eq_fill : update m a v = fill m a 1 v := by
  funext i
  by_cases hi : i = a
  · subst hi
    rw [update_self, fill, if_pos (by omega)]
  · rw [update_of_ne hi, fill, if_neg (by omega)]

lemma update_eq_copy : update m d (m s) = copy m d s 1 := by
  funext i
  by_cases hi : i = d
  · subst hi
    rw [update_self, copy, if_pos (by omega), Nat.sub_self, Nat.add_zero]
  · rw [update_of_ne hi, copy, if_neg (by omega)]

lemma store_load : store m d n (load m s n) = copy m d s n := by
  funext i
  rw [store, copy]
  split
  · exact load_byte m s (by omega)
  · rfl

lemma fill_fill : fill (fill m a n v) (a + n) k v = fill m a (n + k) v := by
  funext i
  simp only [fill]
  by_cases hi : a ≤ i ∧ i < a + (n + k)
  · rw [if_pos hi]
    by_cases hfirst : i < a + n
    · rw [if_neg (by omega), if_pos (by omega)]
    · rw [if_pos (by omega)]
  · rw [if_neg hi, if_neg (by omega), if_neg (by omega)]

/-- Copying forwards: the source of the second piece has not been written by the first one. -/
lemma copy_copy (h : d ≤ s ∨ s + (n + k) ≤ d) :
    copy (copy m d s n) (d + n) (s + n) k = copy m d s (n + k) := by
  funext i
  simp only [copy]
  by_cases hi : d ≤ i ∧ i < d + (n + k)
  · rw [if_pos hi]
    by_cases hfirst : i < d + n
    · rw [if_neg (by omega), if_pos (by omega)]
    · rw [if_pos (by omega), if_neg (by omega)]
      congr 1
      omega
  · rw [if_neg hi, if_neg (by omega), if_neg (by omega)]

lemma copy_copy_back (h : s ≤ d) :
    copy (copy m (d + n) (s + n) k) d s n = copy m d s (n + k) := by
  funext i
  simp only [copy]
  by_cases hi : d ≤ i ∧ i < d + (n + k)
  · rw [if_pos hi]
    by_cases hfirst : i < d + n
    · rw [if_pos (by omega), if_neg (by omega)]
    · rw [if_neg (by omega), if_pos (by omega)]
      congr 1
      omega
  · rw [if_neg hi, if_neg (by omega), if_neg (by omega)]

end Pieces
end ByteMem
