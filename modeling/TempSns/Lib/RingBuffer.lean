import Mathlib.Tactic

/-!
# Ring buffers

`Holds size cell out inp q`: in a ring of `size` cells, the elements of the queue `q` stand in the
cells from `out` on, and `inp` is the first cell behind them. A cell that is not in use keeps what was
written to it before.

A block of elements is written in two parts if it reaches the end of the ring (`writeFrom`), and read
in the same way (`readFrom`). `Holds.append`, `Holds.drop` and `Holds.overwrite` say what these do
to the queue.
-/

namespace RingBuffer

open List Nat

variable {α : Type*} {size out inp i : ℕ} {cell : ℕ → α} {q : List α} {x : α}

/-- The cell behind the cell `i`. -/
def next (size i : ℕ) : ℕ := if i + 1 ≥ size then 0 else i + 1

lemma next_eq (hi : i < size) : next size i = (i + 1) % size := by
  unfold next
  split
  case isTrue hge =>
    have heq : i + 1 = size := by omega
    rw [heq, mod_self]
  case isFalse hlt => rw [mod_eq_of_lt (by omega)]

/-- The ring holds the queue. -/
structure Holds (size : ℕ) (cell : ℕ → α) (out inp : ℕ) (q : List α) : Prop where
  length_le : q.length ≤ size
  out_lt : out < size
  inp_eq : inp = (out + q.length) % size
  cell_eq : ∀ i (hi : i < q.length), cell ((out + i) % size) = q[i]

/-- Cells with different distances from `out` are different. -/
lemma index_inj {j : ℕ} (hi : i < size) (hj : j < size) (h : (out + i) % size = (out + j) % size) :
    i = j := by
  have hmod : i % size = j % size := Nat.ModEq.add_left_cancel' out h
  rwa [mod_eq_of_lt hi, mod_eq_of_lt hj] at hmod

namespace Holds

lemma init (hsize : 0 < size) : Holds size cell 0 0 [] where
  length_le := zero_le size
  out_lt := hsize
  inp_eq := by simp
  cell_eq := by simp

section

variable (h : Holds size cell out inp q)

include h

lemma inp_lt : inp < size := by
  rw [h.inp_eq]
  exact mod_lt _ (zero_lt_of_lt h.out_lt)

lemma sub_mod : ((inp : ℤ) - out) % size = (q.length : ℤ) % size := by
  rw [h.inp_eq]
  push_cast
  rw [Int.emod_sub_emod, add_sub_cancel_left]

/-- An element is written to the first free cell. -/
lemma push (hroom : q.length < size) :
    Holds size (Function.update cell inp x) out (next size inp) (q ++ [x]) where
  length_le := by
    rw [length_append, length_singleton]
    exact hroom
  out_lt := h.out_lt
  inp_eq := by
    rw [next_eq h.inp_lt, h.inp_eq, mod_add_mod, length_append, length_singleton, add_assoc]
  cell_eq := by
    intro i hi
    rw [length_append, length_singleton] at hi
    by_cases hlast : i = q.length
    · subst hlast
      rw [← h.inp_eq, Function.update_self, getElem_concat_length rfl]
    · have hi' : i < q.length := by omega
      have hne : (out + i) % size ≠ inp := by
        rw [h.inp_eq]
        intro heq
        exact hlast (index_inj (hi'.trans hroom) hroom heq)
      rw [Function.update_of_ne hne, h.cell_eq i hi', getElem_append_left hi']

end

/-- The oldest element is read from the cell `out`. -/
lemma pop (h : Holds size cell out inp (x :: q)) :
    cell out = x ∧ Holds size cell (next size out) inp q := by
  have hlength := h.length_le
  rw [length_cons] at hlength
  constructor
  · have hfirst := h.cell_eq 0 (by simp)
    rwa [add_zero, mod_eq_of_lt h.out_lt, getElem_cons_zero] at hfirst
  · refine ⟨by omega, ?_, ?_, fun i hi => ?_⟩
    · rw [next_eq h.out_lt]
      exact mod_lt _ (zero_lt_of_lt h.out_lt)
    · rw [h.inp_eq, next_eq h.out_lt, mod_add_mod, length_cons]
      congr 1
      omega
    · have hcell := h.cell_eq (i + 1) (by simpa using hi)
      rw [getElem_cons_succ] at hcell
      rw [next_eq h.out_lt, mod_add_mod, ← hcell]
      congr 2
      omega

end Holds

/-! ## Blocks of elements -/

def blit (cell : ℕ → α) (start : ℕ) (xs : List α) : ℕ → α :=
  fun j => if h : start ≤ j ∧ j - start < xs.length then xs[j - start] else cell j

def slice (cell : ℕ → α) (start n : ℕ) : List α := (range n).map fun i => cell (start + i)

/-- `xs` is written to the cells from `inp` on, and the part that does not fit to the start of the
ring. -/
def writeFrom (size : ℕ) (cell : ℕ → α) (inp : ℕ) (xs : List α) : ℕ → α :=
  blit (blit cell inp (xs.take (size - inp))) 0 (xs.drop (size - inp))

/-- The contents of `n` cells from `out` on, continued at the start of the ring. -/
def readFrom (size : ℕ) (cell : ℕ → α) (out n : ℕ) : List α :=
  slice cell out (min n (size - out)) ++ slice cell 0 (n - (size - out))

variable {xs : List α} {n : ℕ}

lemma blit_nil : blit cell i [] = cell := by
  funext j
  simp [blit]

lemma blit_of_mem (hi : i < xs.length) (start : ℕ) : blit cell start xs (start + i) = xs[i] := by
  have hidx : start + i - start = i := Nat.add_sub_cancel_left start i
  rw [blit, dif_pos ⟨le_add_right start i, by rwa [hidx]⟩]
  simp only [hidx]

lemma blit_of_lt {start j : ℕ} (hj : j < start) : blit cell start xs j = cell j := by
  rw [blit, dif_neg (by omega)]

lemma blit_of_ge {start j : ℕ} (hj : start + xs.length ≤ j) : blit cell start xs j = cell j := by
  rw [blit, dif_neg (by omega)]

@[simp] lemma length_slice (start : ℕ) : (slice cell start n).length = n := by
  simp [slice]

lemma getElem_slice {start : ℕ} (hi : i < (slice cell start n).length) :
    (slice cell start n)[i] = cell (start + i) := by
  simp [slice]

/-- A block that ends before the end of the ring is written in one part. -/
lemma writeFrom_eq_blit (hxs : xs.length ≤ size - inp) :
    writeFrom size cell inp xs = blit cell inp xs := by
  rw [writeFrom, take_of_length_le hxs, drop_of_length_le hxs, blit_nil]

lemma writeFrom_of_lt (hinp : inp < size) (hxs : xs.length ≤ size) (hi : i < xs.length) :
    writeFrom size cell inp xs ((inp + i) % size) = xs[i] := by
  rw [writeFrom]
  by_cases hpart : i < size - inp
  · -- an element of the first part, which the second part does not reach
    have hfirst : i < (xs.take (size - inp)).length := by rw [length_take]; omega
    rw [mod_eq_of_lt (by omega), blit_of_ge (by rw [length_drop]; omega),
      blit_of_mem hfirst, getElem_take]
  · have hsecond : i - (size - inp) < (xs.drop (size - inp)).length := by
      rw [length_drop]
      omega
    have hidx : (inp + i) % size = 0 + (i - (size - inp)) := by
      rw [mod_eq_sub_mod (by omega), mod_eq_of_lt (by omega)]
      omega
    rw [hidx, blit_of_mem hsecond, getElem_drop]
    congr 1
    omega

lemma writeFrom_of_ge (hinp : inp < size) (hi : xs.length ≤ i) (hisize : i < size) :
    writeFrom size cell inp xs ((inp + i) % size) = cell ((inp + i) % size) := by
  rw [writeFrom]
  by_cases hpart : i < size - inp
  · rw [mod_eq_of_lt (by omega), blit_of_ge (by rw [length_drop]; omega),
      blit_of_ge (by rw [length_take]; omega)]
  · have hidx : (inp + i) % size = i - (size - inp) := by
      rw [mod_eq_sub_mod (by omega), mod_eq_of_lt (by omega)]
      omega
    rw [hidx, blit_of_ge (by rw [length_drop]; omega), blit_of_lt (by omega)]

@[simp] lemma length_readFrom : (readFrom size cell out n).length = n := by
  simp only [readFrom, length_append, length_slice]
  omega

lemma getElem_readFrom (hout : out < size) (hn : n ≤ size)
    (hi : i < (readFrom size cell out n).length) :
    (readFrom size cell out n)[i] = cell ((out + i) % size) := by
  rw [length_readFrom] at hi
  by_cases hpart : i < size - out
  · have hfirst : i < (slice cell out (min n (size - out))).length := by
      rw [length_slice]
      omega
    simp only [readFrom, getElem_append_left hfirst, getElem_slice]
    rw [mod_eq_of_lt (by omega)]
  · have hsecond : (slice cell out (min n (size - out))).length ≤ i := by
      rw [length_slice]
      omega
    have hidx : (out + i) % size = i - (size - out) := by
      rw [mod_eq_sub_mod (by omega), mod_eq_of_lt (by omega)]
      omega
    simp only [readFrom, getElem_append_right hsecond, getElem_slice, length_slice]
    rw [hidx]
    congr 1
    omega

/-- A read that ends before the end of the ring has one part. -/
lemma readFrom_eq_slice (hn : n ≤ size - out) : readFrom size cell out n = slice cell out n := by
  rw [readFrom, Nat.min_eq_left hn, Nat.sub_eq_zero_of_le hn]
  simp [slice]

namespace Holds

variable (h : Holds size cell out inp q)

include h

/-- A block that fits is written behind the queue. -/
lemma append (hroom : q.length + xs.length ≤ size) :
    Holds size (writeFrom size cell inp xs) out ((inp + xs.length) % size) (q ++ xs) where
  length_le := by rwa [length_append]
  out_lt := h.out_lt
  inp_eq := by rw [h.inp_eq, mod_add_mod, length_append, add_assoc]
  cell_eq := by
    intro i hi
    rw [length_append] at hi
    by_cases hold : i < q.length
    · -- the cells of the queue are the last ones before `inp`
      have hidx : (out + i) % size = (inp + (size - q.length + i)) % size := by
        rw [h.inp_eq, mod_add_mod]
        have hsum : out + q.length + (size - q.length + i) = out + i + size := by
          have := h.length_le
          omega
        rw [hsum, add_mod_right]
      rw [hidx, writeFrom_of_ge h.inp_lt (by omega) (by omega), ← hidx, h.cell_eq i hold,
        getElem_append_left hold]
    · have hidx : (out + i) % size = (inp + (i - q.length)) % size := by
        rw [h.inp_eq, mod_add_mod]
        congr 1
        omega
      rw [hidx, writeFrom_of_lt h.inp_lt (by omega) (by omega), getElem_append_right (by omega)]

lemma readFrom_eq (hn : n ≤ q.length) : readFrom size cell out n = q.take n := by
  refine ext_getElem (by rw [length_readFrom, length_take]; omega) fun i hi hi' => ?_
  rw [getElem_readFrom h.out_lt (hn.trans h.length_le), getElem_take]
  rw [length_readFrom] at hi
  exact h.cell_eq i (by omega)

/-- The oldest elements are given up. -/
lemma drop (hn : n ≤ q.length) : Holds size cell ((out + n) % size) inp (q.drop n) where
  length_le := by
    rw [length_drop]
    exact (sub_le _ _).trans h.length_le
  out_lt := mod_lt _ (zero_lt_of_lt h.out_lt)
  inp_eq := by
    rw [h.inp_eq, mod_add_mod, length_drop]
    congr 1
    omega
  cell_eq := by
    intro i hi
    rw [length_drop] at hi
    rw [mod_add_mod, getElem_drop, ← h.cell_eq (n + i) (by omega), add_assoc]

/-- A block that does not fit overwrites the oldest elements. The ring is full afterwards. -/
lemma overwrite (hxs : xs.length ≤ size) (hover : size ≤ q.length + xs.length) :
    Holds size (writeFrom size cell inp xs) ((inp + xs.length) % size)
      ((inp + xs.length) % size) ((q ++ xs).drop (q.length + xs.length - size)) := by
  have hdrop : q.length + xs.length - size ≤ q.length := by omega
  have hroom : (q.drop (q.length + xs.length - size)).length + xs.length ≤ size := by
    rw [length_drop]
    omega
  have hnew := (h.drop hdrop).append hroom
  have hout : (out + (q.length + xs.length - size)) % size = (inp + xs.length) % size := by
    rw [h.inp_eq, mod_add_mod]
    have hsum : out + q.length + xs.length = out + (q.length + xs.length - size) + size := by omega
    rw [hsum, add_mod_right]
  rwa [hout, ← drop_append_of_le_length hdrop] at hnew

end Holds

end RingBuffer
