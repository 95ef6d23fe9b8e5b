import Mathlib.Data.List.GetD
import Mathlib.Tactic

/-!
# Output to a bounded buffer

A sink writes bytes to consecutive addresses of a 32-bit memory. A byte whose address is above the last
address of the buffer is dropped, and the address still advances. The address wraps around at the end of
the address space.
-/

/-- The next address, and the memory. -/
structure Sink where
  str : UInt32
  mem : UInt32 → UInt8

namespace Sink

open Function List

variable {last a : UInt32} {k k' : Sink} {c : UInt8} {l : List UInt8}

/-- A byte is put out. -/
def put (last : UInt32) (k : Sink) (c : UInt8) : Sink :=
  ⟨k.str + 1, if k.str ≤ last then update k.mem k.str c else k.mem⟩

/-- Bytes are put out. -/
def puts (last : UInt32) (k : Sink) (l : List UInt8) : Sink := l.foldl (put last) k

@[simp] lemma puts_nil : puts last k [] = k := rfl

lemma puts_cons : puts last k (c :: l) = puts last (put last k c) l := rfl

lemma puts_append (l l' : List UInt8) : puts last k (l ++ l') = puts last (puts last k l) l' :=
  foldl_append

lemma puts_singleton : puts last k [c] = put last k c := rfl

lemma str_puts : (puts last k l).str = k.str + UInt32.ofNat l.length := by
  induction l generalizing k with
  | nil => simp
  | cons c l ih =>
    rw [puts_cons, ih, put, length_cons, UInt32.ofNat_add, UInt32.add_comm (.ofNat l.length),
      UInt32.add_assoc]
    rfl

/-- The address after some bytes, if it does not wrap. -/
lemma toNat_str_puts (hwrap : k.str.toNat + l.length < 2 ^ 32) :
    (puts last k l).str.toNat = k.str.toNat + l.length := by
  rw [str_puts, UInt32.toNat_add, UInt32.toNat_ofNat', Nat.add_mod_mod, Nat.mod_eq_of_lt hwrap]

lemma mem_put_of_ne (h : a ≠ k.str) : (put last k c).mem a = k.mem a := by
  rw [put]
  dsimp only
  split
  case isTrue => rw [update_of_ne h]
  case isFalse => rfl

lemma mem_put_self (h : k.str ≤ last) : (put last k c).mem k.str = c := by
  rw [put, if_pos h]
  exact update_self ..

/-- Two memories that agree at an address still do so after the same output. -/
lemma mem_puts_congr (hstr : k.str = k'.str) (hmem : k.mem a = k'.mem a) :
    (puts last k l).mem a = (puts last k' l).mem a := by
  induction l generalizing k k' with
  | nil => exact hmem
  | cons c l ih =>
    rw [puts_cons, puts_cons]
    refine ih (by rw [put, put, hstr]) ?_
    by_cases ha : a = k.str
    · rw [put, put, ← hstr]
      dsimp only
      split
      case isTrue => rw [ha, update_self, update_self]
      case isFalse => exact hmem
    · rw [mem_put_of_ne ha, mem_put_of_ne (hstr ▸ ha), hmem]

/-- The memory after output that does not wrap. -/
lemma mem_puts (hwrap : k.str.toNat + l.length < 2 ^ 32) : (puts last k l).mem a =
      if k.str.toNat ≤ a.toNat ∧ a.toNat < k.str.toNat + l.length ∧ a ≤ last then
        l.getD (a.toNat - k.str.toNat) 0
      else k.mem a := by
  induction l using reverseRecOn with
  | nil =>
    rw [puts_nil, if_neg]
    rintro ⟨hle, hlt, -⟩
    rw [length_nil] at hlt
    omega
  | append_singleton l c ih =>
    rw [length_append, length_singleton] at hwrap ⊢
    have hstr : (puts last k l).str.toNat = k.str.toNat + l.length := toNat_str_puts (by omega)
    rw [puts_append, puts_singleton]
    by_cases ha : a = (puts last k l).str
    · -- the address of the last byte
      have hnat : a.toNat = k.str.toNat + l.length := by rw [ha, hstr]
      by_cases hlast : a ≤ last
      · rw [if_pos ⟨by omega, by omega, hlast⟩, hnat, Nat.add_sub_cancel_left,
          getD_append_right _ _ _ _ le_rfl, Nat.sub_self]
        rw [ha] at hlast ⊢
        exact mem_put_self hlast
      · rw [if_neg fun hand => hlast hand.2.2]
        rw [if_neg fun hand => hlast hand.2.2] at ih
        rw [put, if_neg (ha ▸ hlast)]
        exact ih (by omega)
    · have hne : a.toNat ≠ k.str.toNat + l.length := by
        intro hnat
        exact ha (UInt32.toNat_inj.mp (hnat.trans hstr.symm))
      rw [mem_put_of_ne ha, ih (by omega)]
      by_cases hin : k.str.toNat ≤ a.toNat ∧ a.toNat < k.str.toNat + l.length ∧ a ≤ last
      · rw [if_pos hin, if_pos ⟨hin.1, by omega, hin.2.2⟩, getD_append _ _ _ _ (by omega)]
      · rw [if_neg hin, if_neg fun hand => hin ⟨hand.1, by omega, hand.2.2⟩]

/-- Output that reaches the end of the address space overwrites the byte at the address zero: what it
holds then does not depend on what it held before. -/
lemma mem_puts_zero (hstr : k.str = k'.str) (hpos : 0 < k.str.toNat)
    (hwrap : 2 ^ 32 < k.str.toNat + l.length) :
    (puts last k l).mem 0 = (puts last k' l).mem 0 := by
  have hlt := k.str.toNat_lt
  have hsplit : l = l.take (2 ^ 32 - k.str.toNat) ++ l.drop (2 ^ 32 - k.str.toNat) :=
    (take_append_drop _ _).symm
  have hlen : (l.take (2 ^ 32 - k.str.toNat)).length = 2 ^ 32 - k.str.toNat := by
    rw [length_take, min_eq_left (by omega)]
  have hzero : ∀ k₁ : Sink, k₁.str = k.str →
      (puts last k₁ (l.take (2 ^ 32 - k.str.toNat))).str = 0 := by
    intro k₁ hk₁
    rw [str_puts, hk₁, ← UInt32.toNat_inj, UInt32.toNat_add, UInt32.toNat_ofNat', hlen,
      Nat.add_mod_mod, Nat.add_sub_cancel' hlt.le]
    rfl
  obtain ⟨c, rest, hdrop⟩ : ∃ c rest, l.drop (2 ^ 32 - k.str.toNat) = c :: rest := by
    refine exists_cons_of_ne_nil fun hnil => ?_
    rw [drop_eq_nil_iff] at hnil
    omega
  rw [hsplit, hdrop, puts_append, puts_append, puts_cons, puts_cons]
  have hk := hzero k rfl
  have hk' := hzero k' hstr.symm
  refine mem_puts_congr (by rw [put, put, hk, hk']) ?_
  have hle : (0 : UInt32) ≤ last := by
    rw [UInt32.le_iff_toNat_le]
    exact Nat.zero_le _
  have hself := mem_put_self (c := c) (hk.symm ▸ hle)
  have hself' := mem_put_self (c := c) (hk'.symm ▸ hle)
  rw [hk] at hself
  rw [hk'] at hself'
  rw [hself, hself']

end Sink
