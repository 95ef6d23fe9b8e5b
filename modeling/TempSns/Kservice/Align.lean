import TempSns.Lib.ByteMem
import TempSns.Lib.Word32

/-!
# Aligned memory blocks

`rt_malloc_align` and `rt_free_align` of `src/kservice.c`. A block that is larger by the alignment is
taken from `rt_malloc`, and the pointer to it is saved just below the aligned address, where
`rt_free_align` finds it. The size of the larger block is a 32-bit sum; for a size near the top of the
range it wraps, and the block is too small (`alignsRight_iff`).

`rt_malloc` is a parameter of which only its contract is used: a block has the size asked for, starts
at a multiple of the pointer size and does not reach the end of the address space.
-/

namespace Kservice

open ByteMem Word32 Option

/-- A block of `rt_malloc`: its address and the bytes that may be used. -/
structure Block where
  ptr : ℕ
  len : ℕ
  deriving DecidableEq, Repr

/-- The contract of `rt_malloc(n)` for a pointer that is not `RT_NULL`. -/
structure ValidBlock (n : ℕ) (b : Block) : Prop where
  ptr_ne : b.ptr ≠ 0
  aligned : 4 ∣ b.ptr
  size : n ≤ b.len
  fits : b.ptr + b.len < 2 ^ 32

/-- The total size that `rt_malloc_align` asks for. -/
def totalSize (size align : ℕ) : ℕ := add (alignUp size 4) (alignUp align 4)

/-- The address in the block that `rt_malloc_align` returns; `align` is rounded already. -/
def alignPtr (ptr align : ℕ) : ℕ :=
  if ptr &&& (align - 1) = 0 then add ptr align else alignUp ptr align

def rtMallocAlign (malloc : ℕ → Option Block) (m : Mem) (size align : ℕ) : Option (ℕ × Mem) :=
  match malloc (totalSize size align) with
  | none => none
  | some b =>
    let p := alignPtr b.ptr (alignUp align 4)
    some (p, store m (sub p 4) 4 b.ptr)

/-- The pointer that `rt_free_align` passes to `rt_free`. -/
def rtFreeAlign (m : Mem) (ptr : ℕ) : ℕ := load m (sub ptr 4) 4

/-- For every `rt_malloc` that meets its contract: the result is aligned, its bytes and the saved
pointer lie in the block, and whatever is written to the bytes, the block is what is freed. -/
def AlignsRight (size align : ℕ) : Prop :=
  ∀ malloc : ℕ → Option Block, (∀ n b, malloc n = some b → ValidBlock n b) →
    ∀ m p m', rtMallocAlign malloc m size align = some (p, m') →
      ∃ b, malloc (totalSize size align) = some b ∧ align ∣ p ∧
        b.ptr + 4 ≤ p ∧ p + size ≤ b.ptr + b.len ∧
        ∀ m'', AgreeOff m' m'' p size → rtFreeAlign m'' p = b.ptr

/-! ## Address -/

variable {size k n : ℕ} {b : Block}

lemma alignUp_align (hk : k < 32) : alignUp (2 ^ k) 4 = 2 ^ max k 2 := by
  have hval := alignUp_two_pow (x := 2 ^ k) (k := 2)
  rw [show (2 : ℕ) ^ 2 = 4 from rfl] at hval
  rw [hval]
  rcases Nat.lt_or_ge k 2 with hlt | hge
  · interval_cases k <;> rfl
  · obtain ⟨j, rfl⟩ := Nat.exists_eq_add_of_le' hge
    have hbound : 2 ^ (j + 2) ≤ 2 ^ 31 := Nat.pow_le_pow_right two_pos (by omega)
    rw [max_eq_left hge]
    rw [pow_add] at hbound ⊢
    omega

lemma alignUp_size : alignUp size 4 = (size + 3) / 4 * 4 % 2 ^ 32 := by
  have hval := alignUp_two_pow (x := size) (k := 2)
  rw [show (2 : ℕ) ^ 2 = 4 from rfl] at hval
  rw [hval]
  omega

/-- In a block with room for it the address is a multiple of the alignment, and there is room for the
saved pointer below it. -/
lemma ValidBlock.alignPtr_spec (hb : ValidBlock n b) (hk : 2 ≤ k) (hn : 2 ^ k ≤ n) :
    2 ^ k ∣ alignPtr b.ptr (2 ^ k) ∧ b.ptr + 4 ≤ alignPtr b.ptr (2 ^ k) ∧
      alignPtr b.ptr (2 ^ k) ≤ b.ptr + 2 ^ k := by
  have hfits := hb.fits
  have hsize := hb.size
  have hfour : 4 ∣ 2 ^ k := pow_dvd_pow 2 hk
  rw [alignPtr, Nat.and_two_pow_sub_one_eq_mod]
  split
  · rename_i hzero
    rw [add_of_lt (by omega)]
    exact ⟨(Nat.dvd_add_self_right).mpr (Nat.dvd_of_mod_eq_zero hzero), by omega, le_rfl⟩
  · rename_i hne
    rw [alignUp_two_pow, Nat.mod_eq_of_lt (by omega)]
    set q := (b.ptr + (2 ^ k - 1)) / 2 ^ k
    have hup : q * 2 ^ k ≤ b.ptr + (2 ^ k - 1) := Nat.div_mul_le_self _ _
    have hlow : b.ptr + (2 ^ k - 1) < (q + 1) * 2 ^ k :=
      (Nat.div_lt_iff_lt_mul (by positivity)).mp (Nat.lt_succ_self q)
    refine ⟨Nat.dvd_mul_left _ _, ?_, by omega⟩
    -- both addresses are multiples of 4, and they differ
    have hpos : b.ptr ≠ q * 2 ^ k := fun heq => hne (by rw [heq]; exact Nat.mul_mod_left _ _)
    have hdvd : 4 ∣ q * 2 ^ k := hfour.mul_left q
    have hptr := hb.aligned
    rw [Nat.succ_mul] at hlow
    omega

lemma totalSize_two_pow (hk : k < 32) :
    totalSize size (2 ^ k) = ((size + 3) / 4 * 4 + 2 ^ max k 2) % 2 ^ 32 := by
  rw [totalSize, alignUp_align hk, alignUp_size, add, Nat.mod_add_mod]

/-! ## Result -/

lemma alignsRight_of_lt (hk : k < 32) (hlt : (size + 3) / 4 * 4 + 2 ^ max k 2 < 2 ^ 32) :
    AlignsRight size (2 ^ k) := by
  intro malloc hmalloc m p m' hok
  have htotal : totalSize size (2 ^ k) = (size + 3) / 4 * 4 + 2 ^ max k 2 := by
    rw [totalSize_two_pow hk, Nat.mod_eq_of_lt hlt]
  unfold rtMallocAlign at hok
  cases hb : malloc (totalSize size (2 ^ k)) with
  | none =>
    rw [hb] at hok
    cases hok
  | some b =>
    rw [hb, alignUp_align hk] at hok
    obtain ⟨rfl, rfl⟩ := Prod.mk.inj (some.inj hok)
    have hvalid := hmalloc _ _ hb
    obtain ⟨hdvd, hlow, hup⟩ := hvalid.alignPtr_spec (k := max k 2) (le_max_right _ _) (by omega)
    have hsize := hvalid.size
    have hfits := hvalid.fits
    refine ⟨b, rfl, (pow_dvd_pow 2 (le_max_left _ _)).trans hdvd, hlow, by omega, fun m'' hoff => ?_⟩
    have hsub : sub (alignPtr b.ptr (2 ^ max k 2)) 4 + 4 = alignPtr b.ptr (2 ^ max k 2) := by
      rw [sub_of_le (by omega) (by omega)]
      omega
    -- the saved pointer is just below what the user may write
    rw [rtFreeAlign, load_of_agreeOff hoff (.inl hsub.le), load_store_same]
    exact Nat.mod_eq_of_lt (by omega)

/-- With an overflow a block of the size asked for is too small. -/
lemma not_alignsRight_of_ge (hsize : size < 2 ^ 32) (hk : k < 32)
    (hge : 2 ^ 32 ≤ (size + 3) / 4 * 4 + 2 ^ max k 2) : ¬ AlignsRight size (2 ^ k) := by
  intro h
  have hpow : 2 ^ max k 2 ≤ 2 ^ 31 := Nat.pow_le_pow_right two_pos (by omega)
  have htotal : totalSize size (2 ^ k) + 2 ^ 32 = (size + 3) / 4 * 4 + 2 ^ max k 2 := by
    rw [totalSize_two_pow hk]
    omega
  -- every block starts at 4
  let malloc : ℕ → Option Block := fun n => if 4 + n < 2 ^ 32 then some ⟨4, n⟩ else none
  have hvalid : ∀ n b, malloc n = some b → ValidBlock n b := by
    intro n b hb
    obtain ⟨hfits, hb⟩ := ite_none_right_eq_some.mp hb
    obtain rfl := some.inj hb
    exact ⟨by simp, dvd_rfl, le_rfl, hfits⟩
  have hblock : malloc (totalSize size (2 ^ k)) = some ⟨4, totalSize size (2 ^ k)⟩ :=
    if_pos (by omega)
  obtain ⟨r, hok⟩ : ∃ r, rtMallocAlign malloc (fun _ => 0) size (2 ^ k) = some r := by
    rw [rtMallocAlign, hblock]
    exact ⟨_, rfl⟩
  obtain ⟨b, hb, -, hlow, hup, -⟩ := h malloc hvalid _ r.1 r.2 hok
  obtain rfl := some.inj (hblock.symm.trans hb)
  simp only at hlow hup
  omega

/-- For every size and every alignment that is a power of two: the result is right exactly if the
rounded size and the alignment have a 32-bit sum. -/
theorem alignsRight_iff (size : BitVec 32) (k : Fin 32) : AlignsRight size.toNat (2 ^ k.val) ↔
      (size.toNat + 3) / 4 * 4 + 2 ^ max k.val 2 < 2 ^ 32 := by
  refine ⟨fun h => ?_, alignsRight_of_lt k.isLt⟩
  by_contra hge
  exact not_alignsRight_of_ge size.isLt k.isLt (not_lt.mp hge) h

/-- The size `0xfffffff8` with the alignment 16: 8 bytes are asked for, and the address lies behind
them. -/
theorem not_alignsRight_top : totalSize 0xfffffff8 16 = 8 ∧ ValidBlock 8 ⟨0x20000000, 8⟩ ∧
    alignPtr 0x20000000 (alignUp 16 4) = 0x20000010 ∧ ¬ AlignsRight 0xfffffff8 16 := by
  have hpow : (16 : ℕ) = 2 ^ 4 := rfl
  refine ⟨?_, ⟨by decide, by decide, le_rfl, by decide⟩, ?_, ?_⟩
  · rw [hpow, totalSize_two_pow (by decide)]
    decide
  · rw [hpow, alignUp_align (by decide), alignPtr, if_pos (by decide), add_of_lt (by decide)]
    rfl
  · rw [hpow]
    exact not_alignsRight_of_ge (by decide) (by decide) (by decide)
end Kservice
