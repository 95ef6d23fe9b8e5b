import TempSns.Lib.ByteMem
import TempSns.Lib.Word32

/-!
# Filling and copying memory

`rt_memset`, `rt_memcpy` and `rt_memmove` of `src/kservice.c`. The first two have a version that works
with words of four bytes and one for `RT_USING_TINY_SIZE` that works with bytes. Pointers are 32-bit
numbers, and so are the counts.

The invariant of every loop says that filling or copying what is left gives the memory that is wanted
(`Fills`, `Copies`).
-/

namespace Kservice

open ByteMem Word32 Function

/-! ## Byte versions -/

def setBytes (m : Mem) (xs : ℕ) (v : UInt8) : ℕ → Mem
  | 0 => m
  | count + 1 => setBytes (update m xs v) (add xs 1) v count

def copyBytes (m : Mem) (tmp s : ℕ) : ℕ → Mem
  | 0 => m
  | count + 1 => copyBytes (update m tmp (m s)) (add tmp 1) (add s 1) count

/-- The low byte of the argument of `rt_memset`. -/
def lowByte (c : BitVec 32) : UInt8 := UInt8.ofNat (c &&& 0xff).toNat

/-- `rt_memset` with `RT_USING_TINY_SIZE`. -/
def rtMemsetTiny (m : Mem) (s : ℕ) (c : BitVec 32) (count : ℕ) : Mem :=
  setBytes m s (lowByte c) count

/-- `for (len = count; len > 0; len --) tmp[len - 1] = s[len - 1]`. -/
def copyIndexed (m : Mem) (tmp s : ℕ) : ℕ → Mem
  | 0 => m
  | len + 1 => copyIndexed (update m (add tmp len) (m (add s len))) tmp s len

/-- `rt_memcpy` with `RT_USING_TINY_SIZE`. -/
def rtMemcpyTiny (m : Mem) (dst src count : ℕ) : Mem :=
  if dst ≤ src ∨ add src count < dst then copyBytes m dst src count
  else copyIndexed m dst src count

/-! ## Word versions -/

/-- `*aligned_addr++ = buffer`. -/
def putWord (buffer : BitVec 32) (m : Mem) (p : ℕ) : Mem × ℕ :=
  (store m p 4 buffer.toNat, add p 4)

/-- `while (count >= LBLOCKSIZE * 4)` of `rt_memset`. -/
def setBig (buffer : BitVec 32) (m : Mem) (p count : ℕ) : Mem × ℕ × ℕ :=
  if 16 ≤ count then
    let (m, p) := putWord buffer m p
    let (m, p) := putWord buffer m p
    let (m, p) := putWord buffer m p
    let (m, p) := putWord buffer m p
    setBig buffer m p (count - 16)
  else (m, p, count)
  termination_by count

/-- `while (count >= LBLOCKSIZE)` of `rt_memset`. -/
def setWords (buffer : BitVec 32) (m : Mem) (p count : ℕ) : Mem × ℕ × ℕ :=
  if 4 ≤ count then
    let (m, p) := putWord buffer m p
    setWords buffer m p (count - 4)
  else (m, p, count)
  termination_by count

/-- The word of four equal bytes. -/
def wordOf (d : BitVec 32) : BitVec 32 :=
  let buffer := (d <<< 8) ||| d
  buffer ||| (buffer <<< 16)

def rtMemset (m : Mem) (s : ℕ) (c : BitVec 32) (count : ℕ) : Mem :=
  let d := c &&& 0xff
  if ¬ count < 4 ∧ s &&& 3 = 0 then
    let buffer := wordOf d
    let (m, p, count) := setBig buffer m s count
    let (m, p, count) := setWords buffer m p count
    setBytes m p (UInt8.ofNat d.toNat) count
  else setBytes m s (UInt8.ofNat d.toNat) count

/-- `*aligned_dst++ = *aligned_src++`. -/
def moveWord (m : Mem) (d s : ℕ) : Mem × ℕ × ℕ :=
  (store m d 4 (load m s 4), add d 4, add s 4)

/-- `while (len >= BIGBLOCKSIZE)` of `rt_memcpy`. -/
def copyBig (m : Mem) (d s len : ℕ) : Mem × ℕ × ℕ × ℕ :=
  if 16 ≤ len then
    let (m, d, s) := moveWord m d s
    let (m, d, s) := moveWord m d s
    let (m, d, s) := moveWord m d s
    let (m, d, s) := moveWord m d s
    copyBig m d s (len - 16)
  else (m, d, s, len)
  termination_by len

/-- `while (len >= LITTLEBLOCKSIZE)` of `rt_memcpy`. -/
def copyWords (m : Mem) (d s len : ℕ) : Mem × ℕ × ℕ × ℕ :=
  if 4 ≤ len then
    let (m, d, s) := moveWord m d s
    copyWords m d s (len - 4)
  else (m, d, s, len)
  termination_by len

/-- The `int` `len` is compared as an unsigned number, so it is `count` throughout. -/
def rtMemcpy (m : Mem) (dst src count : ℕ) : Mem :=
  if ¬ count < 16 ∧ (src &&& 3) ||| (dst &&& 3) = 0 then
    let (m, d, s, len) := copyBig m dst src count
    let (m, d, s, len) := copyWords m d s len
    copyBytes m d s len
  else copyBytes m dst src count

def copyBack (m : Mem) (tmp s : ℕ) : ℕ → Mem
  | 0 => m
  | n + 1 => copyBack (update m (sub tmp 1) (m (sub s 1))) (sub tmp 1) (sub s 1) n

def rtMemmove (m : Mem) (dest src n : ℕ) : Mem :=
  if src < dest ∧ dest < add src n then copyBack m (add dest n) (add src n) n
  else copyBytes m dest src n

/-! ## Filling -/

variable {m final : Mem} {p d s r k : ℕ} {v : UInt8} {c : BitVec 32} {dst src count : ℕ}

/-- Filling the `r` bytes at `p` gives the memory that is wanted. -/
structure Fills (m : Mem) (p r : ℕ) (v : UInt8) (final : Mem) : Prop where
  fits : p + r ≤ 2 ^ 32
  eq : fill m p r v = final

/-- A piece is written. The pointer wraps only after the last byte of memory. -/
lemma Fills.piece (h : Fills m p r v final) (hk : k ≤ r) :
    Fills (fill m p k v) (add p k) (r - k) v final := by
  have hfits := h.fits
  rcases Nat.lt_or_ge (p + k) (2 ^ 32) with hlt | hge
  · rw [add_of_lt hlt]
    refine ⟨by omega, ?_⟩
    rw [fill_fill, Nat.add_sub_cancel' hk]
    exact h.eq
  · obtain rfl : r = k := by omega
    have hadd : add p r = 0 := by
      rw [add]
      omega
    rw [hadd, Nat.sub_self]
    exact ⟨by omega, fill_zero.trans h.eq⟩

lemma Fills.setBytes (h : Fills m p r v final) : setBytes m p v r = final := by
  induction r generalizing m p with
  | zero => exact fill_zero.symm.trans h.eq
  | succ r ih =>
    rw [Kservice.setBytes, update_eq_fill]
    exact ih (h.piece (k := 1) (by omega))

lemma toNat_lowByte (c : BitVec 32) : (lowByte c).toNat = (c &&& 0xff).toNat := by
  have hmask : (c &&& 0xff).toNat = c.toNat % 2 ^ 8 := by
    rw [BitVec.toNat_and]
    exact Nat.and_two_pow_sub_one_eq_mod c.toNat 8
  rw [lowByte, UInt8.toNat_ofNat', hmask]
  exact Nat.mod_mod _ _

lemma wordOf_byte (c : BitVec 32) {j : ℕ} (hj : j < 4) :
    UInt8.ofNat ((wordOf (c &&& 0xff)).toNat / 256 ^ j) = lowByte c := by
  have hall : ∀ (d : Fin 256) (j : Fin 4),
      (wordOf (BitVec.ofNat 32 d)).toNat / 256 ^ j.val % 256 = d := by
    decide +kernel
  have hd : c &&& 0xff = BitVec.ofNat 32 (lowByte c).toNat := by
    rw [toNat_lowByte, BitVec.ofNat_toNat, BitVec.setWidth_eq]
  apply UInt8.toNat_inj.mp
  rw [UInt8.toNat_ofNat', hd]
  exact hall ⟨(lowByte c).toNat, (lowByte c).toNat_lt⟩ ⟨j, hj⟩

lemma store_wordOf (c : BitVec 32) :
    store m p 4 (wordOf (c &&& 0xff)).toNat = fill m p 4 (lowByte c) := by
  funext i
  rw [store, fill]
  split
  · exact wordOf_byte c (by omega)
  · rfl

lemma Fills.putWord {m' : Mem} {p' : ℕ} (h : Fills m p r (lowByte c) final)
    (hr : 4 ≤ r) (hput : putWord (wordOf (c &&& 0xff)) m p = (m', p')) :
    Fills m' p' (r - 4) (lowByte c) final := by
  obtain ⟨rfl, rfl⟩ := Prod.mk.inj hput
  rw [store_wordOf]
  exact h.piece hr

/-- What a loop leaves to be done. -/
def FillsRest (v : UInt8) (final : Mem) (x : Mem × ℕ × ℕ) : Prop :=
  Fills x.1 x.2.1 x.2.2 v final

lemma Fills.setWords (h : Fills m p r (lowByte c) final) :
    FillsRest (lowByte c) final (setWords (wordOf (c &&& 0xff)) m p r) := by
  fun_induction Kservice.setWords with
  | case1 m p r hr m' p' hput ih => exact ih (h.putWord hr hput)
  | case2 m p r hr => exact h

lemma Fills.setBig (h : Fills m p r (lowByte c) final) :
    FillsRest (lowByte c) final (setBig (wordOf (c &&& 0xff)) m p r) := by
  fun_induction Kservice.setBig with
  | case1 m p r hr m1 p1 h1 m2 p2 h2 m3 p3 h3 m4 p4 h4 ih =>
    have hfour := (((h.putWord (by omega) h1).putWord (by omega) h2).putWord (by omega) h3).putWord
      (by omega) h4
    exact ih hfour
  | case2 m p r hr => exact h

lemma rtMemset_eq_fill (m : Mem) {s count : ℕ} (c : BitVec 32) (hfits : s + count ≤ 2 ^ 32) :
    rtMemset m s c count = fill m s count (lowByte c) := by
  have h : Fills m s count (lowByte c) (fill m s count (lowByte c)) := ⟨hfits, rfl⟩
  rw [rtMemset]
  split
  · exact (Fills.setWords h.setBig).setBytes
  · exact h.setBytes

lemma rtMemsetTiny_eq_fill (m : Mem) {s count : ℕ} (c : BitVec 32)
    (hfits : s + count ≤ 2 ^ 32) : rtMemsetTiny m s c count = fill m s count (lowByte c) :=
  Fills.setBytes ⟨hfits, rfl⟩

/-! ## Copying -/

/-- Copying the `r` bytes at `s` to `d` gives the memory that is wanted, and going forwards is safe. -/
structure Copies (m : Mem) (d s r : ℕ) (final : Mem) : Prop where
  dst_fits : d + r ≤ 2 ^ 32
  src_fits : s + r ≤ 2 ^ 32
  apart : d ≤ s ∨ s + r ≤ d
  eq : copy m d s r = final

lemma Copies.piece (h : Copies m d s r final) (hk : k ≤ r) :
    Copies (copy m d s k) (add d k) (add s k) (r - k) final := by
  have hd := h.dst_fits
  have hs := h.src_fits
  have hapart := h.apart
  rcases Nat.eq_or_lt_of_le hk with rfl | hlt
  · -- the last piece
    have hd' : add d k < 2 ^ 32 := by
      rw [add]
      omega
    have hs' : add s k < 2 ^ 32 := by
      rw [add]
      omega
    rw [Nat.sub_self]
    exact ⟨by omega, by omega, by omega, copy_zero.trans h.eq⟩
  · rw [add_of_lt (by omega), add_of_lt (by omega)]
    refine ⟨by omega, by omega, by omega, ?_⟩
    rw [copy_copy (by omega), Nat.add_sub_cancel' hk]
    exact h.eq

lemma Copies.copyBytes (h : Copies m d s r final) : copyBytes m d s r = final := by
  induction r generalizing m d s with
  | zero => exact copy_zero.symm.trans h.eq
  | succ r ih =>
    rw [Kservice.copyBytes, update_eq_copy]
    exact ih (h.piece (k := 1) (by omega))

lemma Copies.moveWord {x : Mem × ℕ × ℕ} (h : Copies m d s r final) (hr : 4 ≤ r)
    (hmove : moveWord m d s = x) : Copies x.1 x.2.1 x.2.2 (r - 4) final := by
  subst hmove
  have hpiece := h.piece hr
  rw [← store_load] at hpiece
  exact hpiece

/-- What a loop leaves to be done. -/
def CopiesRest (final : Mem) (x : Mem × ℕ × ℕ × ℕ) : Prop :=
  Copies x.1 x.2.1 x.2.2.1 x.2.2.2 final

lemma Copies.copyWords (h : Copies m d s r final) : CopiesRest final (copyWords m d s r) := by
  fun_induction Kservice.copyWords with
  | case1 m d s r hr m' d' s' hmove ih => exact ih (h.moveWord hr hmove)
  | case2 m d s r hr => exact h

lemma Copies.copyBig (h : Copies m d s r final) : CopiesRest final (copyBig m d s r) := by
  fun_induction Kservice.copyBig with
  | case1 m d s r hr m1 d1 s1 h1 m2 d2 s2 h2 m3 d3 s3 h3 m4 d4 s4 h4 ih =>
    have hfour := (((h.moveWord (by omega) h1).moveWord (by omega) h2).moveWord (by omega) h3).moveWord
      (by omega) h4
    exact ih hfour
  | case2 m d s r hr => exact h

/-- `rt_memcpy` for a source that no byte of the destination overwrites too early. -/
lemma rtMemcpy_eq_copy (m : Mem) (hdst : dst + count ≤ 2 ^ 32)
    (hsrc : src + count ≤ 2 ^ 32) (hapart : dst ≤ src ∨ src + count ≤ dst) :
    rtMemcpy m dst src count = copy m dst src count := by
  have h : Copies m dst src count (copy m dst src count) := ⟨hdst, hsrc, hapart, rfl⟩
  rw [rtMemcpy]
  split
  · exact (Copies.copyWords h.copyBig).copyBytes
  · exact h.copyBytes

lemma copyIndexed_eq_copy (m : Mem) {d s n : ℕ} (hd : d + n ≤ 2 ^ 32) (hs : s + n ≤ 2 ^ 32)
    (hle : s ≤ d) : copyIndexed m d s n = copy m d s n := by
  induction n generalizing m with
  | zero => exact copy_zero.symm
  | succ n ih =>
    rw [copyIndexed, add_of_lt (by omega), add_of_lt (by omega), update_eq_copy,
      ih _ (by omega) (by omega), copy_copy_back hle]

/-- Going backwards with pointers that start behind the areas. -/
lemma copyBack_eq_copy (m : Mem) {d s n : ℕ} (hd : d + n ≤ 2 ^ 32) (hs : s + n ≤ 2 ^ 32)
    (hle : s ≤ d) : copyBack m (add d n) (add s n) n = copy m d s n := by
  induction n generalizing m with
  | zero => exact copy_zero.symm
  | succ n ih =>
    have hback : ∀ a, a + (n + 1) ≤ 2 ^ 32 → sub (add a (n + 1)) 1 = add a n := by
      intro a ha
      rw [sub, add, add]
      omega
    rw [copyBack, hback d hd, hback s hs, update_eq_copy, ih _ (by omega) (by omega),
      add_of_lt (by omega), add_of_lt (by omega), copy_copy_back hle]

lemma rtMemmove_eq_copy (m : Mem) {dest src n : ℕ} (hdst : dest + n ≤ 2 ^ 32)
    (hsrc : src + n ≤ 2 ^ 32) : rtMemmove m dest src n = copy m dest src n := by
  rw [rtMemmove]
  split
  · rename_i h
    exact copyBack_eq_copy m hdst hsrc h.1.le
  · rename_i h
    -- the end of the source wraps only if the destination is not above it
    have hapart : dest ≤ src ∨ src + n ≤ dest := by
      rw [add] at h
      omega
    exact Copies.copyBytes ⟨hdst, hsrc, hapart, rfl⟩

/-- The byte version of `rt_memcpy` for areas that do not overlap. -/
lemma rtMemcpyTiny_eq_copy (m : Mem) (hdst : dst + count ≤ 2 ^ 32)
    (hsrc : src + count ≤ 2 ^ 32) (hdisjoint : dst + count ≤ src ∨ src + count ≤ dst) :
    rtMemcpyTiny m dst src count = copy m dst src count := by
  rw [rtMemcpyTiny]
  split
  · exact Copies.copyBytes ⟨hdst, hsrc, by omega, rfl⟩
  · exact copyIndexed_eq_copy m hdst hsrc (by omega)

/-! ## Three functions -/

/-- A destination and a source area of the same length in the address space. -/
structure Areas where
  dst : ℕ
  src : ℕ
  count : ℕ
  dst_fits : dst + count ≤ 2 ^ 32
  src_fits : src + count ≤ 2 ^ 32

/-- The areas have no byte in common. -/
def Areas.Apart (x : Areas) : Prop := x.dst + x.count ≤ x.src ∨ x.src + x.count ≤ x.dst

/-- The word versions of `rt_memset` and, for areas that do not overlap, `rt_memcpy` do what their byte
versions do; `rt_memmove` copies a snapshot of the source for every overlap. No other byte is changed. -/
theorem memory_functions (m : Mem) (x : Areas) (c : BitVec 32) :
    (rtMemset m x.dst c x.count = rtMemsetTiny m x.dst c x.count ∧
      rtMemset m x.dst c x.count = fill m x.dst x.count (lowByte c) ∧
      AgreeOff m (rtMemset m x.dst c x.count) x.dst x.count) ∧
    (x.Apart → rtMemcpy m x.dst x.src x.count = rtMemcpyTiny m x.dst x.src x.count ∧
      rtMemcpy m x.dst x.src x.count = copy m x.dst x.src x.count ∧
      AgreeOff m (rtMemcpy m x.dst x.src x.count) x.dst x.count) ∧
    rtMemmove m x.dst x.src x.count = copy m x.dst x.src x.count ∧
      AgreeOff m (rtMemmove m x.dst x.src x.count) x.dst x.count := by
  refine ⟨?_, fun hapart => ?_, ?_⟩
  · rw [rtMemset_eq_fill m c x.dst_fits, rtMemsetTiny_eq_fill m c x.dst_fits]
    exact ⟨rfl, rfl, fill_agreeOff _ _ _ _⟩
  · have hforward : x.dst ≤ x.src ∨ x.src + x.count ≤ x.dst := by
      unfold Areas.Apart at hapart
      omega
    rw [rtMemcpy_eq_copy m x.dst_fits x.src_fits hforward,
      rtMemcpyTiny_eq_copy m x.dst_fits x.src_fits hapart]
    exact ⟨rfl, rfl, copy_agreeOff _ _ _ _⟩
  · rw [rtMemmove_eq_copy m x.dst_fits x.src_fits]
    exact ⟨rfl, copy_agreeOff _ _ _ _⟩

/-- 18 bytes that are copied to an aligned address. -/
theorem memory_functions_apart : (Areas.mk 64 128 18 (by decide) (by decide)).Apart ∧
    rtMemcpy (fun i => UInt8.ofNat i) 64 128 18 = copy (fun i => UInt8.ofNat i) 64 128 18 :=
  have hapart : (Areas.mk 64 128 18 (by decide) (by decide)).Apart := .inl (by decide)
  ⟨hapart, ((memory_functions (fun i => UInt8.ofNat i) ⟨64, 128, 18, by decide, by decide⟩ 0).2.1
    hapart).2.1⟩

end Kservice
