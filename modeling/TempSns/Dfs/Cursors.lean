import TempSns.Dfs.Path

/-!
# The cursors of the normalization

What a round of the loop of `dfs_normalize_path` does to the buffer. The bytes before the destination and
the bytes from the source on are two texts, and the destination never passes the source.
-/

namespace Dfs

open CString Function List Nat

variable {n size : ℕ} {k : Cursors} {out rest c t : List UInt8}

/-! ## Cursors -/

/-- The bytes before the destination. -/
structure Written (n : ℕ) (k : Cursors) (out : List UInt8) : Prop where
  bytes : ∀ i (hi : i < out.length), k.fullpath i = out[i]
  dst : k.dst = out.length
  length_le : out.length ≤ n
  written_nonzero : 0 ∉ out

/-- The bytes before the destination, and the bytes from the source on. -/
structure At (n : ℕ) (k : Cursors) (out rest : List UInt8) : Prop extends Written n k out where
  dst_le : k.dst ≤ k.src
  ahead : ∀ i, k.fullpath (k.src + i) = cstr rest i
  total : k.src + rest.length = n
  nonzero : 0 ∉ rest

lemma At.advance (h : At n k out rest) {m : ℕ} (hm : m ≤ rest.length) :
    At n { k with src := k.src + m } out (rest.drop m) where
  bytes := h.bytes
  dst := h.dst
  length_le := h.length_le
  written_nonzero := h.written_nonzero
  dst_le := h.dst_le.trans (le_add_right _ _)
  ahead := by
    intro i
    rw [cstr_drop, ← h.ahead, add_assoc]
  total := by
    have htotal := h.total
    rw [length_drop]
    dsimp only
    omega
  nonzero := fun hmem => h.nonzero (mem_of_mem_drop hmem)

/-- A byte is written at the destination, behind the source. -/
lemma At.write (h : At n k out rest) (hlt : k.dst < k.src) {b : UInt8} (hb : b ≠ 0) :
    At n { k with fullpath := update k.fullpath k.dst b, dst := k.dst + 1 } (out ++ [b]) rest where
  bytes := by
    intro i hi
    rw [h.dst]
    dsimp only
    rcases eq_or_ne i out.length with rfl | hne
    · rw [update_self]
      simp
    · rw [length_append, length_singleton] at hi
      rw [update_of_ne hne, h.bytes i (by omega), getElem_append_left]
  dst := by rw [h.dst, length_append, length_singleton]
  length_le := by
    have htotal := h.total
    have hdst := h.dst
    rw [length_append, length_singleton]
    omega
  written_nonzero := by
    intro hmem
    rcases mem_append.mp hmem with hmem | hmem
    · exact h.written_nonzero hmem
    · exact hb (mem_singleton.mp hmem).symm
  dst_le := hlt
  ahead := by
    intro i
    dsimp only
    rw [update_of_ne (by omega), h.ahead]
  total := h.total
  nonzero := h.nonzero

/-- The loop over slashes stops at the first other character. -/
lemma skipSlashes_eq {fullpath : ℕ → UInt8} {src : ℕ} (left : ℕ)
    (hahead : ∀ i, fullpath (src + i) = cstr rest i) (hleft : rest.length < left) :
    ∃ m ≤ rest.length, skipSlashes fullpath left src = .ok (src + m) ∧
      rest.drop m = rest.dropWhile (· = slash) := by
  induction rest generalizing left src with
  | nil =>
    obtain ⟨left, rfl⟩ := exists_eq_add_one.mpr hleft
    have hzero : fullpath src = 0 := hahead 0
    exact ⟨0, le_rfl, by rw [skipSlashes, if_neg (by rw [hzero]; decide), add_zero], rfl⟩
  | cons a rest ih =>
    obtain ⟨left, rfl⟩ := exists_eq_add_one.mpr (zero_lt_of_lt hleft)
    have hfirst : fullpath src = a := hahead 0
    rw [skipSlashes, hfirst]
    by_cases ha : a = slash
    · have hahead' : ∀ i, fullpath (src + 1 + i) = cstr rest i := by
        intro i
        rw [add_assoc, add_comm 1 i]
        exact hahead (i + 1)
      obtain ⟨m, hm, hskip, hdrop⟩ := ih left hahead' (by simpa using hleft)
      refine ⟨m + 1, succ_le_succ hm, ?_, ?_⟩
      · rw [if_pos ha, hskip, add_assoc, add_comm 1 m]
      · rw [drop_succ_cons, hdrop, dropWhile_cons_of_pos (by simpa using ha)]
    · refine ⟨0, zero_le _, ?_, ?_⟩
      · rw [if_neg ha, add_zero]
      · rw [drop_zero, dropWhile_cons_of_neg (by simpa using ha)]

/-- The source moves to the next component. -/
lemma At.skip (h : At n k out rest) :
    ∃ src, skipSlashes k.fullpath (n + 1 - k.src) k.src = .ok src ∧
      At n { k with src } out (rest.dropWhile (· = slash)) := by
  have htotal := h.total
  obtain ⟨m, hm, hskip, hdrop⟩ := skipSlashes_eq (n + 1 - k.src) h.ahead (by omega)
  exact ⟨k.src + m, hskip, hdrop ▸ h.advance hm⟩

/-- The rest of a path behind a component. -/
def Tail (t : List UInt8) : Prop := t = [] ∨ ∃ t', t = slash :: t'

lemma Tail.first (ht : Tail t) : cstr t 0 = 0 ∨ cstr t 0 = slash := by
  rcases ht with rfl | ⟨t', rfl⟩
  · exact .inl rfl
  · exact .inr rfl

lemma At.copyName (h : At n k out (c ++ t)) (hc : slash ∉ c) (ht : Tail t) (left : ℕ)
    (hleft : (c ++ t).length < left) :
    ∃ k', copyName left k = .ok (k', cstr t 0) ∧ Written n k' (out ++ c) ∧
      ∀ t', t = slash :: t' → At n k' (out ++ c) t' ∧ k'.dst < k'.src := by
  induction c generalizing k out left with
  | nil =>
    obtain ⟨left, rfl⟩ := exists_eq_add_one.mpr (zero_lt_of_lt hleft)
    have hfirst : k.fullpath k.src = cstr t 0 := h.ahead 0
    have hle := h.dst_le
    rw [Dfs.copyName, hfirst, if_pos ht.first, append_nil]
    refine ⟨_, rfl, ⟨h.bytes, h.dst, h.length_le, h.written_nonzero⟩, ?_⟩
    rintro t' rfl
    have hadvance : At n { k with src := k.src + 1 } out t' := h.advance (by simp)
    exact ⟨hadvance, by dsimp only; omega⟩
  | cons a c ih =>
    obtain ⟨left, rfl⟩ := exists_eq_add_one.mpr (zero_lt_of_lt hleft)
    have hfirst : k.fullpath k.src = a := h.ahead 0
    have hle := h.dst_le
    have hzero : a ≠ 0 := by
      rintro rfl
      exact h.nonzero mem_cons_self
    have hslash : a ≠ slash := by
      rintro rfl
      exact hc mem_cons_self
    rw [Dfs.copyName, hfirst, if_neg fun hor => hor.elim hzero hslash]
    have hadvance : At n { k with src := k.src + 1 } out (c ++ t) := h.advance (by simp)
    have hwrite := hadvance.write (by dsimp only; omega) hzero
    obtain ⟨k', hcopy, hwritten, hat⟩ :=
      ih hwrite (fun hmem => hc (mem_cons_of_mem a hmem)) left (by simpa using hleft)
    rw [append_assoc, singleton_append] at hwritten hat
    exact ⟨k', hcopy, hwritten, hat⟩

lemma At.copyRound_end (h : At n k out c) (hc : slash ∉ c) :
    ∃ k', copyRound (n + 1) k = .ok (.finish k') ∧ Written n k' (out ++ c) := by
  have htotal := h.total
  rw [← append_nil c] at h
  obtain ⟨k', hcopy, hwritten, -⟩ := h.copyName hc (.inl rfl) (n + 1 - k.src)
    (by rw [append_nil]; omega)
  refine ⟨k', ?_, hwritten⟩
  rw [copyRound, hcopy, ok_bind, endName]
  exact if_neg (show ¬ (0 : UInt8) = slash by decide)

lemma At.copyRound_slash {t' : List UInt8} (h : At n k out (c ++ slash :: t')) (hc : slash ∉ c) :
    ∃ k', copyRound (n + 1) k = .ok (.next k') ∧
      At n k' (out ++ c ++ [slash]) (t'.dropWhile (· = slash)) := by
  have htotal := h.total
  obtain ⟨k₁, hcopy, -, hat⟩ := h.copyName hc (.inr ⟨t', rfl⟩) (n + 1 - k.src) (by omega)
  obtain ⟨hat, hlt⟩ := hat t' rfl
  obtain ⟨src, hskip, hat'⟩ := (hat.write hlt (show slash ≠ 0 by decide)).skip
  refine ⟨_, ?_, hat'⟩
  rw [copyRound, hcopy, ok_bind, endName, cstr_cons_zero, if_pos rfl]
  dsimp only at hskip ⊢
  rw [hskip]
  rfl

/-! ## Kinds of components -/

lemma At.round_name (h : At n k out (c ++ t)) (hc : slash ∉ c) (ht : Tail t) (hdot : c ≠ [dot])
    (hdots : c ≠ [dot, dot]) : round size k = copyRound size k := by
  have hplain : ∀ a ∈ c, a ≠ 0 ∧ a ≠ slash := by
    intro a ha
    exact ⟨fun hzero => h.nonzero (hzero ▸ mem_append_left _ ha), fun heq => hc (heq ▸ ha)⟩
  rw [round]
  cases c with
  | nil =>
    -- the end of the string or a slash
    have hfirst : k.fullpath k.src = cstr t 0 := h.ahead 0
    rw [hfirst, if_neg]
    rcases ht.first with hzero | hslash
    · rw [hzero]
      decide
    · rw [hslash]
      decide
  | cons a c =>
    have hfirst : k.fullpath k.src = a := h.ahead 0
    rw [hfirst]
    by_cases ha : a = dot
    · subst ha
      cases c with
      | nil => exact absurd rfl hdot
      | cons b c =>
        have hsecond : k.fullpath (k.src + 1) = b := h.ahead 1
        obtain ⟨hzero, hslash⟩ := hplain b (by simp)
        rw [if_pos rfl, hsecond, if_neg hzero, if_neg hslash]
        by_cases hb : b = dot
        · subst hb
          cases c with
          | nil => exact absurd rfl hdots
          | cons d c =>
            have hthird : k.fullpath (k.src + 2) = d := h.ahead 2
            obtain ⟨hzero, hslash⟩ := hplain d (by simp)
            rw [if_pos rfl, hthird, if_neg hzero, if_neg hslash]
        · rw [if_neg hb]
    · rw [if_neg ha]

lemma At.round_dot_end (h : At n k out [dot]) :
    ∃ k', round (n + 1) k = .ok (.finish k') ∧ Written n k' out := by
  have hfirst : k.fullpath k.src = dot := h.ahead 0
  have hsecond : k.fullpath (k.src + 1) = 0 := h.ahead 1
  have hadvance : At n { k with src := k.src + 1 } out [] := h.advance le_rfl
  rw [round, if_pos hfirst, if_pos hsecond]
  obtain ⟨k', hcopy, hwritten⟩ := hadvance.copyRound_end not_mem_nil
  rw [append_nil] at hwritten
  exact ⟨k', hcopy, hwritten⟩

/-- The component `.` with a rest behind it. -/
lemma At.round_dot_slash {t' : List UInt8} (h : At n k out (dot :: slash :: t')) :
    ∃ k', round (n + 1) k = .ok (.next k') ∧ At n k' out (t'.dropWhile (· = slash)) := by
  have hfirst : k.fullpath k.src = dot := h.ahead 0
  have hsecond : k.fullpath (k.src + 1) = slash := h.ahead 1
  have hadvance : At n { k with src := k.src + 2 } out t' := h.advance (by simp)
  obtain ⟨src, hskip, hat⟩ := hadvance.skip
  refine ⟨_, ?_, hat⟩
  rw [round, if_pos hfirst, hsecond, if_neg (by decide), if_pos rfl]
  dsimp only at hskip
  rw [hskip]
  rfl

lemma At.round_dots (h : At n k out (dot :: dot :: t)) (ht : Tail t) :
    ∃ src, round (n + 1) k = .ok (upOne { k with src }) ∧
      At n { k with src } out (t.dropWhile (· = slash)) := by
  have hfirst : k.fullpath k.src = dot := h.ahead 0
  have hsecond : k.fullpath (k.src + 1) = dot := h.ahead 1
  have hthird : k.fullpath (k.src + 2) = cstr t 0 := h.ahead 2
  rw [round, if_pos hfirst, hsecond, if_neg (by decide), if_neg (by decide), if_pos rfl, hthird]
  rcases ht with rfl | ⟨t', rfl⟩
  · exact ⟨k.src + 2, if_pos rfl, h.advance le_rfl⟩
  · have hadvance : At n { k with src := k.src + 3 } out t' := h.advance (by simp)
    obtain ⟨src, hskip, hat⟩ := hadvance.skip
    refine ⟨src, ?_, by rwa [dropWhile_cons_of_pos (by simp)]⟩
    rw [cstr_cons_zero, if_neg (by decide), if_pos rfl]
    dsimp only at hskip
    rw [hskip]
    rfl

end Dfs
