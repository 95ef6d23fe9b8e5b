import Mathlib.Tactic

/-!
# Items in store or in the hands of one holder

A fixed set of items, given by the predicate `pool`. Each item is in the store, which is a list, or in
the hands of exactly one holder; `holds t` is the item in the hands of `t`. Items move between the
store and the holders.
-/

variable {ι τ : Type*} {pool : ι → Prop} {holds holds' : τ → Option ι} {store store' : List ι}
  {a : ι} {t : τ}

/-- Every item is in the store, once, or in the hands of one holder. -/
structure Custody (pool : ι → Prop) (holds : τ → Option ι) (store : List ι) : Prop where
  nodup : store.Nodup
  held : ∀ t a, holds t = some a → a ∉ store
  single : ∀ t t' a, holds t = some a → holds t' = some a → t = t'
  cover : ∀ a, pool a ↔ a ∈ store ∨ ∃ t, holds t = some a

namespace Custody

open Function List Option

lemma perm (h : Custody pool holds store) (hperm : store.Perm store') :
    Custody pool holds store' where
  nodup := hperm.nodup_iff.mp h.nodup
  held := fun t a ht hmem => h.held t a ht (hperm.mem_iff.mpr hmem)
  single := h.single
  cover := fun a => by rw [h.cover a, hperm.mem_iff]

variable [DecidableEq τ]

/-- A holder with empty hands takes an item out of the store. -/
lemma take (h : Custody pool holds (a :: store)) (ht : holds t = none) :
    Custody pool (update holds t (some a)) store := by
  obtain ⟨hnot, hnodup⟩ := nodup_cons.mp h.nodup
  have hother : ∀ t' b, t' ≠ t → holds t' = some b → b ≠ a ∧ b ∉ store := by
    intro t' b _ hb
    have hmem := h.held t' b hb
    exact ⟨fun heq => hmem (heq ▸ mem_cons_self), fun hb => hmem (mem_cons_of_mem a hb)⟩
  refine ⟨hnodup, fun t' b hb => ?_, fun t' t'' b hb hb' => ?_, fun b => ?_⟩
  · by_cases htt : t' = t
    · subst htt
      rw [update_self] at hb
      obtain rfl := some.inj hb
      exact hnot
    · rw [update_of_ne htt] at hb
      exact (hother t' b htt hb).2
  · by_cases htt : t' = t
    · by_cases htt' : t'' = t
      · rw [htt, htt']
      · subst htt
        rw [update_self] at hb
        rw [update_of_ne htt'] at hb'
        exact absurd (some.inj hb).symm (hother t'' b htt' hb').1
    · rw [update_of_ne htt] at hb
      by_cases htt' : t'' = t
      · subst htt'
        rw [update_self] at hb'
        exact absurd (some.inj hb').symm (hother t' b htt hb).1
      · rw [update_of_ne htt'] at hb'
        exact h.single t' t'' b hb hb'
  · rw [h.cover b, mem_cons]
    constructor
    · rintro ((rfl | hmem) | ⟨t', ht'⟩)
      · exact .inr ⟨t, update_self _ _ _⟩
      · exact .inl hmem
      · have htt : t' ≠ t := by
          rintro rfl
          rw [ht] at ht'
          cases ht'
        exact .inr ⟨t', by rw [update_of_ne htt, ht']⟩
    · rintro (hmem | ⟨t', ht'⟩)
      · exact .inl (.inr hmem)
      · by_cases htt : t' = t
        · subst htt
          rw [update_self] at ht'
          exact .inl (.inl (some.inj ht').symm)
        · rw [update_of_ne htt] at ht'
          exact .inr ⟨t', ht'⟩

lemma put (h : Custody pool holds store) (ht : holds t = some a) :
    Custody pool (update holds t none) (a :: store) := by
  have hother : ∀ t' b, update holds t none t' = some b → t' ≠ t ∧ holds t' = some b := by
    intro t' b hb
    by_cases htt : t' = t
    · rw [htt, update_self] at hb
      cases hb
    · rw [update_of_ne htt] at hb
      exact ⟨htt, hb⟩
  refine ⟨nodup_cons.mpr ⟨h.held t a ht, h.nodup⟩, fun t' b hb => ?_, fun t' t'' b hb hb' => ?_,
    fun b => ?_⟩
  · obtain ⟨htt, hb⟩ := hother t' b hb
    intro hmem
    rcases mem_cons.mp hmem with rfl | hmem
    · exact htt (h.single t' t b hb ht)
    · exact h.held t' b hb hmem
  · exact h.single t' t'' b (hother t' b hb).2 (hother t'' b hb').2
  · rw [h.cover b, mem_cons]
    constructor
    · rintro (hmem | ⟨t', ht'⟩)
      · exact .inl (.inr hmem)
      · by_cases htt : t' = t
        · subst htt
          rw [ht] at ht'
          exact .inl (.inl (some.inj ht').symm)
        · exact .inr ⟨t', by rw [update_of_ne htt, ht']⟩
    · rintro ((rfl | hmem) | ⟨t', ht'⟩)
      · exact .inr ⟨t, ht⟩
      · exact .inl hmem
      · exact .inr ⟨t', (hother t' b ht').2⟩

end Custody
