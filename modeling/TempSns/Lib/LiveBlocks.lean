import Mathlib.Tactic

/-!
# Live allocations and used blocks

An allocator keeps blocks, a program keeps pointers. The used blocks are pairs of a start and a size;
the data of the block that starts at `p` is at `addr p`, behind a header of `hdr` bytes. The program
has for each live pointer the number of bytes that it asked for.

`Tracks addr hdr E live`: the live pointers are the data addresses of the used blocks `E`, and a
block has room for what was asked for, if that number can be rounded up in 32 bits.
-/

namespace LiveBlocks

open Function

variable {addr : ℕ → ℕ} {hdr p q k n : ℕ} {E E' : Set (ℕ × ℕ)} {live : ℕ → Option ℕ}

/-- The live pointers are the data addresses of the used blocks. -/
structure Tracks (addr : ℕ → ℕ) (hdr : ℕ) (E : Set (ℕ × ℕ)) (live : ℕ → Option ℕ) : Prop where
  live_iff : ∀ a, (live a).isSome ↔ ∃ p k, (p, k) ∈ E ∧ a = addr p
  room : ∀ p k n, (p, k) ∈ E → live (addr p) = some n → n ≤ 0xfffffffc → n + hdr ≤ k

namespace Tracks

lemma empty (hE : ∀ x, x ∉ E) : Tracks addr hdr E fun _ => none := by
  refine ⟨fun a => ⟨nofun, ?_⟩, nofun⟩
  rintro ⟨p, k, hp, -⟩
  exact absurd hp (hE (p, k))

lemma congr (h : Tracks addr hdr E live) (hE : ∀ x, x ∈ E' ↔ x ∈ E) :
    Tracks addr hdr E' live := by
  obtain rfl : E' = E := Set.ext hE
  exact h

/-- A block is released. -/
lemma erase (haddr : Function.Injective addr) (h : Tracks addr hdr E live) (p : ℕ) :
    Tracks addr hdr {x ∈ E | x.1 ≠ p} (update live (addr p) none) := by
  refine ⟨fun a => ?_, fun q k n hq hlive => ?_⟩
  · by_cases ha : a = addr p
    · subst ha
      rw [update_self]
      constructor
      · simp
      · rintro ⟨q, k, ⟨-, hne⟩, heq⟩
        exact absurd (haddr heq).symm hne
    · rw [update_of_ne ha, h.live_iff]
      constructor
      · rintro ⟨q, k, hq, rfl⟩
        exact ⟨q, k, ⟨hq, fun heq => ha (congrArg addr heq)⟩, rfl⟩
      · rintro ⟨q, k, ⟨hq, -⟩, rfl⟩
        exact ⟨q, k, hq, rfl⟩
  · obtain ⟨hmem, hne⟩ := hq
    rw [update_of_ne fun heq => hne (haddr heq)] at hlive
    exact h.room q k n hmem hlive

/-- A block is handed out. -/
lemma insert (haddr : Function.Injective addr) (h : Tracks addr hdr E live)
    (hfresh : ∀ x ∈ E, x.1 ≠ q) (hroom : n ≤ 0xfffffffc → n + hdr ≤ k) :
    Tracks addr hdr (insert (q, k) E) (update live (addr q) (some n)) := by
  refine ⟨fun a => ?_, fun p k' n' hp hlive => ?_⟩
  · by_cases ha : a = addr q
    · subst ha
      rw [update_self]
      exact ⟨fun _ => ⟨q, k, Or.inl rfl, rfl⟩, fun _ => rfl⟩
    · rw [update_of_ne ha, h.live_iff]
      constructor
      · rintro ⟨p, k', hp, rfl⟩
        exact ⟨p, k', Or.inr hp, rfl⟩
      · rintro ⟨p, k', hp | hp, rfl⟩
        · obtain ⟨rfl, rfl⟩ := Prod.mk.inj hp
          exact absurd rfl ha
        · exact ⟨p, k', hp, rfl⟩
  · rcases hp with hp | hp
    · obtain ⟨rfl, rfl⟩ := Prod.mk.inj hp
      rw [update_self] at hlive
      obtain rfl : n = n' := by simpa using hlive
      exact hroom
    · rw [update_of_ne fun heq => hfresh _ hp (haddr heq)] at hlive
      exact h.room p k' n' hp hlive

lemma notMem (h : Tracks addr hdr E live) (hnone : ∀ a, live a = none) (x : ℕ × ℕ) : x ∉ E := by
  intro hx
  have hlive := (h.live_iff (addr x.1)).mpr ⟨x.1, x.2, hx, rfl⟩
  simp [hnone] at hlive

end Tracks

end LiveBlocks
