import Mathlib.Tactic

/-!
# Rotated lists

A list is `Rotated r` if it consists of two parts that are ordered by `r` when they are exchanged. Such
lists arise in a ring: the order is by position, and the list starts somewhere in the ring and goes on
at its beginning.
-/

namespace Rotation

open List

variable {α : Type*} {r : α → α → Prop} {l : List α} {a : α}

def Rotated (r : α → α → Prop) (l : List α) : Prop :=
  ∃ l₁ l₂, l = l₁ ++ l₂ ∧ (l₂ ++ l₁).Pairwise r

lemma rotated_of_pairwise (h : l.Pairwise r) : Rotated r l :=
  ⟨l, [], (append_nil l).symm, h⟩

/-- A rotated list is ordered, or it has two parts that are not empty. -/
lemma Rotated.cases (h : Rotated r l) : l.Pairwise r ∨
    ∃ l₁ l₂, l₁ ≠ [] ∧ l₂ ≠ [] ∧ l = l₁ ++ l₂ ∧ (l₂ ++ l₁).Pairwise r := by
  obtain ⟨l₁, l₂, rfl, hpair⟩ := h
  rcases eq_or_ne l₁ [] with rfl | hne₁
  · exact .inl (by simpa using hpair)
  rcases eq_or_ne l₂ [] with rfl | hne₂
  · exact .inl (by simpa using hpair)
  · exact .inr ⟨l₁, l₂, hne₁, hne₂, rfl, hpair⟩

lemma Rotated.erase [DecidableEq α] (h : Rotated r l) (a : α) : Rotated r (l.erase a) := by
  obtain ⟨l₁, l₂, rfl, hpair⟩ := h
  rw [erase_append]
  split
  · exact ⟨l₁.erase a, l₂, rfl, hpair.sublist ((List.Sublist.refl l₂).append erase_sublist)⟩
  · exact ⟨l₁, l₂.erase a, rfl, hpair.sublist (erase_sublist.append (List.Sublist.refl l₁))⟩

/-- The order depends on the elements of the list only. -/
lemma Rotated.imp {r' : α → α → Prop} (h : Rotated r l)
    (himp : ∀ a ∈ l, ∀ b ∈ l, r a b → r' a b) : Rotated r' l := by
  obtain ⟨l₁, l₂, rfl, hpair⟩ := h
  refine ⟨l₁, l₂, rfl, List.Pairwise.imp_of_mem (fun {a b} ha hb hab => ?_) hpair⟩
  have hmem : ∀ {x}, x ∈ l₂ ++ l₁ → x ∈ l₁ ++ l₂ := by
    intro x hx
    exact (perm_append_comm.mem_iff).mp hx
  exact himp a (hmem ha) b (hmem hb) hab

/-- Two different elements are ordered one way or the other. -/
lemma Rotated.rel_or_rel (h : Rotated r l) {b : α} (ha : a ∈ l) (hb : b ∈ l) (hab : a ≠ b) :
    r a b ∨ r b a := by
  obtain ⟨l₁, l₂, rfl, hpair⟩ := h
  have hor : (l₂ ++ l₁).Pairwise fun a b => r a b ∨ r b a := hpair.imp .inl
  have hsymm : Std.Symm fun a b => r a b ∨ r b a := ⟨fun _ _ => Or.symm⟩
  rw [perm_append_comm.mem_iff] at ha hb
  exact hor.forall ha hb hab

end Rotation
