import Mathlib.Data.List.Basic
import Mathlib.Tactic

/-!
# Longest common prefixes

The longest common prefix of two lists and of all lists of a collection.
-/

namespace CommonPrefix

open List

variable {α : Type*} [DecidableEq α] {p s t : List α} {k : ℕ}

def common : List α → List α → List α
  | a :: s, b :: t => if a = b then a :: common s t else []
  | _, _ => []

/-- The longest common prefix of a list and all further lists. -/
def commonAll (s : List α) (ts : List (List α)) : List α := ts.foldl common s

@[simp] lemma common_nil_left (t : List α) : common [] t = [] := by
  cases t <;> rfl

@[simp] lemma common_nil_right (s : List α) : common s [] = [] := by
  cases s <;> rfl

lemma isPrefix_common_iff : p <+: common s t ↔ p <+: s ∧ p <+: t := by
  induction p generalizing s t with
  | nil => simp
  | cons a p ih =>
    cases s with
    | nil => simp
    | cons b s =>
      cases t with
      | nil => simp
      | cons c t =>
        rw [common, cons_prefix_cons, cons_prefix_cons]
        split
        case isTrue hbc =>
          subst hbc
          rw [cons_prefix_cons, ih]
          tauto
        case isFalse hbc =>
          simp only [prefix_nil, reduceCtorEq, false_iff]
          rintro ⟨⟨rfl, -⟩, rfl, -⟩
          exact hbc rfl

lemma isPrefix_commonAll_iff {ts : List (List α)} :
    p <+: commonAll s ts ↔ p <+: s ∧ ∀ t ∈ ts, p <+: t := by
  induction ts generalizing s with
  | nil => simp [commonAll]
  | cons t ts ih =>
    change p <+: commonAll (common s t) ts ↔ _
    rw [ih, isPrefix_common_iff, forall_mem_cons, and_assoc]

lemma common_take : common (s.take k) t = s.take (min k (common s t).length) := by
  induction k generalizing s t with
  | zero => simp
  | succ k ih =>
    cases s with
    | nil => simp
    | cons a s =>
      cases t with
      | nil => simp
      | cons b t =>
        rw [take_succ_cons, common, common]
        split
        case isTrue => rw [ih, length_cons, Nat.succ_min_succ, take_succ_cons]
        case isFalse => simp

end CommonPrefix
