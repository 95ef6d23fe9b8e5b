import Mathlib.Data.List.Basic
import Mathlib.Data.List.TakeWhile
import Mathlib.Tactic

/-!
# Insertion into sorted lists

`insertBy p x l` puts `x` behind the longest initial part of `l` whose elements satisfy `p`. In a
list that is sorted by a relation under which `p` is closed downwards, this part is all elements
with `p` (`takeWhile_eq_filter`). Then insertion keeps the order and respects sublists.
-/

variable {α : Type*} {r : α → α → Prop} {p : α → Bool} {x a : α} {l l' : List α}

namespace SortedInsert

open List

/-- If an element satisfies `p`, so do the elements sorted before it. -/
def DownClosed (r : α → α → Prop) (p : α → Bool) (l : List α) : Prop :=
  ∀ a ∈ l, ∀ b ∈ l, r a b → p b = true → p a = true

lemma DownClosed.mono (h : DownClosed r p l) (hsub : l' ⊆ l) : DownClosed r p l' :=
  fun a ha b hb => h a (hsub ha) b (hsub hb)

/-- If the first element of a sorted list does not satisfy `p`, none does. -/
lemma not_of_head (hs : (a :: l).Pairwise r) (hp : DownClosed r p (a :: l)) (ha : p a = false) :
    ∀ b ∈ l, p b = false := by
  intro b hb
  have hab : r a b := (pairwise_cons.mp hs).1 b hb
  by_contra hpb
  have := hp a (by simp) b (by simp [hb]) hab (by simpa using hpb)
  simp [ha] at this

lemma takeWhile_eq_filter (hs : l.Pairwise r) (hp : DownClosed r p l) :
    l.takeWhile p = l.filter p := by
  induction l with
  | nil => rfl
  | cons a l ih =>
    cases ha : p a with
    | true =>
      have ih' := ih (pairwise_cons.mp hs).2 (hp.mono (subset_cons_self a l))
      rw [takeWhile_cons_of_pos ha, filter_cons_of_pos ha, ih']
    | false =>
      have hnone := not_of_head hs hp ha
      rw [takeWhile_cons_of_neg (by simp [ha]), filter_cons_of_neg (by simp [ha])]
      exact (filter_eq_nil_iff.mpr fun b hb => by simp [hnone b hb]).symm

lemma dropWhile_eq_filter (hs : l.Pairwise r) (hp : DownClosed r p l) :
    l.dropWhile p = l.filter (fun a => !p a) := by
  induction l with
  | nil => rfl
  | cons a l ih =>
    cases ha : p a with
    | true =>
      have ih' := ih (pairwise_cons.mp hs).2 (hp.mono (subset_cons_self a l))
      rw [dropWhile_cons_of_pos ha, filter_cons_of_neg (by simp [ha]), ih']
    | false =>
      have hnone := not_of_head hs hp ha
      rw [dropWhile_cons_of_neg (by simp [ha]), filter_cons_of_pos (by simp [ha])]
      congr 1
      exact (filter_eq_self.mpr fun b hb => by simp [hnone b hb]).symm

/-- Insert `x` behind the initial elements that satisfy `p`. -/
def insertBy (p : α → Bool) (x : α) (l : List α) : List α := l.takeWhile p ++ x :: l.dropWhile p

lemma mem_insertBy : a ∈ insertBy p x l ↔ a = x ∨ a ∈ l := by
  unfold insertBy
  conv_rhs => rw [← takeWhile_append_dropWhile (p := p) (l := l)]
  simp only [mem_append, mem_cons]
  tauto

lemma sublist_insertBy : l.Sublist (insertBy p x l) := by
  unfold insertBy
  conv_lhs => rw [← takeWhile_append_dropWhile (p := p) (l := l)]
  exact (List.Sublist.refl _).append (sublist_cons_self x _)

lemma insertBy_sublist (hsub : l.Sublist l') (hs : l'.Pairwise r) (hp : DownClosed r p l') :
    (insertBy p x l).Sublist (insertBy p x l') := by
  have hs' := hs.sublist hsub
  have hp' : DownClosed r p l := hp.mono hsub.subset
  unfold insertBy
  rw [takeWhile_eq_filter hs hp, dropWhile_eq_filter hs hp, takeWhile_eq_filter hs' hp',
    dropWhile_eq_filter hs' hp']
  exact (hsub.filter _).append ((hsub.filter _).cons_cons x)

lemma pairwise_insertBy (hs : l.Pairwise r) (hp : DownClosed r p l)
    (hbefore : ∀ a ∈ l, p a = true → r a x) (hafter : ∀ a ∈ l, p a = false → r x a) :
    (insertBy p x l).Pairwise r := by
  have hcut : (l.takeWhile p ++ l.dropWhile p).Pairwise r := by
    rwa [takeWhile_append_dropWhile]
  obtain ⟨htake, hdrop, hcross⟩ := pairwise_append.mp hcut
  unfold insertBy
  refine pairwise_append.mpr ⟨htake, pairwise_cons.mpr ⟨fun b hb => ?_, hdrop⟩, fun a ha b hb => ?_⟩
  · rw [dropWhile_eq_filter hs hp, mem_filter] at hb
    exact hafter b hb.1 (by simpa using hb.2)
  · rcases mem_cons.mp hb with rfl | hb
    · rw [takeWhile_eq_filter hs hp, mem_filter] at ha
      exact hbefore a ha.1 ha.2
    · exact hcross a ha b hb

end SortedInsert
