import Mathlib.Data.List.Basic
import Mathlib.Tactic

/-!
# Words between separators

`words sep l` are the non-empty pieces of `l` between separators, and `join sep ws` puts a separator in
front of every word.
-/

namespace Words

open List

variable {α : Type*} {sep : α} {w l : List α} {ws : List (List α)}

/-- The words with a separator in front of each. -/
def join (sep : α) (ws : List (List α)) : List α := ws.flatMap (sep :: ·)

@[simp] lemma join_nil : join sep [] = [] := rfl

lemma join_cons : join sep (w :: ws) = sep :: w ++ join sep ws := rfl

variable [DecidableEq α]

/-- The non-empty pieces between separators. -/
def words (sep : α) (l : List α) : List (List α) := (l.splitOn sep).filter (· ≠ [])

lemma words_append (hsep : sep ∉ w) (hw : w ≠ []) :
    words sep (w ++ sep :: l) = w :: words sep l := by
  rw [words, splitOn_append_cons_self_of_not_mem hsep, filter_cons_of_pos (by simpa using hw)]
  rfl

@[simp] lemma words_cons_sep : words sep (sep :: l) = words sep l := by
  have hsplit : (sep :: l).splitOn sep = [] :: l.splitOn sep :=
    splitOn_append_cons_self_of_not_mem not_mem_nil l
  rw [words, hsplit, filter_cons_of_neg (by simp)]
  rfl

lemma words_of_not_mem (hsep : sep ∉ w) (hw : w ≠ []) : words sep w = [w] := by
  rw [words, splitOn_eq_singleton hsep, filter_cons_of_pos (by simpa using hw)]
  rfl

lemma words_dropWhile : words sep (l.dropWhile (· = sep)) = words sep l := by
  induction l with
  | nil => rfl
  | cons a l ih =>
    by_cases ha : a = sep
    · subst ha
      rw [dropWhile_cons_of_pos (by simp), ih, words_cons_sep]
    · rw [dropWhile_cons_of_neg (by simpa using ha)]

lemma words_join (hws : ∀ w ∈ ws, w ≠ [] ∧ sep ∉ w) : words sep (join sep ws) = ws := by
  induction ws with
  | nil => rfl
  | cons w ws ih =>
    obtain ⟨⟨hw, hsep⟩, hrest⟩ := forall_mem_cons.mp hws
    rw [join_cons, cons_append, words_cons_sep]
    cases ws with
    | nil => rw [join_nil, append_nil, words_of_not_mem hsep hw]
    | cons w' ws =>
      rw [join_cons, cons_append, words_append hsep hw]
      have hjoin := ih hrest
      rw [join_cons, cons_append, words_cons_sep] at hjoin
      rw [hjoin]

/-- The text is a word and a rest that is empty or begins with a separator. -/
lemma exists_word (sep : α) (l : List α) :
    ∃ w t, l = w ++ t ∧ sep ∉ w ∧ (t = [] ∨ ∃ t', t = sep :: t') := by
  induction l with
  | nil => exact ⟨[], [], rfl, not_mem_nil, .inl rfl⟩
  | cons a l ih =>
    by_cases ha : a = sep
    · exact ⟨[], a :: l, rfl, not_mem_nil, .inr ⟨l, by rw [ha]⟩⟩
    · obtain ⟨w, t, rfl, hw, ht⟩ := ih
      refine ⟨a :: w, t, rfl, ?_, ht⟩
      rintro (_ | ⟨_, hmem⟩)
      · exact ha rfl
      · exact hw hmem

lemma of_mem_words (hw : w ∈ words sep l) : w ≠ [] ∧ sep ∉ w := by
  induction hlen : l.length using Nat.strong_induction_on generalizing l with
  | _ n ih =>
    obtain ⟨v, t, rfl, hv, ht⟩ := exists_word sep l
    by_cases hne : v = []
    · subst hne
      rcases ht with rfl | ⟨t', rfl⟩
      · exact absurd hw not_mem_nil
      · rw [nil_append, words_cons_sep] at hw
        exact ih t'.length (by simp [← hlen]) hw rfl
    · rcases ht with rfl | ⟨t', rfl⟩
      · rw [append_nil, words_of_not_mem hv hne, mem_singleton] at hw
        exact hw ▸ ⟨hne, hv⟩
      · rw [words_append hv hne, mem_cons] at hw
        rcases hw with rfl | hw
        · exact ⟨hne, hv⟩
        · exact ih t'.length (by simp [← hlen]; omega) hw rfl

end Words
