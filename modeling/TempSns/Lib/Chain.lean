import Mathlib.Tactic

/-!
# Singly linked chains

`Chain next p l`: the nodes that are reached from the pointer `p` by the links `next` are `l`, and the
last one of them has no successor. A pointer is `none` for null. The rules say which list a chain
holds after a node was taken from its front, put to its front or put behind its last node.

A walk along a chain that edits it keeps a pointer to a slot: the head of the chain or the link of a
node. `Chain.slot` and `Chain.setSlot` say what a slot behind an initial part of the list holds, and
what the chain is after a store into it.
-/

namespace SinglyLinked

open List Function

variable {ι : Type*} {next next' : ι → Option ι} {p : Option ι} {l l' : List ι} {a b : ι}

def Chain (next : ι → Option ι) : Option ι → List ι → Prop
  | p, [] => p = none
  | p, a :: l => p = some a ∧ Chain next (next a) l

lemma Chain.head (h : Chain next p l) : p = l.head? := by
  cases l with
  | nil => exact h
  | cons a l => exact h.1

lemma Chain.of_some (h : Chain next (some a) l) : ∃ l', l = a :: l' ∧ Chain next (next a) l' := by
  cases l with
  | nil => cases h
  | cons b l' =>
    obtain rfl := Option.some.inj h.1
    exact ⟨l', rfl, h.2⟩

lemma Chain.congr (h : Chain next p l) (heq : ∀ x ∈ l, next' x = next x) : Chain next' p l := by
  induction l generalizing p with
  | nil => exact h
  | cons a l ih =>
    refine ⟨h.1, ?_⟩
    rw [heq a mem_cons_self]
    exact ih h.2 fun x hx => heq x (mem_cons_of_mem a hx)

/-- Numbered nodes, each linked to the next one. -/
lemma chain_range' {f : ℕ → ι} {i n : ℕ}
    (hnext : ∀ j, i ≤ j → j < i + n → next (f j) = some (f (j + 1)))
    (hlast : next (f (i + n)) = none) :
    Chain next (some (f i)) ((range' i (n + 1)).map f) := by
  induction n generalizing i with
  | zero => exact ⟨rfl, hlast⟩
  | succ n ih =>
    rw [range'_succ, map_cons]
    refine ⟨rfl, ?_⟩
    rw [hnext i le_rfl (by omega)]
    refine ih (fun j hlo hhi => hnext j (by omega) (by omega)) ?_
    rw [show i + 1 + n = i + (n + 1) by omega]
    exact hlast

variable [DecidableEq ι]

lemma Chain.update (h : Chain next p l) (ha : a ∉ l) (x : Option ι) :
    Chain (update next a x) p l := by
  refine h.congr fun y hy => update_of_ne ?_ _ _
  rintro rfl
  exact ha hy

lemma Chain.push (h : Chain next p l) (ha : a ∉ l) :
    Chain (Function.update next a p) (some a) (a :: l) := by
  refine ⟨rfl, ?_⟩
  rw [update_self]
  exact h.update ha p

/-- A node without a successor is put behind the last node. -/
lemma Chain.concat (h : Chain next p (l ++ [a])) (hnodup : (l ++ [a]).Nodup) (hb : b ∉ l ++ [a])
    (hlast : next b = none) :
    Chain (Function.update next a (some b)) p (l ++ [a] ++ [b]) := by
  induction l generalizing p with
  | nil =>
    have hba : b ≠ a := by simpa using hb
    refine ⟨h.1, ?_, ?_⟩
    · rw [update_self]
    · rw [update_of_ne hba]
      exact hlast
  | cons c l ih =>
    obtain ⟨hc, hnodup⟩ := nodup_cons.mp hnodup
    have hca : c ≠ a := by
      rintro rfl
      exact hc (by simp)
    refine ⟨h.1, ?_⟩
    rw [update_of_ne hca]
    exact ih h.2 hnodup fun hmem => hb (mem_cons_of_mem c hmem)

/-! ## Slots -/

omit [DecidableEq ι] in
/-- The pointer in a slot: the head of the chain for `none`, else the link of a node. -/
def slot (next : ι → Option ι) (p : Option ι) : Option ι → Option ι
  | none => p
  | some a => next a

omit [DecidableEq ι] in
/-- The slot behind the first nodes holds the rest of the chain. -/
lemma Chain.slot {xs ys : List ι} (h : Chain next p (xs ++ ys)) :
    Chain next (slot next p xs.getLast?) ys := by
  induction xs generalizing p with
  | nil => exact h
  | cons a xs ih =>
    have hrest := ih h.2
    cases xs with
    | nil => exact hrest
    | cons b xs => rwa [getLast?_cons_cons]

/-- The links after a store into a slot. -/
def setLink (next : ι → Option ι) (q : Option ι) : Option ι → ι → Option ι
  | none => next
  | some a => update next a q

omit [DecidableEq ι] in
/-- The head of the chain after a store into a slot. -/
def setHead (p q : Option ι) : Option ι → Option ι
  | none => q
  | some _ => p

/-- A store into the slot behind the first nodes replaces the rest of the chain. -/
lemma Chain.setSlot {xs ys zs : List ι} {q : Option ι} (h : Chain next p (xs ++ ys))
    (hnodup : xs.Nodup) (hq : Chain next q zs) (hdisj : ∀ x ∈ xs, x ∉ zs) :
    Chain (setLink next q xs.getLast?) (setHead p q xs.getLast?) (xs ++ zs) := by
  induction xs generalizing p with
  | nil => exact hq
  | cons a xs ih =>
    obtain ⟨ha, hnodup⟩ := List.nodup_cons.mp hnodup
    cases xs with
    | nil =>
      refine ⟨h.1, ?_⟩
      change Chain (Function.update next a q) (Function.update next a q a) zs
      rw [Function.update_self]
      exact hq.update (hdisj a List.mem_cons_self) q
    | cons b xs =>
      have hrest := ih h.2 hnodup fun x hx => hdisj x (List.mem_cons_of_mem a hx)
      rw [List.getLast?_cons_cons]
      obtain ⟨c, hc⟩ : ∃ c, (b :: xs).getLast? = some c := ⟨_, List.getLast?_eq_some_getLast (by simp)⟩
      have hca : a ≠ c := by
        rintro rfl
        exact ha (List.mem_of_getLast? hc)
      rw [hc] at hrest ⊢
      refine ⟨h.1, ?_⟩
      change Chain (Function.update next c q) (Function.update next c q a) _
      rw [Function.update_of_ne hca]
      exact hrest

end SinglyLinked
