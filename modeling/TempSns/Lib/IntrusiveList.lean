import Mathlib.Data.List.Basic
import Mathlib.Logic.Function.Basic
import Mathlib.Tactic

/-!
# Circular doubly linked lists

Intrusive lists: every node carries a `next` and a `prev` pointer, a list is a head node whose
pointers lead around a ring, and a node that is in no list points to itself.

* `Links` is the state of all pointers, with the usual operations `insertAfter`, `insertBefore`,
  `remove` and `isEmpty` as pointer assignments.
* `Ring l h xs`: from `h` the nodes `xs` follow in this order, and back to `h`. A ring can be read
  from each of its nodes (`Ring.rotate`), so each operation is analysed at the head only.
* `Represents l lists`: the pointers of a family of lists that share no items. The operations on
  pointers are the operations on lists.
-/

/-- The pointers of all nodes. -/
@[ext]
structure Links (N : Type*) where
  next : N → N
  prev : N → N

namespace Links

open Function List

variable {N : Type*} [DecidableEq N] {l l' : Links N} {a b h n u x : N} {xs ys : List N}

/-- `n->next = v`. -/
def setNext (l : Links N) (n v : N) : Links N := { l with next := update l.next n v }

/-- `n->prev = v`. -/
def setPrev (l : Links N) (n v : N) : Links N := { l with prev := update l.prev n v }

def insertAfter (l : Links N) (a n : N) : Links N :=
  let l := l.setPrev (l.next a) n
  let l := l.setNext n (l.next a)
  let l := l.setNext a n
  l.setPrev n a

def insertBefore (l : Links N) (a n : N) : Links N :=
  let l := l.setNext (l.prev a) n
  let l := l.setPrev n (l.prev a)
  let l := l.setPrev a n
  l.setNext n a

/-- Take the node `n` out of its list. -/
def remove (l : Links N) (n : N) : Links N :=
  let l := l.setPrev (l.next n) (l.prev n)
  let l := l.setNext (l.prev n) (l.next n)
  (l.setPrev n n).setNext n n

/-- Insert the node `n` after `a`, with the pointers of `n` first. -/
def linkAfter (l : Links N) (a n : N) : Links N :=
  let l := l.setPrev n a
  let l := l.setNext n (l.next a)
  let l := l.setPrev (l.next a) n
  l.setNext a n

/-- Take the node `n` out of its list and leave its own pointers as they are. -/
def unlink (l : Links N) (n : N) : Links N :=
  let l := l.setPrev (l.next n) (l.prev n)
  l.setNext (l.prev n) (l.next n)

/-- The list at `a` has no nodes. -/
def isEmpty (l : Links N) (a : N) : Prop := l.next a = a

instance (l : Links N) (a : N) : Decidable (l.isEmpty a) := inferInstanceAs (Decidable (_ = _))

/-! ## Paths -/

/-- From `a` the nodes `xs` follow, and then `b`, linked both ways. -/
def Path (l : Links N) : N → List N → N → Prop
  | a, [], b => l.next a = b ∧ l.prev b = a
  | a, x :: xs, b => (l.next a = x ∧ l.prev x = a) ∧ Path l x xs b

instance Path.decidable (l : Links N) : ∀ a xs b, Decidable (Path l a xs b)
  | _, [], _ => inferInstanceAs (Decidable (_ ∧ _))
  | _, x :: xs, b => @instDecidableAnd _ _ inferInstance (Path.decidable l x xs b)

omit [DecidableEq N] in
lemma path_append : Path l a (xs ++ u :: ys) b ↔ Path l a xs u ∧ Path l u ys b := by
  induction xs generalizing a with
  | nil => rfl
  | cons x xs ih => simp only [cons_append, Path, ih, and_assoc]

omit [DecidableEq N] in
/-- A path reads `next` of its sources and `prev` of its targets. -/
lemma Path.congr (p : Path l a xs b) (hnext : ∀ x ∈ a :: xs, l'.next x = l.next x)
    (hprev : ∀ x ∈ xs ++ [b], l'.prev x = l.prev x) : Path l' a xs b := by
  induction xs generalizing a with
  | nil =>
    exact ⟨(hnext a (by simp)).trans p.1, (hprev b (by simp)).trans p.2⟩
  | cons x xs ih =>
    refine ⟨⟨(hnext a (by simp)).trans p.1.1, (hprev x (by simp)).trans p.1.2⟩, ?_⟩
    exact ih p.2 (fun y hy => hnext y (mem_cons_of_mem a hy))
      (fun y hy => hprev y (mem_cons_of_mem x hy))

/-! ## Rings -/

/-- From `h` the nodes `xs` follow, and then `h` again; no node occurs twice. -/
structure Ring (l : Links N) (h : N) (xs : List N) : Prop where
  path : Path l h xs h
  nodup : (h :: xs).Nodup

instance (l : Links N) (h : N) (xs : List N) : Decidable (Ring l h xs) :=
  decidable_of_iff (Path l h xs h ∧ (h :: xs).Nodup) ⟨fun r => ⟨r.1, r.2⟩, fun r => ⟨r.1, r.2⟩⟩

section

omit [DecidableEq N]

/-- A ring can be read from any of its nodes. -/
lemma Ring.rotate (r : Ring l h (xs ++ u :: ys)) : Ring l u (ys ++ h :: xs) := by
  obtain ⟨hxs, hys⟩ := path_append.mp r.path
  refine ⟨path_append.mpr ⟨hys, hxs⟩, ?_⟩
  have hperm : ((u :: ys) ++ (h :: xs)).Perm ((h :: xs) ++ (u :: ys)) := perm_append_comm
  exact hperm.nodup_iff.mpr r.nodup

lemma Ring.congr (r : Ring l h xs) (hag : ∀ x ∈ h :: xs, l'.next x = l.next x ∧
    l'.prev x = l.prev x) : Ring l' h xs := by
  refine ⟨r.path.congr (fun x hx => (hag x hx).1) (fun x hx => (hag x ?_).2), r.nodup⟩
  simpa [or_comm] using hx

lemma ring_nil : Ring l h [] ↔ l.next h = h ∧ l.prev h = h :=
  ⟨fun r => r.path, fun hself => ⟨hself, by simp⟩⟩

lemma Ring.isEmpty_iff (r : Ring l h xs) : l.isEmpty h ↔ xs = [] := by
  cases xs with
  | nil => exact ⟨fun _ => rfl, fun _ => r.path.1⟩
  | cons x xs =>
    have hne : x ≠ h := fun heq => by simpa [heq] using r.nodup
    simp [Links.isEmpty, r.path.1.1, hne]

/-- A path that does not pass its end is determined by its ends. -/
lemma Path.unique (p : Path l a xs b) (q : Path l a ys b) (hx : b ∉ xs) (hy : b ∉ ys) :
    xs = ys := by
  induction xs generalizing a ys with
  | nil =>
    cases ys with
    | nil => rfl
    | cons y ys => exact absurd (q.1.1.symm.trans p.1) (by rintro rfl; simp at hy)
  | cons x xs ih =>
    cases ys with
    | nil => exact absurd (p.1.1.symm.trans q.1) (by rintro rfl; simp at hx)
    | cons y ys =>
      obtain rfl : x = y := p.1.1.symm.trans q.1.1
      rw [ih p.2 q.2 (by simp_all) (by simp_all)]

lemma Ring.unique (r : Ring l h xs) (r' : Ring l h ys) : xs = ys :=
  r.path.unique r'.path (nodup_cons.mp r.nodup).1 (nodup_cons.mp r'.nodup).1

lemma Ring.next_mem (r : Ring l h xs) : l.next h ∈ h :: xs := by
  cases xs with
  | nil => simp [r.path.1]
  | cons x xs => simp [r.path.1.1]

lemma Ring.prev_mem (r : Ring l h xs) : l.prev h ∈ h :: xs := by
  rcases eq_nil_or_concat' xs with rfl | ⟨xs, x, rfl⟩
  · simp [r.path.2]
  · have hlast := (path_append.mp r.path).2
    simp [hlast.2]

/-- The neighbours of every node of a ring are in it. -/
lemma Ring.links_mem (r : Ring l h xs) (hx : x ∈ h :: xs) :
    l.next x ∈ h :: xs ∧ l.prev x ∈ h :: xs := by
  rcases mem_cons.mp hx with rfl | hx
  · exact ⟨r.next_mem, r.prev_mem⟩
  · obtain ⟨ys, zs, rfl⟩ := append_of_mem hx
    have hmem : ∀ {y}, y ∈ x :: (zs ++ h :: ys) → y ∈ h :: (ys ++ x :: zs) := by
      intro y hy
      simp only [mem_cons, mem_append] at hy ⊢
      tauto
    exact ⟨hmem r.rotate.next_mem, hmem r.rotate.prev_mem⟩

end

/-! ## Operations as assignments -/

lemma insertAfter_next : (l.insertAfter a n).next = update (update l.next n (l.next a)) a n := rfl

lemma insertAfter_prev : (l.insertAfter a n).prev = update (update l.prev (l.next a) n) n a := rfl

lemma remove_next : (l.remove n).next = update (update l.next (l.prev n) (l.next n)) n n := by
  simp only [remove, setNext, setPrev]
  by_cases hself : n = l.next n
  · simp [← hself]
  · rw [update_of_ne hself]

lemma remove_prev : (l.remove n).prev = update (update l.prev (l.next n) (l.prev n)) n n := rfl

lemma linkAfter_eq (hna : n ≠ a) (hnext : l.next a ≠ n) : l.linkAfter a n = l.insertAfter a n := by
  have han : a ≠ n := hna.symm
  ext x
  · simp only [linkAfter, insertAfter, setNext, setPrev, update_of_ne han]
  · simp only [linkAfter, insertAfter, setNext, setPrev, update_of_ne han]
    rw [update_comm hnext]

/-- `unlink` and `remove` differ at the node itself only. -/
lemma unlink_off (hxn : x ≠ n) :
    (l.unlink n).next x = (l.remove n).next x ∧ (l.unlink n).prev x = (l.remove n).prev x := by
  simp only [remove, unlink, setNext, setPrev, update_of_ne hxn, and_self]

lemma unlink_neighbours_off (hxa : x ≠ l.next n) (hxb : x ≠ l.prev n) :
    (l.unlink n).next x = l.next x ∧ (l.unlink n).prev x = l.prev x := by
  have hprev : (l.setPrev (l.next n) (l.prev n)).prev n = l.prev n := by
    by_cases hself : n = l.next n
    · rw [setPrev, ← hself]
      exact update_self _ _ _
    · exact update_of_ne hself _ _
  simp only [unlink, hprev]
  exact ⟨update_of_ne hxb _ _, update_of_ne hxa _ _⟩

/-- `linkAfter` writes to the two nodes it links and to the old successor. -/
lemma linkAfter_off (hxa : x ≠ a) (hxn : x ≠ n) (hxb : x ≠ l.next a) :
    (l.linkAfter a n).next x = l.next x ∧ (l.linkAfter a n).prev x = l.prev x := by
  have hnext : (update l.next n (l.next a)) a = l.next a := by
    by_cases hself : a = n
    · rw [hself]
      exact update_self _ _ _
    · exact update_of_ne hself _ _
  simp only [linkAfter, setNext, setPrev, hnext]
  simp [update_of_ne, hxa, hxn, hxb]

/-- `insertAfter` writes to the two nodes it links and to the old successor. -/
lemma insertAfter_off (hxa : x ≠ a) (hxn : x ≠ n) (hxb : x ≠ l.next a) :
    (l.insertAfter a n).next x = l.next x ∧ (l.insertAfter a n).prev x = l.prev x := by
  simp [insertAfter_next, insertAfter_prev, update_of_ne, hxa, hxn, hxb]

/-- `remove` writes to the node and to its two neighbours. -/
lemma remove_off (hxn : x ≠ n) (hxa : x ≠ l.next n) (hxb : x ≠ l.prev n) :
    (l.remove n).next x = l.next x ∧ (l.remove n).prev x = l.prev x := by
  simp [remove_next, remove_prev, update_of_ne, hxn, hxa, hxb]

lemma insertBefore_off (hxa : x ≠ a) (hxn : x ≠ n) (hxb : x ≠ l.prev a) :
    (l.insertBefore a n).next x = l.next x ∧ (l.insertBefore a n).prev x = l.prev x := by
  simp [insertBefore, setNext, setPrev, update_of_ne, hxa, hxn, hxb]

/-! ## Reading backwards -/

/-- The same pointers with the directions exchanged. -/
def swap (l : Links N) : Links N := ⟨l.prev, l.next⟩

/-- Inserting before a node is inserting after it, read backwards. -/
lemma insertBefore_eq_swap : l.insertBefore a n = (l.swap.insertAfter a n).swap := rfl

omit [DecidableEq N] in
lemma Path.swap (p : Path l a xs b) : Path l.swap b xs.reverse a := by
  induction xs generalizing a with
  | nil => exact ⟨p.2, p.1⟩
  | cons x xs ih =>
    rw [reverse_cons]
    exact path_append.mpr ⟨ih p.2, p.1.2, p.1.1⟩

omit [DecidableEq N] in
lemma Ring.swap (r : Ring l h xs) : Ring l.swap h xs.reverse :=
  ⟨r.path.swap, by simpa using r.nodup⟩

/-! ## Operations at the head of a ring -/

lemma Ring.insertAfter (r : Ring l h xs) (hn : n ∉ h :: xs) :
    Ring (l.insertAfter h n) h (n :: xs) := by
  have hnd := r.nodup
  refine ⟨?_, by grind⟩
  cases xs with
  | nil =>
    obtain ⟨hnext, hprev⟩ := r.path
    simp only [Path, insertAfter_next, insertAfter_prev, update_apply]
    grind
  | cons x xs =>
    obtain ⟨⟨hnext, hprev⟩, hrest⟩ := r.path
    refine ⟨?_, ?_, hrest.congr (fun y hy => ?_) (fun y hy => ?_)⟩ <;>
      simp only [insertAfter_next, insertAfter_prev, update_apply, hnext] <;> grind

lemma Ring.insertBefore (r : Ring l h xs) (hn : n ∉ h :: xs) :
    Ring (l.insertBefore h n) h (xs ++ [n]) := by
  have hswap := (r.swap.insertAfter (n := n) (by simpa using hn)).swap
  rw [insertBefore_eq_swap]
  simpa using hswap

/-- Taking out the node at which a ring is read leaves the ring of the other nodes. -/
lemma Ring.remove (r : Ring l n (x :: xs)) : Ring (l.remove n) x xs ∧ Ring (l.remove n) n [] := by
  have hnd := r.nodup
  obtain ⟨⟨hnext, hprev⟩, hrest⟩ := r.path
  refine ⟨⟨?_, by grind⟩, ring_nil.mpr ?_⟩
  · rcases eq_nil_or_concat' xs with rfl | ⟨ys, y, rfl⟩
    · obtain ⟨hnext', hprev'⟩ := hrest
      simp only [Path, remove_next, remove_prev, update_apply]
      grind
    · obtain ⟨hys, hlast⟩ := path_append.mp hrest
      refine path_append.mpr ⟨hys.congr (fun z hz => ?_) (fun z hz => ?_), ?_⟩ <;>
        simp only [Path, remove_next, remove_prev, update_apply, hlast.1, hlast.2, hnext] <;>
        grind
  · simp [remove_next, remove_prev]

/-! ## Operations inside a ring -/

lemma Ring.insertAfter_mem (r : Ring l h (xs ++ u :: ys)) (hn : n ∉ h :: (xs ++ u :: ys)) :
    Ring (l.insertAfter u n) h (xs ++ u :: n :: ys) := by
  have hins := r.rotate.insertAfter (n := n) (by simp at hn ⊢; tauto)
  rw [← cons_append] at hins
  exact hins.rotate

lemma Ring.remove_mem (r : Ring l h (xs ++ n :: ys)) :
    Ring (l.remove n) h (xs ++ ys) ∧ Ring (l.remove n) n [] := by
  have hrot := r.rotate
  cases ys with
  | nil => simpa using Ring.remove hrot
  | cons y ys =>
    obtain ⟨hrest, hself⟩ := Ring.remove hrot
    exact ⟨hrest.rotate, hself⟩

lemma Ring.linkAfter_mem (r : Ring l h (xs ++ u :: ys)) (hn : n ∉ h :: (xs ++ u :: ys)) :
    Ring (l.linkAfter u n) h (xs ++ u :: n :: ys) := by
  have hnext : l.next u ∈ u :: (ys ++ h :: xs) := r.rotate.next_mem
  rw [linkAfter_eq (by rintro rfl; simp at hn)]
  · exact r.insertAfter_mem hn
  · rintro rfl
    refine hn ?_
    simp only [mem_cons, mem_append] at hnext ⊢
    tauto

lemma Ring.linkAfter (r : Ring l h xs) (hn : n ∉ h :: xs) :
    Ring (l.linkAfter h n) h (n :: xs) := by
  rw [linkAfter_eq (by rintro rfl; simp at hn)]
  · exact r.insertAfter hn
  · rintro rfl
    exact hn r.next_mem

lemma Ring.unlink_mem (r : Ring l h (xs ++ n :: ys)) : Ring (l.unlink n) h (xs ++ ys) := by
  refine r.remove_mem.1.congr fun x hx => unlink_off ?_
  rintro rfl
  have hnd := r.nodup
  simp only [nodup_cons, mem_append, mem_cons, nodup_append] at hnd hx
  grind

omit [DecidableEq N] in
lemma Ring.neighbours (r : Ring l h (xs ++ u :: ys)) :
    l.next u ∈ h :: (xs ++ u :: ys) ∧ l.prev u ∈ h :: (xs ++ u :: ys) := by
  have hmem : ∀ z, z ∈ u :: (ys ++ h :: xs) → z ∈ h :: (xs ++ u :: ys) := by
    intro z hz
    simp only [mem_cons, mem_append] at hz ⊢
    tauto
  exact ⟨hmem _ r.rotate.next_mem, hmem _ r.rotate.prev_mem⟩

/-! ## Families of lists -/

/-- The nodes of a family of lists: the heads and the items. -/
inductive Node (H T : Type*) where
  | head (h : H)
  | item (t : T)
  deriving DecidableEq

variable {H T : Type*} [DecidableEq H] [DecidableEq T] {k : Links (Node H T)}
  {lists : H → List T} {i j : H} {t w : T} {us vs ws : List T}

/-- The pointers `k` are those of the lists `lists`: each list is a ring, no item is in two lists,
and an item that is in no list points to itself. -/
structure Represents (k : Links (Node H T)) (lists : H → List T) : Prop where
  ring : ∀ i, Ring k (.head i) ((lists i).map .item)
  disjoint : ∀ i j t, t ∈ lists i → t ∈ lists j → i = j
  self : ∀ t, (∀ i, t ∉ lists i) → Ring k (.item t) []

namespace Represents

section

omit [DecidableEq H] [DecidableEq T]

lemma isEmpty_iff (r : Represents k lists) : k.isEmpty (.head i) ↔ lists i = [] := by
  rw [(r.ring i).isEmpty_iff, map_eq_nil_iff]

lemma next_head (r : Represents k lists) (hi : lists i = t :: ws) :
    k.next (.head i) = .item t := by
  have hring := r.ring i
  rw [hi] at hring
  exact hring.path.1.1

lemma prev_head (r : Represents k lists) (hi : lists i = us ++ [w]) :
    k.prev (.head i) = .item w := by
  have hring := r.ring i
  rw [hi, map_append, map_cons] at hring
  exact (path_append.mp hring.path).2.2

lemma next_item (r : Represents k lists) (hi : lists i = us ++ w :: t :: vs) :
    k.next (.item w) = .item t := by
  have hring := r.ring i
  rw [hi, map_append, map_cons] at hring
  exact (path_append.mp hring.path).2.1.1

lemma next_last (r : Represents k lists) (hi : lists i = us ++ [w]) :
    k.next (.item w) = .head i := by
  have hring := r.ring i
  rw [hi, map_append, map_cons] at hring
  exact (path_append.mp hring.path).2.1

lemma nodup (r : Represents k lists) (i : H) : (lists i).Nodup :=
  (nodup_cons.mp (r.ring i).nodup).2.of_map _

end

omit [DecidableEq T] in
lemma insert (r : Represents k lists) {k' : Links (Node H T)} (ht : ∀ j, t ∉ lists j)
    (hring : Ring k' (.head i) (us.map .item)) (hmem : ∀ w, w ∈ us ↔ w = t ∨ w ∈ lists i)
    (hoff : ∀ x, x ∉ Node.head i :: (lists i).map .item → x ≠ .item t →
      k'.next x = k.next x ∧ k'.prev x = k.prev x) :
    Represents k' (update lists i us) := by
  refine ⟨fun j => ?_, fun j j' w hj hj' => ?_, fun w hw => ?_⟩
  · by_cases hji : j = i
    · subst hji
      rwa [update_self]
    · rw [update_of_ne hji]
      refine (r.ring j).congr fun x hx => hoff x ?_ ?_
      · intro hxi
        rcases mem_cons.mp hx with rfl | hx
        · simp [hji] at hxi
        · obtain ⟨w, hw, rfl⟩ := mem_map.mp hx
          exact hji (r.disjoint _ _ w hw (by simpa using hxi))
      · rintro rfl
        exact ht j (by simpa using hx)
  · have hcase : ∀ j, w ∈ update lists i us j → (w = t ∧ j = i) ∨ w ∈ lists j := by
      intro j hj
      by_cases hji : j = i
      · subst hji
        rw [update_self, hmem] at hj
        exact hj.imp_left fun hwt => ⟨hwt, rfl⟩
      · rw [update_of_ne hji] at hj
        exact Or.inr hj
    rcases hcase j hj with ⟨rfl, rfl⟩ | hold <;> rcases hcase j' hj' with ⟨heq, rfl⟩ | hold'
    · rfl
    · exact absurd hold' (ht j')
    · exact absurd (heq ▸ hold) (ht j)
    · exact r.disjoint _ _ w hold hold'
  · have hnew : w ∉ us := by simpa using hw i
    have hwt : w ≠ t := fun heq => hnew ((hmem w).mpr (Or.inl heq))
    have hold : ∀ j, w ∉ lists j := fun j hj => by
      by_cases hji : j = i
      · exact hnew ((hmem w).mpr (Or.inr (hji ▸ hj)))
      · exact hw j (by rwa [update_of_ne hji])
    refine (r.self w hold).congr fun x hx => ?_
    obtain rfl : x = .item w := by simpa using hx
    exact hoff _ (by simpa using hold i) (by simpa using hwt)

lemma pushFront (r : Represents k lists) (ht : ∀ j, t ∉ lists j) :
    Represents (k.insertAfter (.head i) (.item t)) (update lists i (t :: lists i)) := by
  refine r.insert ht ((r.ring i).insertAfter (by simpa using ht i)) (by simp) fun x hx hxt => ?_
  refine insertAfter_off (fun heq => hx (by simp [heq])) hxt fun heq => hx ?_
  rw [heq]
  exact (r.ring i).next_mem

lemma pushBack (r : Represents k lists) (ht : ∀ j, t ∉ lists j) :
    Represents (k.insertBefore (.head i) (.item t)) (update lists i (lists i ++ [t])) := by
  refine r.insert ht ?_ (by simp [or_comm]) fun x hx hxt => ?_
  · simpa using (r.ring i).insertBefore (by simpa using ht i)
  · refine insertBefore_off (fun heq => hx (by simp [heq])) hxt fun heq => hx ?_
    rw [heq]
    exact (r.ring i).prev_mem

lemma insertAfterItem (r : Represents k lists) (ht : ∀ j, t ∉ lists j)
    (hi : lists i = us ++ w :: vs) :
    Represents (k.insertAfter (.item w) (.item t)) (update lists i (us ++ w :: t :: vs)) := by
  have hring := r.ring i
  rw [hi, map_append, map_cons] at hring
  have hti : Node.item t ∉ Node.head i :: (us.map .item ++ Node.item w :: vs.map .item) := by
    have hnot := ht i
    rw [hi] at hnot
    simpa using hnot
  refine r.insert ht ?_ (fun z => ?_) fun x hx hxt => ?_
  · simpa using hring.insertAfter_mem hti
  · simp only [hi, mem_append, mem_cons]
    tauto
  · rw [hi, map_append, map_cons] at hx
    exact insertAfter_off (fun heq => hx (by simp [heq])) hxt
      fun heq => hx (heq ▸ hring.neighbours.1)

lemma remove_mem (r : Represents k lists) (hi : lists i = us ++ t :: vs) :
    Represents (k.remove (.item t)) (update lists i (us ++ vs)) := by
  have hring := r.ring i
  rw [hi, map_append, map_cons] at hring
  obtain ⟨hrest, hself⟩ := hring.remove_mem
  have hoff : ∀ x, x ∉ Node.head i :: (lists i).map .item →
      (k.remove (.item t)).next x = k.next x ∧ (k.remove (.item t)).prev x = k.prev x := by
    intro x hx
    rw [hi, map_append, map_cons] at hx
    exact remove_off (fun heq => hx (by simp [heq])) (fun heq => hx (heq ▸ hring.neighbours.1))
      (fun heq => hx (heq ▸ hring.neighbours.2))
  have hsub : ∀ j w, w ∈ update lists i (us ++ vs) j → w ∈ lists j := by
    intro j w hw
    by_cases hji : j = i
    · subst hji
      rw [update_self] at hw
      rw [hi]
      simp only [mem_append, mem_cons] at hw ⊢
      tauto
    · rwa [update_of_ne hji] at hw
  refine ⟨fun j => ?_, fun j j' w hj hj' => r.disjoint j j' w (hsub j w hj) (hsub j' w hj'),
    fun w hw => ?_⟩
  · by_cases hji : j = i
    · subst hji
      rw [update_self, map_append]
      exact hrest
    · rw [update_of_ne hji]
      refine (r.ring j).congr fun x hx => hoff x fun hxi => ?_
      rcases mem_cons.mp hx with rfl | hx
      · simp [hji] at hxi
      · obtain ⟨w, hw, rfl⟩ := mem_map.mp hx
        exact hji (r.disjoint _ _ w hw (by simpa using hxi))
  · by_cases hwt : w = t
    · exact hwt ▸ hself
    · have hold : ∀ j, w ∉ lists j := fun j hj => by
        by_cases hji : j = i
        · subst hji
          refine hw j ?_
          rw [update_self]
          rw [hi] at hj
          simp only [mem_append, mem_cons] at hj ⊢
          tauto
        · exact hw j (by rwa [update_of_ne hji])
      refine (r.self w hold).congr fun x hx => hoff x ?_
      obtain rfl : x = .item w := by simpa using hx
      simpa using hold i

lemma remove_self (r : Represents k lists) (ht : ∀ i, t ∉ lists i) : k.remove (.item t) = k := by
  obtain ⟨hnext, hprev⟩ := ring_nil.mp (r.self t ht)
  ext x
  · by_cases hx : x = .item t
    · simp [remove_next, hx, hnext]
    · simp [remove_next, hnext, hprev, hx]
  · by_cases hx : x = .item t
    · simp [remove_prev, hx, hprev]
    · simp [remove_prev, hnext, hprev, hx]

lemma remove (r : Represents k lists) (t : T) :
    Represents (k.remove (.item t)) (fun i => (lists i).erase t) := by
  by_cases hmem : ∃ i, t ∈ lists i
  · obtain ⟨i, hi⟩ := hmem
    obtain ⟨us, vs, hcut⟩ := append_of_mem hi
    have heq : (fun j => (lists j).erase t) = update lists i (us ++ vs) := by
      funext j
      by_cases hji : j = i
      · subst hji
        have hnd := r.nodup j
        rw [hcut] at hnd
        have hus : t ∉ us := fun hus =>
          disjoint_of_nodup_append hnd hus (mem_cons_self ..)
        rw [update_self, hcut, erase_append_right _ hus, erase_cons_head]
      · rw [update_of_ne hji]
        exact erase_of_not_mem fun hj => hji (r.disjoint j i t hj hi)
    rw [heq]
    exact r.remove_mem hcut
  · push Not at hmem
    have heq : (fun j => (lists j).erase t) = lists :=
      funext fun j => erase_of_not_mem (hmem j)
    rw [heq, r.remove_self hmem]
    exact r

end Represents

end Links
