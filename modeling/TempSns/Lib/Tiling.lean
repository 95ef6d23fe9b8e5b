import Mathlib.Data.List.Chain
import Mathlib.Tactic

/-!
# Tilings of an interval by used and free tiles

A region is cut into consecutive tiles, each of them used or free. A tiling is the list of its
tiles, so it is a partition of the region by construction.

* `span ts` is the total size and `lastStart` the start of the last tile.
* `freeStarts off ts` are the starts of the free tiles, and `usedSpan ts` is the size of the used ones.
* `extents off ts` are the used tiles, each with its start and size. Splitting or merging free
  tiles keeps them (`Fuse.extents_eq`).
* `Coalesced ts`: no two neighbouring tiles are free. `coalesced_middle` says what it means at
  one tile.
-/

namespace Tiling

open List Nat

/-- One tile: its size and whether it is in use. -/
structure Tile where
  /-- The number of cells the tile covers. -/
  size : ℕ
  used : Bool
  deriving DecidableEq, Repr

variable {off prv : ℕ} {t c d : Tile} {ts xs ys pre post : List Tile} {x : ℕ × ℕ} {ts' : List Tile}
  {p : ℕ} {least n : ℕ}

/-- The number of cells covered by a list of tiles. -/
def span : List Tile → ℕ
  | [] => 0
  | t :: ts => t.size + span ts

@[simp] lemma span_nil : span [] = 0 := rfl

@[simp] lemma span_cons : span (t :: ts) = t.size + span ts := rfl

@[simp] lemma span_append : span (xs ++ ys) = span xs + span ys := by
  induction xs with
  | nil => simp
  | cons x xs ih => simp [ih, add_assoc]

lemma add_span_concat : off + span (xs ++ [t]) = off + span xs + t.size := by
  simp [add_assoc]

def lastStart (prv off : ℕ) : List Tile → ℕ
  | [] => prv
  | t :: ts => lastStart off (off + t.size) ts

@[simp] lemma lastStart_nil : lastStart prv off [] = prv := rfl

@[simp] lemma lastStart_cons :
    lastStart prv off (t :: ts) = lastStart off (off + t.size) ts := rfl

lemma lastStart_append :
    lastStart prv off (xs ++ ys) = lastStart (lastStart prv off xs) (off + span xs) ys := by
  induction xs generalizing prv off with
  | nil => simp
  | cons x xs ih => simp [ih, add_assoc]

lemma lastStart_concat : lastStart prv off (xs ++ [t]) = off + span xs := by
  simp [lastStart_append]

def freeStarts (off : ℕ) : List Tile → List ℕ
  | [] => []
  | t :: ts => (if t.used then [] else [off]) ++ freeStarts (off + t.size) ts

@[simp] lemma freeStarts_nil : freeStarts off [] = [] := rfl

lemma freeStarts_cons : freeStarts off (t :: ts) =
    (if t.used then [] else [off]) ++ freeStarts (off + t.size) ts := rfl

@[simp] lemma mem_freeStarts_cons : p ∈ freeStarts off (t :: ts) ↔
      (t.used = false ∧ p = off) ∨ p ∈ freeStarts (off + t.size) ts := by
  cases h : t.used <;> simp [freeStarts_cons, h]

@[simp] lemma freeStarts_append :
    freeStarts off (xs ++ ys) = freeStarts off xs ++ freeStarts (off + span xs) ys := by
  induction xs generalizing off with
  | nil => simp
  | cons x xs ih => simp [freeStarts_cons, ih, add_assoc]

/-- A free start cuts the tiling in front of a free tile. -/
lemma mem_freeStarts : p ∈ freeStarts off ts ↔
      ∃ pre t post, ts = pre ++ t :: post ∧ t.used = false ∧ p = off + span pre := by
  induction ts generalizing off with
  | nil => simp
  | cons x xs ih =>
    rw [mem_freeStarts_cons, ih]
    constructor
    · rintro (⟨hx, rfl⟩ | ⟨pre, t, post, rfl, ht, rfl⟩)
      · exact ⟨[], x, xs, rfl, hx, rfl⟩
      · exact ⟨x :: pre, t, post, rfl, ht, by simp [add_assoc]⟩
    · rintro ⟨pre, t, post, heq, ht, rfl⟩
      cases pre with
      | nil =>
        obtain ⟨rfl, rfl⟩ := cons.inj heq
        exact .inl ⟨ht, rfl⟩
      | cons y pre =>
        obtain ⟨rfl, rfl⟩ := cons.inj heq
        exact .inr ⟨pre, t, post, rfl, ht, by simp [add_assoc]⟩

/-- Free starts lie inside the tiled region. -/
lemma freeStarts_bounds (hpos : ∀ t ∈ ts, 0 < t.size)
    (h : p ∈ freeStarts off ts) : off ≤ p ∧ p < off + span ts := by
  obtain ⟨pre, t, post, rfl, -, rfl⟩ := mem_freeStarts.mp h
  have ht : 0 < t.size := hpos t (by simp)
  simp only [span_append, span_cons]
  omega

/-! ## Extents of the used tiles -/

/-- The used tiles of a list placed at `off`, each as its start and its size. -/
def extents (off : ℕ) : List Tile → List (ℕ × ℕ)
  | [] => []
  | t :: ts => (if t.used then [(off, t.size)] else []) ++ extents (off + t.size) ts

@[simp] lemma extents_nil : extents off [] = [] := rfl

lemma extents_cons : extents off (t :: ts) =
    (if t.used then [(off, t.size)] else []) ++ extents (off + t.size) ts := rfl

lemma extents_cons_used (ht : t.used = true) :
    extents off (t :: ts) = (off, t.size) :: extents (off + t.size) ts := by
  simp [extents_cons, ht]

lemma extents_cons_free (ht : t.used = false) :
    extents off (t :: ts) = extents (off + t.size) ts := by
  simp [extents_cons, ht]

@[simp] lemma extents_append :
    extents off (xs ++ ys) = extents off xs ++ extents (off + span xs) ys := by
  induction xs generalizing off with
  | nil => simp
  | cons x xs ih => simp [extents_cons, ih, add_assoc]

/-- A used extent cuts the tiling in front of its tile. -/
lemma mem_extents {p n : ℕ} : (p, n) ∈ extents off ts ↔
      ∃ pre post, ts = pre ++ ⟨n, true⟩ :: post ∧ p = off + span pre := by
  induction ts generalizing off with
  | nil => simp
  | cons x xs ih =>
    rw [extents_cons, mem_append, ih]
    constructor
    · rintro (hx | ⟨pre, post, rfl, rfl⟩)
      · obtain ⟨hused, hp⟩ : x.used = true ∧ (p, n) = (off, x.size) := by
          cases hx' : x.used <;> simp_all
        obtain ⟨rfl, rfl⟩ := Prod.mk.inj hp
        exact ⟨[], xs, by simp [← hused], by simp⟩
      · exact ⟨x :: pre, post, rfl, by simp [add_assoc]⟩
    · rintro ⟨pre, post, heq, rfl⟩
      cases pre with
      | nil =>
        obtain ⟨rfl, rfl⟩ := cons.inj heq
        exact .inl (by simp)
      | cons y pre =>
        obtain ⟨rfl, rfl⟩ := cons.inj heq
        exact .inr ⟨pre, post, rfl, by simp [add_assoc]⟩

lemma extents_bounds {p n : ℕ} (h : (p, n) ∈ extents off ts) :
    off ≤ p ∧ p + n ≤ off + span ts := by
  obtain ⟨pre, post, rfl, rfl⟩ := mem_extents.mp h
  simp only [span_append, span_cons]
  omega

/-- No extent around a tile starts where the tile does. -/
lemma extents_start_ne {n : ℕ} (hpos : ∀ t ∈ pre, 0 < t.size) (hn : 0 < n)
    (hx : x ∈ extents off pre ∨ x ∈ extents (off + span pre + n) post) :
    x.1 ≠ off + span pre := by
  rcases hx with hx | hx
  · have hb := extents_bounds hx
    obtain ⟨xs, ys, hcut, -⟩ := mem_extents.mp hx
    have : 0 < x.2 := hpos ⟨x.2, true⟩ (by rw [hcut]; simp)
    omega
  · have hb := extents_bounds hx
    omega

/-- Freeing a used tile removes its extent and no other. -/
lemma mem_extents_release {n : ℕ} (hpos : ∀ t ∈ pre ++ ⟨n, true⟩ :: post, 0 < t.size) :
    x ∈ extents off (pre ++ ⟨n, false⟩ :: post) ↔
      x ∈ extents off (pre ++ ⟨n, true⟩ :: post) ∧ x.1 ≠ off + span pre := by
  have hn : 0 < n := hpos ⟨n, true⟩ (by simp)
  have hpre : ∀ t ∈ pre, 0 < t.size := fun t ht => hpos t (by simp [ht])
  simp only [extents_append, mem_append, extents_cons_free, extents_cons_used, mem_cons]
  constructor
  · rintro hx
    exact ⟨hx.imp_right .inr, extents_start_ne hpre hn hx⟩
  · rintro ⟨hx | rfl | hx, hstart⟩
    · exact .inl hx
    · exact absurd rfl hstart
    · exact .inr hx

/-- Cutting a used tile and freeing its tail changes the size of its extent. -/
lemma mem_extents_shrink {k n : ℕ} (hpos : ∀ t ∈ pre ++ ⟨n, true⟩ :: post, 0 < t.size)
    (hk : k ≤ n) :
    x ∈ extents off (pre ++ ⟨k, true⟩ :: ⟨n - k, false⟩ :: post) ↔ x = (off + span pre, k) ∨
        (x ∈ extents off (pre ++ ⟨n, true⟩ :: post) ∧ x.1 ≠ off + span pre) := by
  have hsum : off + span pre + k + (n - k) = off + span pre + n := by omega
  rw [← mem_extents_release hpos]
  simp only [extents_append, mem_append, extents_cons_free, extents_cons_used, mem_cons, hsum]
  tauto

lemma extents_disjoint {p n q k : ℕ} (hp : (p, n) ∈ extents off ts) (hq : (q, k) ∈ extents off ts)
    (hne : p ≠ q) : p + n ≤ q ∨ q + k ≤ p := by
  induction ts generalizing off with
  | nil => simp at hp
  | cons t ts ih =>
    cases ht : t.used
    · rw [extents_cons_free ht] at hp hq
      exact ih hp hq
    · rw [extents_cons_used ht, mem_cons, Prod.mk.injEq] at hp hq
      rcases hp with ⟨rfl, rfl⟩ | hp <;> rcases hq with ⟨rfl, rfl⟩ | hq
      · exact absurd rfl hne
      · exact .inl (extents_bounds hq).1
      · exact .inr (extents_bounds hp).1
      · exact ih hp hq

/-! ## Total size of the used tiles -/

def usedSpan : List Tile → ℕ
  | [] => 0
  | t :: ts => (if t.used then t.size else 0) + usedSpan ts

@[simp] lemma usedSpan_nil : usedSpan [] = 0 := rfl

@[simp] lemma usedSpan_cons :
    usedSpan (t :: ts) = (if t.used then t.size else 0) + usedSpan ts := rfl

@[simp] lemma usedSpan_append : usedSpan (xs ++ ys) = usedSpan xs + usedSpan ys := by
  induction xs with
  | nil => simp
  | cons x xs ih => simp [ih, add_assoc]

lemma usedSpan_le_span : usedSpan ts ≤ span ts := by
  induction ts with
  | nil => simp
  | cons t ts ih =>
    simp only [usedSpan_cons, span_cons]
    split <;> omega

/-! ## All starts -/

def allStarts (off : ℕ) : List Tile → List ℕ
  | [] => []
  | t :: ts => off :: allStarts (off + t.size) ts

@[simp] lemma allStarts_nil : allStarts off [] = [] := rfl

@[simp] lemma allStarts_cons : allStarts off (t :: ts) = off :: allStarts (off + t.size) ts := rfl

@[simp] lemma allStarts_append :
    allStarts off (xs ++ ys) = allStarts off xs ++ allStarts (off + span xs) ys := by
  induction xs generalizing off with
  | nil => simp
  | cons x xs ih => simp [ih, add_assoc]

/-- A start cuts the tiling in front of a tile. -/
lemma mem_allStarts :
    p ∈ allStarts off ts ↔ ∃ pre t post, ts = pre ++ t :: post ∧ p = off + span pre := by
  induction ts generalizing off with
  | nil => simp
  | cons x xs ih =>
    rw [allStarts_cons, mem_cons, ih]
    constructor
    · rintro (rfl | ⟨pre, t, post, rfl, rfl⟩)
      · exact ⟨[], x, xs, rfl, rfl⟩
      · exact ⟨x :: pre, t, post, rfl, by simp [add_assoc]⟩
    · rintro ⟨pre, t, post, heq, rfl⟩
      cases pre with
      | nil => exact .inl rfl
      | cons y pre =>
        obtain ⟨rfl, rfl⟩ := cons.inj heq
        exact .inr ⟨pre, t, post, rfl, by simp [add_assoc]⟩

/-! ## Cuts -/

/-- The cells at which a tiling placed at `off` is cut: the starts of its tiles, and its end. -/
def cuts (off : ℕ) : List Tile → List ℕ
  | [] => [off]
  | t :: ts => off :: cuts (off + t.size) ts

@[simp] lemma cuts_nil : cuts off [] = [off] := rfl

@[simp] lemma cuts_cons : cuts off (t :: ts) = off :: cuts (off + t.size) ts := rfl

@[simp] lemma cuts_append :
    cuts off (xs ++ ys) = allStarts off xs ++ cuts (off + span xs) ys := by
  induction xs generalizing off with
  | nil => simp
  | cons x xs ih => simp [ih, add_assoc]

@[simp] lemma mem_cuts_self : off ∈ cuts off ts := by
  cases ts <;> simp

lemma mem_cuts : p ∈ cuts off ts ↔ p ∈ allStarts off ts ∨ p = off + span ts := by
  induction ts generalizing off with
  | nil => simp
  | cons t ts ih => simp [ih, add_assoc, or_assoc]

lemma le_of_mem_cuts (hp : p ∈ cuts off ts) : off ≤ p := by
  induction ts generalizing off with
  | nil => simp_all
  | cons t ts ih =>
    rw [cuts_cons, mem_cons] at hp
    rcases hp with rfl | hp
    · exact le_rfl
    · have hle := ih hp
      omega

lemma extents_cut {p q k : ℕ} (hq : (q, k) ∈ extents off ts) (hp : p ∈ cuts off ts) :
    p ≤ q ∨ q + k ≤ p := by
  induction ts generalizing off with
  | nil => simp at hq
  | cons t ts ih =>
    rw [cuts_cons, mem_cons] at hp
    rcases hp with rfl | hp
    · exact .inl (extents_bounds hq).1
    · rw [show t :: ts = [t] ++ ts from rfl, extents_append, mem_append] at hq
      rcases hq with hq | hq
      · -- the first tile ends at the second cut
        have hle := le_of_mem_cuts hp
        have hbound := (extents_bounds hq).2
        simp only [span_cons, span_nil] at hbound
        exact .inr (by omega)
      · exact ih (by simpa using hq) hp

/-! ## All tiles with their starts -/

/-- The free tiles of a list placed at `off`, each as its start and its size. -/
def freeExtents (off : ℕ) : List Tile → List (ℕ × ℕ)
  | [] => []
  | t :: ts => (if t.used then [] else [(off, t.size)]) ++ freeExtents (off + t.size) ts

@[simp] lemma freeExtents_nil : freeExtents off [] = [] := rfl

lemma freeExtents_cons : freeExtents off (t :: ts) =
    (if t.used then [] else [(off, t.size)]) ++ freeExtents (off + t.size) ts := rfl

lemma freeExtents_cons_used (ht : t.used = true) :
    freeExtents off (t :: ts) = freeExtents (off + t.size) ts := by
  simp [freeExtents_cons, ht]

lemma freeExtents_cons_free (ht : t.used = false) :
    freeExtents off (t :: ts) = (off, t.size) :: freeExtents (off + t.size) ts := by
  simp [freeExtents_cons, ht]

@[simp] lemma freeExtents_append :
    freeExtents off (xs ++ ys) = freeExtents off xs ++ freeExtents (off + span xs) ys := by
  induction xs generalizing off with
  | nil => simp
  | cons x xs ih => simp [freeExtents_cons, ih, add_assoc]

lemma map_fst_freeExtents : (freeExtents off ts).map Prod.fst = freeStarts off ts := by
  induction ts generalizing off with
  | nil => rfl
  | cons t ts ih => cases ht : t.used <;> simp [freeExtents_cons, freeStarts_cons, ht, ih]

/-- The tiles of a list placed at `off`, each as its start and its size. -/
def areas (off : ℕ) : List Tile → List (ℕ × ℕ)
  | [] => []
  | t :: ts => (off, t.size) :: areas (off + t.size) ts

lemma areas_cons : areas off (t :: ts) = (off, t.size) :: areas (off + t.size) ts := rfl

lemma areas_bounds (hx : x ∈ areas off ts) : off ≤ x.1 ∧ x.1 + x.2 ≤ off + span ts := by
  induction ts generalizing off with
  | nil => cases hx
  | cons t ts ih =>
    rw [areas_cons, mem_cons] at hx
    rw [span_cons]
    rcases hx with rfl | hx
    · exact ⟨le_refl _, by simp only; omega⟩
    · have hb := ih hx
      omega

lemma areas_size (hx : x ∈ areas off ts) : ∃ t ∈ ts, t.size = x.2 := by
  induction ts generalizing off with
  | nil => cases hx
  | cons t ts ih =>
    rw [areas_cons, mem_cons] at hx
    rcases hx with rfl | hx
    · exact ⟨t, by simp, rfl⟩
    · obtain ⟨u, hu, hsize⟩ := ih hx
      exact ⟨u, by simp [hu], hsize⟩

lemma areas_pairwise : (areas off ts).Pairwise fun x y => x.1 + x.2 ≤ y.1 := by
  induction ts generalizing off with
  | nil => exact .nil
  | cons t ts ih => exact pairwise_cons.mpr ⟨fun x hx => (areas_bounds hx).1, ih⟩

lemma extents_append_freeExtents :
    (extents off ts ++ freeExtents off ts).Perm (areas off ts) := by
  induction ts generalizing off with
  | nil => exact .nil
  | cons t ts ih =>
    cases ht : t.used
    · rw [extents_cons_free ht, freeExtents_cons_free ht]
      exact perm_middle.trans (ih.cons _)
    · rw [extents_cons_used ht, freeExtents_cons_used ht]
      exact ih.cons _

lemma sum_areas : ((areas off ts).map Prod.snd).sum = span ts := by
  induction ts generalizing off with
  | nil => rfl
  | cons t ts ih => simp [areas_cons, ih]

/-- Two tilings cut at the same cell are cut at the same tile, when tiles are not empty. -/
lemma append_inj_of_span {xs' ys' : List Tile} (hpos : ∀ t ∈ xs ++ ys, 0 < t.size)
    (h : xs ++ ys = xs' ++ ys') (hspan : span xs = span xs') : xs = xs' ∧ ys = ys' := by
  induction xs generalizing xs' with
  | nil =>
    cases xs' with
    | nil => exact ⟨rfl, h⟩
    | cons x xs' =>
      have : 0 < x.size := hpos x (by rw [h]; simp)
      simp at hspan
      omega
  | cons x xs ih =>
    cases xs' with
    | nil =>
      have : 0 < x.size := hpos x (by simp)
      simp at hspan
      omega
    | cons x' xs' =>
      obtain ⟨rfl, h'⟩ := cons.inj h
      have hspan' : span xs = span xs' := by simpa using hspan
      obtain ⟨rfl, rfl⟩ := ih (fun t ht => hpos t (by simp at ht ⊢; tauto)) h' hspan'
      exact ⟨rfl, rfl⟩

lemma extents_unique {p n k : ℕ} (hpos : ∀ t ∈ ts, 0 < t.size) (hn : (p, n) ∈ extents off ts)
    (hk : (p, k) ∈ extents off ts) : n = k := by
  obtain ⟨pre, post, rfl, rfl⟩ := mem_extents.mp hn
  obtain ⟨pre', post', heq, hspan⟩ := mem_extents.mp hk
  obtain ⟨-, htail⟩ := append_inj_of_span hpos heq (by omega)
  exact congrArg Tile.size (cons.inj htail).1

/-! ## Coalesced tilings -/

/-- No two neighbouring tiles are free. -/
def Coalesced (ts : List Tile) : Prop :=
  ts.IsChain fun a b => a.used = true ∨ b.used = true

def HeadUsed (ts : List Tile) : Prop := ∀ t ∈ ts.head?, t.used = true

def LastUsed (ts : List Tile) : Prop := ∀ t ∈ ts.getLast?, t.used = true

/-- A coalesced tiling without a used tile is one free tile, or empty. -/
lemma Coalesced.eq_singleton (h : Coalesced ts) (hnone : ∀ x, x ∉ extents off ts) (hne : ts ≠ []) :
    ∃ n, ts = [⟨n, false⟩] := by
  have hfree : ∀ t ∈ ts, t.used = false := by
    rintro ⟨n, used⟩ ht
    obtain ⟨pre, post, rfl⟩ := append_of_mem ht
    cases used with
    | false => rfl
    | true => exact absurd (mem_extents.mpr ⟨pre, post, rfl, rfl⟩) (hnone (off + span pre, n))
  obtain ⟨⟨n, used⟩, rest, rfl⟩ := exists_cons_of_ne_nil hne
  obtain rfl : used = false := hfree _ mem_cons_self
  cases rest with
  | nil => exact ⟨n, rfl⟩
  | cons t rest =>
    have hused := (isChain_cons_cons.mp h).1
    simp [hfree t (by simp)] at hused

lemma exists_of_not_headUsed (h : ¬ HeadUsed ts) : ∃ c ts', ts = c :: ts' ∧ c.used = false := by
  cases ts with
  | nil => exact absurd (by simp [HeadUsed]) h
  | cons c ts' => exact ⟨c, ts', rfl, by simpa [HeadUsed] using h⟩

lemma exists_of_not_lastUsed (h : ¬ LastUsed ts) : ∃ ts' c, ts = ts' ++ [c] ∧ c.used = false := by
  rcases eq_nil_or_concat' ts with rfl | ⟨ts', c, rfl⟩
  · exact absurd (by simp [LastUsed]) h
  · exact ⟨ts', c, rfl, by simpa [LastUsed] using h⟩

/-- A tile in the middle of a coalesced tiling: both sides are coalesced, and a free tile has
used neighbours. -/
lemma coalesced_middle : Coalesced (pre ++ t :: post) ↔ Coalesced pre ∧ Coalesced post ∧
      (t.used = false → LastUsed pre ∧ HeadUsed post) := by
  unfold Coalesced LastUsed HeadUsed
  rw [isChain_append, isChain_cons]
  constructor
  · rintro ⟨hpre, ⟨hhead, hpost⟩, hseam⟩
    refine ⟨hpre, hpost, fun ht => ⟨fun x hx => ?_, fun y hy => ?_⟩⟩
    · simpa [ht] using hseam x hx t (by simp)
    · simpa [ht] using hhead y hy
  · rintro ⟨hpre, hpost, hfree⟩
    refine ⟨hpre, ⟨fun y hy => ?_, hpost⟩, fun x hx y hy => ?_⟩
    · by_cases ht : t.used = true
      · exact .inl ht
      · exact .inr ((hfree (by simpa using ht)).2 y hy)
    · obtain rfl : y = t := by simpa using hy.symm
      by_cases ht : y.used = true
      · exact .inr ht
      · exact .inl ((hfree (by simpa using ht)).1 x hx)

lemma coalesced_cons :
    Coalesced (t :: post) ↔ Coalesced post ∧ (t.used = false → HeadUsed post) := by
  rw [← nil_append (t :: post), coalesced_middle]
  simp [Coalesced, LastUsed]

/-! ## Fusing free tiles -/

/-- `ts'` arises from `ts` by replacing neighbouring free tiles by one free tile each. -/
inductive Fuse : List Tile → List Tile → Prop
  | refl (ts : List Tile) : Fuse ts ts
  | step {pre post ts' : List Tile} {a b : Tile} (ha : a.used = false) (hb : b.used = false)
      (h : Fuse (pre ++ ⟨a.size + b.size, false⟩ :: post) ts') : Fuse (pre ++ a :: b :: post) ts'

lemma Fuse.trans {us vs : List Tile} (h : Fuse ts us) (h' : Fuse us vs) : Fuse ts vs := by
  induction h with
  | refl => exact h'
  | step ha hb _ ih => exact .step ha hb (ih h')

lemma Fuse.extents_eq (h : Fuse ts ts') : extents off ts' = extents off ts := by
  induction h with
  | refl => rfl
  | step ha hb _ ih => rw [ih]; simp [extents_cons, ha, hb, add_assoc]

lemma Fuse.usedSpan_eq (h : Fuse ts ts') : usedSpan ts' = usedSpan ts := by
  induction h with
  | refl => rfl
  | step ha hb _ ih => rw [ih]; simp [ha, hb]

lemma Fuse.cuts_subset (h : Fuse ts ts') : cuts off ts' ⊆ cuts off ts := by
  induction h with
  | refl => exact fun _ hp => hp
  | step _ _ _ ih =>
    intro p hp
    have hmem := ih hp
    simp only [cuts_append, cuts_cons, mem_append, mem_cons, add_assoc] at hmem ⊢
    tauto

lemma Fuse.span_eq (h : Fuse ts ts') : span ts' = span ts := by
  induction h with
  | refl => rfl
  | step _ _ _ ih => rw [ih]; simp [add_assoc]

/-! ## First free tile -/

/-- The start of the first free tile of a list placed at `off`, or its end if all are used. -/
def firstFree (off : ℕ) : List Tile → ℕ
  | [] => off
  | t :: ts => if t.used then firstFree (off + t.size) ts else off

lemma firstFree_mem (off : ℕ) (ts : List Tile) :
    firstFree off ts ∈ freeStarts off ts ∨ firstFree off ts = off + span ts := by
  induction ts generalizing off with
  | nil => simp [firstFree]
  | cons t ts ih =>
    cases ht : t.used
    · simp [firstFree, ht]
    · have := ih (off + t.size)
      simpa [firstFree, ht, add_assoc] using this

lemma firstFree_le {q : ℕ} (hpos : ∀ t ∈ ts, 0 < t.size) (hq : q ∈ freeStarts off ts) :
    firstFree off ts ≤ q := by
  induction ts generalizing off with
  | nil => simp at hq
  | cons t ts ih =>
    cases ht : t.used
    · simpa [firstFree, ht] using (freeStarts_bounds hpos hq).1
    · have hq' : q ∈ freeStarts (off + t.size) ts := by simpa [ht] using hq
      simpa [firstFree, ht] using ih (fun x hx => hpos x (by simp [hx])) hq'

/-! ## Occupying a tile -/

/-- Take `n` cells of a tile: split it if at least `least` cells remain, else take all of it. -/
def occupy (least n : ℕ) (t : Tile) : List Tile :=
  if n + least ≤ t.size then [⟨n, true⟩, ⟨t.size - n, false⟩] else [⟨t.size, true⟩]

/-- Occupying a free tile adds one extent, of at least `n` cells, at its start. -/
lemma mem_extents_occupy (off least : ℕ) {n : ℕ} (hpos : ∀ x ∈ pre ++ t :: post, 0 < x.size)
    (hn : n ≤ t.size) (ht : t.used = false) :
    ∃ k, n ≤ k ∧ (∀ x ∈ extents off (pre ++ t :: post), x.1 ≠ off + span pre) ∧
      ∀ x, x ∈ extents off (pre ++ (occupy least n t ++ post)) ↔
        x = (off + span pre, k) ∨ x ∈ extents off (pre ++ t :: post) := by
  have hfresh : ∀ x ∈ extents off (pre ++ t :: post), x.1 ≠ off + span pre := by
    intro x hx
    rw [extents_append, extents_cons_free ht, mem_append] at hx
    exact extents_start_ne (fun t ht => hpos t (by simp [ht])) (hpos t (by simp)) hx
  unfold occupy
  split
  · refine ⟨n, le_rfl, hfresh, fun x => ?_⟩
    have hsum : off + span pre + n + (t.size - n) = off + span pre + t.size := by omega
    simp only [extents_append, mem_append, extents_cons_free, extents_cons_used,
      mem_cons, cons_append, nil_append, ht, hsum]
    tauto
  · refine ⟨t.size, hn, hfresh, fun x => ?_⟩
    simp only [extents_append, mem_append, extents_cons_free, extents_cons_used,
      mem_cons, cons_append, nil_append, ht]
    tauto

/-- A free tile can be occupied without creating neighbouring free tiles. -/
lemma coalesced_occupy (h : Coalesced (pre ++ t :: post)) (ht : t.used = false) :
    Coalesced (pre ++ (occupy least n t ++ post)) := by
  obtain ⟨hpre, hpost, hfree⟩ := coalesced_middle.mp h
  obtain ⟨-, hhead⟩ := hfree ht
  unfold occupy
  split
  · refine coalesced_middle.mpr ⟨hpre, ?_, by simp⟩
    have hnil : Coalesced ([] ++ (⟨t.size - n, false⟩ : Tile) :: post) :=
      coalesced_middle.mpr ⟨.nil, hpost, fun _ => ⟨by simp [LastUsed], hhead⟩⟩
    exact hnil
  · exact coalesced_middle.mpr ⟨hpre, hpost, by simp⟩

lemma cuts_occupy {least n p : ℕ} (hp : p ∈ cuts off (pre ++ t :: post)) :
    p ∈ cuts off (pre ++ (occupy least n t ++ post)) := by
  unfold occupy
  split
  case isTrue hle =>
    have hsum : off + span pre + n + (t.size - n) = off + span pre + t.size := by omega
    simp only [cuts_append, cuts_cons, cons_append, nil_append, mem_append, mem_cons, hsum] at hp ⊢
    tauto
  case isFalse =>
    simpa using hp

lemma usedSpan_occupy :
    usedSpan (occupy least n t) = if n + least ≤ t.size then n else t.size := by
  unfold occupy
  split <;> simp

lemma span_occupy : span (occupy least n t) = t.size := by
  unfold occupy
  split <;> simp
  omega

end Tiling
