import Mathlib.Tactic
import Mathlib.Order.CompletePartialOrder
import TempSns.Lib.Transition
import TempSns.Slab.Pages

/-!
# Runs of the page allocator

`Layout h start ts`: the free list of `h` is the list of the free tiles of `ts`, in the order of their
addresses, where `ts` is a tiling of the pages of the heap from the page `start` on in which no two
free tiles are neighbours. `rt_page_alloc` occupies a free tile or a part of it, and `rt_page_free`
releases a used tile and merges it with its free neighbours.
-/

namespace Slab

open SinglyLinked Tiling Function Word32 Nat

variable {h h' : PageHeap} {start npages n : ℕ} {q : Option ℕ} {ts pre post : List Tile}
  {t a b : Tile} {s : PageState} {old new : List Tile} {fuel : ℕ}

/-- The free list is the list of the free tiles. -/
structure Layout (h : PageHeap) (start : ℕ) (ts : List Tile) : Prop where
  chain : Chain h.next h.list (freeStarts start ts)
  page : ∀ x ∈ freeExtents start ts, h.page x.1 = x.2
  pos : ∀ t ∈ ts, 0 < t.size
  coalesced : Coalesced ts
  start_pos : 0 < start
  top : start + span ts < 2 ^ 20

lemma freeStarts_used (ht : t.used = true) : freeStarts start (t :: ts) =
    freeStarts (start + t.size) ts := by
  simp [freeStarts, ht]

lemma freeStarts_free (ht : t.used = false) : freeStarts start (t :: ts) =
    start :: freeStarts (start + t.size) ts := by
  simp [freeStarts, ht]

lemma freeStarts_pairwise (hpos : ∀ t ∈ ts, 0 < t.size) : (freeStarts start ts).Pairwise (· < ·) := by
  induction ts generalizing start with
  | nil => exact .nil
  | cons t ts ih =>
    have hrest : (freeStarts (start + t.size) ts).Pairwise (· < ·) :=
      ih fun x hx => hpos x (by simp [hx])
    cases ht : t.used
    · rw [freeStarts_free ht]
      refine List.pairwise_cons.mpr ⟨fun p hp => ?_, hrest⟩
      have hb := (freeStarts_bounds (fun x hx => hpos x (by simp [hx])) hp).1
      have hsize := hpos t (by simp)
      omega
    · rw [freeStarts_used ht]
      exact hrest

/-- The pointer `q` leads to the page heads of the free tiles of `ts`, in their order. -/
def Holds (h : PageHeap) (q : Option ℕ) (start : ℕ) (ts : List Tile) : Prop :=
  Chain h.next q (freeStarts start ts) ∧ ∀ x ∈ freeExtents start ts, h.page x.1 = x.2

lemma holds_used (ht : t.used = true) :
    Holds h q start (t :: ts) ↔ Holds h q (start + t.size) ts := by
  rw [Holds, freeStarts_used ht, freeExtents_cons_used ht, Holds]

lemma holds_free (ht : t.used = false) : Holds h q start (t :: ts) ↔
    q = some start ∧ h.page start = t.size ∧ Holds h (h.next start) (start + t.size) ts := by
  rw [Holds, freeStarts_free ht, freeExtents_cons_free ht, List.forall_mem_cons]
  exact ⟨fun ⟨⟨hq, hchain⟩, hpage, hrest⟩ => ⟨hq, hpage, hchain, hrest⟩,
    fun ⟨hq, hpage, hchain, hrest⟩ => ⟨⟨hq, hchain⟩, hpage, hrest⟩⟩

namespace Holds

lemma congr (hh : Holds h q start ts)
    (hsame : ∀ p ∈ freeStarts start ts, h'.next p = h.next p ∧ h'.page p = h.page p) :
    Holds h' q start ts := by
  refine ⟨hh.1.congr fun p hp => (hsame p hp).1, fun x hx => ?_⟩
  have hmem : x.1 ∈ freeStarts start ts := map_fst_freeExtents ▸ List.mem_map_of_mem hx
  exact (hsame x.1 hmem).2.trans (hh.2 x hx)

lemma setPage (hh : Holds h q start ts) (hn : n ∉ freeStarts start ts) (next : Option ℕ)
    (page : ℕ) : Holds (h.setPage n next page) q start ts := by
  refine hh.congr fun p hp => ?_
  have hne : p ≠ n := fun heq => hn (heq ▸ hp)
  exact ⟨update_of_ne hne _ _, update_of_ne hne _ _⟩

/-- The head of a free tile is put in front. -/
lemma push (hh : Holds h q (start + n) ts) (hn : 0 < n) (hpos : ∀ t ∈ ts, 0 < t.size) :
    Holds (h.setPage start q n) (some start) start (⟨n, false⟩ :: ts) := by
  have hnext : (h.setPage start q n).next start = q := update_self _ _ _
  refine (holds_free rfl).mpr ⟨rfl, update_self _ _ _, ?_⟩
  rw [hnext]
  refine hh.setPage (fun hmem => ?_) q n
  have hge := (freeStarts_bounds hpos hmem).1
  omega

lemma replaceRest (hh : Holds h q start (pre ++ old))
    (hsame : ∀ p ∈ freeStarts start pre, h'.next p = h.next p ∧ h'.page p = h.page p)
    (hrest : ∀ q, Holds h q (start + span pre) old → Holds h' q (start + span pre) new) :
    Holds h' q start (pre ++ new) := by
  induction pre generalizing start q with
  | nil => exact hrest q hh
  | cons t pre ih =>
    simp only [span_cons, ← add_assoc] at hrest
    cases ht : t.used
    · obtain ⟨hq, hpage, hh⟩ := (holds_free ht).mp hh
      rw [freeStarts_free ht, List.forall_mem_cons] at hsame
      refine (holds_free ht).mpr ⟨hq, hsame.1.2.trans hpage, ?_⟩
      rw [hsame.1.1]
      exact ih hh hsame.2 hrest
    · rw [freeStarts_used ht] at hsame
      exact (holds_used ht).mpr (ih ((holds_used ht).mp hh) hsame hrest)

end Holds

namespace Layout

lemma nodup (l : Layout h start ts) : (freeStarts start ts).Nodup :=
  (freeStarts_pairwise l.pos).imp fun hlt => ne_of_lt hlt

section

variable (l : Layout h start (pre ++ t :: post))

include l

lemma bounds : 0 < t.size ∧ start + span pre + t.size + span post < 2 ^ 20 := by
  have htop := l.top
  simp only [span_append, span_cons] at htop
  exact ⟨l.pos t (by simp), by omega⟩

lemma pos_post : ∀ x ∈ post, 0 < x.size := fun x hx =>
  l.pos x (by simp [hx])

/-- No free tile starts inside of another tile, or where a used one does. -/
lemma fresh (hlo : start + span pre ≤ n)
    (hhi : n < start + span pre + t.size) (hn : t.used = true ∨ start + span pre < n) :
    n ∉ freeStarts start (pre ++ t :: post) := by
  simp only [freeStarts_append, List.mem_append, mem_freeStarts_cons]
  rintro (hmem | ⟨hfree, heq⟩ | hmem)
  · have hlt := (freeStarts_bounds (fun x hx => l.pos x (by simp [hx])) hmem).2
    omega
  · rcases hn with hused | hlt
    · exact Bool.false_ne_true (hfree.symm.trans hused)
    · omega
  · have hge := (freeStarts_bounds l.pos_post hmem).1
    omega

end

lemma slot (l : Layout h start (pre ++ post)) :
    Holds h (h.get (freeStarts start pre).getLast?) (start + span pre) post := by
  have hchain := l.chain
  rw [freeStarts_append] at hchain
  refine ⟨hchain.slot, fun x hx => l.page x ?_⟩
  rw [freeExtents_append]
  exact List.mem_append_right _ hx

/-- The head of a page that is not in the free list may hold anything. -/
lemma setPage (l : Layout h start ts) (hn : n ∉ freeStarts start ts) (next : Option ℕ)
    (page : ℕ) : Layout (h.setPage n next page) start ts := by
  obtain ⟨hchain, hpage⟩ := Holds.setPage ⟨l.chain, l.page⟩ hn next page
  exact ⟨hchain, hpage, l.pos, l.coalesced, l.start_pos, l.top⟩

/-- The tiles behind some tiles are replaced. -/
lemma replace (l : Layout h start (pre ++ old))
    (hnew : Holds h' h'.list start (pre ++ new)) (hpos : ∀ t ∈ new, 0 < t.size)
    (hcoal : Coalesced (pre ++ new)) (hspan : span new = span old) :
    Layout h' start (pre ++ new) := by
  have htop := l.top
  rw [span_append] at htop
  refine ⟨hnew.1, hnew.2, fun t ht => ?_, hcoal, l.start_pos, by rw [span_append]; omega⟩
  rcases List.mem_append.mp ht with ht | ht
  · exact l.pos t (by simp [ht])
  · exact hpos t ht

/-- A store into the slot behind some tiles replaces the tiles behind them. -/
lemma splice (l : Layout h start (pre ++ old))
    (hq : Holds h q (start + span pre) new) (hpos : ∀ t ∈ new, 0 < t.size)
    (hcoal : Coalesced (pre ++ new)) (hspan : span new = span old) :
    Layout (h.set (freeStarts start pre).getLast? q) start (pre ++ new) := by
  have hchain := l.chain
  have hnodup := l.nodup
  rw [freeStarts_append] at hchain hnodup
  refine l.replace ⟨?_, fun x hx => ?_⟩ hpos hcoal hspan
  · rw [freeStarts_append]
    refine hchain.setSlot (List.nodup_append.mp hnodup).1 hq.1 fun x hx hx' => ?_
    have hlt := (freeStarts_bounds (fun t ht => l.pos t (by simp [ht])) hx).2
    have hge := (freeStarts_bounds hpos hx').1
    omega
  · rw [freeExtents_append, List.mem_append] at hx
    rcases hx with hx | hx
    · exact l.page x (by rw [freeExtents_append]; exact List.mem_append_left _ hx)
    · exact hq.2 x hx

/-- A free tile becomes longer at the cost of the tiles behind it. -/
lemma extend {rest rest' : List Tile} {k : ℕ} (l : Layout h start (pre ++ a :: rest))
    (ha : a.used = false) (hspan : span rest = k + span rest') (hpos : ∀ t ∈ rest', 0 < t.size)
    (hcoal : Coalesced (pre ++ ⟨a.size + k, false⟩ :: rest'))
    (hq : Holds h q (start + span pre + (a.size + k)) rest') :
    Layout (h.setPage (start + span pre) q (a.size + k)) start
      (pre ++ ⟨a.size + k, false⟩ :: rest') := by
  have hsize : 0 < a.size + k := Nat.add_pos_left l.bounds.1 _
  refine l.replace (Holds.replaceRest ⟨l.chain, l.page⟩ (fun p hp => ?_) fun q' hq' => ?_)
    (List.forall_mem_cons.mpr ⟨hsize, hpos⟩) hcoal ?_
  · have hlt := (freeStarts_bounds (fun t ht => l.pos t (by simp [ht])) hp).2
    exact ⟨update_of_ne (by omega) _ _, update_of_ne (by omega) _ _⟩
  · rw [((holds_free ha).mp hq').1]
    exact hq.push hsize hpos
  · simp only [span_cons]
    omega

end Layout

/-! ## Allocation -/

lemma Layout.takePart (l : Layout h start (pre ++ t :: post)) (ht : t.used = false)
    (hn : 0 < npages) (hlt : npages < t.size) :
    Layout ((h.setPage (start + span pre + npages) (h.next (start + span pre)) (t.size - npages)).set
        (freeStarts start pre).getLast? (some (start + span pre + npages))) start
      (pre ++ ⟨npages, true⟩ :: ⟨t.size - npages, false⟩ :: post) := by
  have hend : start + span pre + t.size = start + span pre + npages + (t.size - npages) := by omega
  have hrest : 0 < t.size - npages := Nat.sub_pos_of_lt hlt
  obtain ⟨-, -, hpost⟩ := (holds_free ht).mp l.slot
  rw [hend] at hpost
  have hocc : Coalesced (pre ++ (occupy 1 npages t ++ post)) := coalesced_occupy l.coalesced ht
  rw [occupy, if_pos (show npages + 1 ≤ t.size from hlt)] at hocc
  -- the new head lies inside of the tile
  refine (l.setPage (l.fresh (by omega) (by omega) (.inr (by omega))) _ _).splice
    ((holds_used rfl).mpr (hpost.push hrest l.pos_post)) ?_ hocc ?_
  · exact List.forall_mem_cons.mpr ⟨hn, List.forall_mem_cons.mpr ⟨hrest, l.pos_post⟩⟩
  · simp only [span_cons]
    omega

lemma Layout.takeAll (l : Layout h start (pre ++ t :: post)) (ht : t.used = false) :
    Layout (h.set (freeStarts start pre).getLast? (h.next (start + span pre))) start
      (pre ++ ⟨t.size, true⟩ :: post) := by
  obtain ⟨-, -, hrest⟩ := (holds_free ht).mp l.slot
  obtain ⟨hpre, hpost, -⟩ := coalesced_middle.mp l.coalesced
  exact l.splice ((holds_used rfl).mpr hrest) (List.forall_mem_cons.mpr ⟨l.bounds.1, l.pos_post⟩)
    (coalesced_middle.mpr ⟨hpre, hpost, nofun⟩) rfl

/-- What `rt_page_alloc` returns: no page and the same heap, or the start of a free tile. -/
def Taken (h : PageHeap) (start : ℕ) (ts : List Tile) (npages : ℕ) (r : Option ℕ) (h' : PageHeap) :
    Prop :=
  (r = none ∧ h' = h) ∨ ∃ pre t post, ts = pre ++ t :: post ∧ t.used = false ∧ npages ≤ t.size ∧
    r = some (start + span pre) ∧ Layout h' start (pre ++ (occupy 1 npages t ++ post))

lemma pageAllocLoop_spec (l : Layout h start ts) (hn : 0 < npages) (pre : List Tile)
    (hts : ts = pre ++ post) (hfuel : (freeStarts (start + span pre) post).length + 1 ≤ fuel) :
    ∃ r h', pageAllocLoop h npages fuel (freeStarts start pre).getLast? = .ok (r, h') ∧
      Taken h start ts npages r h' := by
  -- induction on the tiles that are still to be visited; a used tile takes no round of the loop
  induction post generalizing pre fuel with
  | nil =>
    obtain ⟨fuel, rfl⟩ := Nat.exists_eq_add_of_le' (Nat.le_trans (Nat.le_add_left 1 _) hfuel)
    have l' := l
    rw [hts] at l'
    have hget : h.get (freeStarts start pre).getLast? = none := l'.slot.1
    rw [pageAllocLoop, hget]
    exact ⟨none, h, rfl, .inl ⟨rfl, rfl⟩⟩
  | cons t post ih =>
    have hts' : ts = (pre ++ [t]) ++ post := by simp [hts]
    have hspan : start + span (pre ++ [t]) = start + span pre + t.size := by simp [Nat.add_assoc]
    cases ht : t.used
    · rw [freeStarts_free ht, List.length_cons] at hfuel
      obtain ⟨fuel, rfl⟩ := Nat.exists_eq_add_of_le' (Nat.le_trans (Nat.le_add_left 1 _) hfuel)
      have l' := l
      rw [hts] at l'
      obtain ⟨hget, hpage, -⟩ := (holds_free ht).mp l'.slot
      obtain ⟨hpos, htop⟩ := l'.bounds
      rw [pageAllocLoop, hget]
      simp only [hpage]
      by_cases hgt : t.size > npages
      · have hadd : pageAdd (start + span pre) npages = start + span pre + npages :=
          Nat.mod_eq_of_lt (by omega)
        have hsub : sub t.size npages = t.size - npages := sub_of_le (by omega) (by omega)
        simp only [if_pos hgt, hadd, hsub]
        refine ⟨_, _, rfl, .inr ⟨pre, t, post, hts, ht, by omega, rfl, ?_⟩⟩
        rw [occupy, if_pos (by omega)]
        exact l'.takePart ht hn hgt
      · rw [if_neg hgt]
        by_cases heq : t.size = npages
        · rw [if_pos heq]
          refine ⟨_, _, rfl, .inr ⟨pre, t, post, hts, ht, by omega, rfl, ?_⟩⟩
          rw [occupy, if_neg (by omega)]
          exact l'.takeAll ht
        · rw [if_neg heq]
          have hlast : (freeStarts start (pre ++ [t])).getLast? = some (start + span pre) := by
            rw [freeStarts_append, freeStarts_free ht]
            simp
          rw [← hlast]
          refine ih (pre ++ [t]) hts' ?_
          rw [hspan]
          omega
    · rw [freeStarts_used ht] at hfuel
      have hlast : freeStarts start (pre ++ [t]) = freeStarts start pre := by
        rw [freeStarts_append, freeStarts_used ht]
        simp
      rw [← hlast]
      exact ih (pre ++ [t]) hts' (by rw [hspan]; exact hfuel)

/-- There are fewer free tiles than pages. -/
lemma Layout.length_free (l : Layout h start ts) : (freeStarts start ts).length + 1 ≤ loopFuel := by
  have hsub : freeStarts start ts ⊆ List.range (2 ^ 20) := by
    intro p hp
    have hb := freeStarts_bounds l.pos hp
    have htop := l.top
    rw [List.mem_range]
    omega
  have hlen := (l.nodup.subperm hsub).length_le
  rw [List.length_range] at hlen
  rw [loopFuel]
  omega

lemma Layout.rtPageAlloc (l : Layout h start ts) (npages : ℕ) :
    ∃ r h', rtPageAlloc h npages = .ok (r, h') ∧ Taken h start ts npages r h' := by
  unfold Slab.rtPageAlloc
  by_cases hn : npages = 0
  · rw [if_pos hn]
    exact ⟨none, h, rfl, .inl ⟨rfl, rfl⟩⟩
  · rw [if_neg hn]
    exact pageAllocLoop_spec l (pos_of_ne_zero hn) [] rfl l.length_free

/-! ## Release -/

lemma Layout.insertPages (l : Layout h start (pre ++ ⟨n, true⟩ :: post)) (hpre : LastUsed pre)
    (hpost : HeadUsed post) :
    Layout ((h.setPage (start + span pre) (h.get (freeStarts start pre).getLast?) n).set
        (freeStarts start pre).getLast? (some (start + span pre))) start
      (pre ++ ⟨n, false⟩ :: post) := by
  obtain ⟨hcpre, hcpost, -⟩ := coalesced_middle.mp l.coalesced
  have hn : 0 < n := l.bounds.1
  have hrest := (holds_used rfl).mp l.slot
  exact (l.setPage (l.fresh le_rfl (Nat.lt_add_of_pos_right hn) (.inl rfl)) _ _).splice
    (hrest.push hn l.pos_post) (List.forall_mem_cons.mpr ⟨hn, l.pos_post⟩)
    (coalesced_middle.mpr ⟨hcpre, hcpost, fun _ => ⟨hpre, hpost⟩⟩) rfl

lemma Layout.mergeFront (l : Layout h start (pre ++ ⟨n, true⟩ :: b :: post)) (hpre : LastUsed pre)
    (hb : b.used = false) :
    Layout ((h.setPage (start + span pre) (h.next (start + span pre + n)) (b.size + n)).set
        (freeStarts start pre).getLast? (some (start + span pre))) start
      (pre ++ ⟨n + b.size, false⟩ :: post) := by
  obtain ⟨hcpre, hcb, -⟩ := coalesced_middle.mp l.coalesced
  obtain ⟨hcpost, hends⟩ := coalesced_cons.mp hcb
  have hn : 0 < n := l.bounds.1
  have hpost : ∀ x ∈ post, 0 < x.size := fun x hx => l.pos x (by simp [hx])
  obtain ⟨-, -, hrest⟩ := (holds_free hb).mp ((holds_used rfl).mp l.slot)
  rw [Nat.add_assoc (start + span pre)] at hrest
  rw [Nat.add_comm b.size]
  refine (l.setPage (l.fresh le_rfl (Nat.lt_add_of_pos_right hn) (.inl rfl)) _ _).splice
    (hrest.push (Nat.add_pos_left hn _) hpost)
    (List.forall_mem_cons.mpr ⟨Nat.add_pos_left hn _, hpost⟩)
    (coalesced_middle.mpr ⟨hcpre, hcpost, fun _ => ⟨hpre, hends hb⟩⟩) ?_
  simp only [span_cons]
  omega

/-- The first free tile behind a tile in use does not touch what is in front of that tile. -/
lemma first_free_gt (hpost : HeadUsed post) (hpos : ∀ t ∈ post, 0 < t.size) {p : ℕ}
    (hp : (freeStarts start post).head? = some p) : start < p := by
  cases post with
  | nil => cases hp
  | cons t post =>
    have ht : t.used = true := hpost t (by simp)
    rw [freeStarts_used ht] at hp
    have hge := (freeStarts_bounds (fun x hx => hpos x (by simp [hx])) (List.mem_of_head? hp)).1
    have hsize := hpos t (by simp)
    omega

/-- The pages are put behind the free pages in front of them. -/
lemma Layout.mergeBehind (l : Layout h start (pre ++ a :: ⟨n, true⟩ :: post)) (ha : a.used = false) :
    ∃ h' ts', mergeBehind h (start + span pre) n = .ok h' ∧ Layout h' start ts' ∧
      Fuse (pre ++ a :: ⟨n, false⟩ :: post) ts' := by
  obtain ⟨hcpre, hcn, hends⟩ := coalesced_middle.mp l.coalesced
  obtain ⟨hcpost, -⟩ := coalesced_cons.mp hcn
  obtain ⟨-, hpage, hrest⟩ := (holds_free ha).mp l.slot
  obtain ⟨hsize, htop⟩ := l.bounds
  have hpost : ∀ t ∈ post, 0 < t.size := fun t ht => l.pos t (by simp [ht])
  simp only [span_cons] at htop
  rw [holds_used rfl, add_assoc (start + span pre)] at hrest
  have htotal : add a.size n = a.size + n := add_of_lt (by omega)
  have hadd : pageAdd (start + span pre) (a.size + n) = start + span pre + (a.size + n) :=
    mod_eq_of_lt (by omega)
  unfold Slab.mergeBehind
  simp only [hpage, htotal, hadd]
  by_cases hhead : HeadUsed post
  · -- the next free pages, if there are any, do not follow at once
    have hgap : ¬ start + span pre + (a.size + n) = ptrVal (h.next (start + span pre)) := by
      rw [hrest.1.head]
      cases hfirst : (freeStarts (start + span pre + (a.size + n)) post).head? with
      | none =>
        simp only [ptrVal, Option.getD_none]
        omega
      | some p =>
        have hgt := first_free_gt hhead hpost hfirst
        simp only [ptrVal, Option.getD_some]
        omega
    rw [if_neg hgap]
    have hsame : { h with page := update h.page (start + span pre) (a.size + n) } =
        h.setPage (start + span pre) (h.next (start + span pre)) (a.size + n) := by
      rw [PageHeap.setPage, update_eq_self]
    rw [hsame]
    refine ⟨_, _, rfl, l.extend ha rfl hpost ?_ hrest, .step ha rfl (.refl _)⟩
    exact coalesced_middle.mpr ⟨hcpre, hcpost, fun _ => ⟨(hends ha).1, hhead⟩⟩
  · obtain ⟨f, post, rfl, hf⟩ := exists_of_not_headUsed hhead
    obtain ⟨hnext, hpage', hrest'⟩ := (holds_free hf).mp hrest
    obtain ⟨hcpost', hends'⟩ := coalesced_cons.mp hcpost
    simp only [span_cons] at htop
    have hne : start + span pre + (a.size + n) ≠ start + span pre := by omega
    have htotal' : add (a.size + n) f.size = a.size + (n + f.size) := by
      rw [add_of_lt (by omega), add_assoc]
    simp only [hnext, ptrVal, Option.getD_some, if_true, update_of_ne hne, hpage', htotal',
      PageHeap.setPage, update_idem]
    have hfuse : Fuse (pre ++ a :: ⟨n, false⟩ :: f :: post)
        (pre ++ ⟨a.size + (n + f.size), false⟩ :: post) := by
      refine .step ha rfl ?_
      rw [← add_assoc]
      exact .step rfl hf (.refl _)
    refine ⟨_, _, rfl, l.extend ha ?_ (fun t ht => hpost t (by simp [ht])) ?_ ?_, hfuse⟩
    · simp only [span_cons]
      omega
    · exact coalesced_middle.mpr ⟨hcpre, hcpost', fun _ => ⟨(hends ha).1, hends' hf⟩⟩
    · rw [← add_assoc a.size, ← add_assoc (start + span pre) (a.size + n)]
      exact hrest'

/-- Where the walk of `rt_page_free` arrives when no free pages lie directly in front. -/
lemma Layout.freeAfter (l : Layout h start (pre ++ ⟨n, true⟩ :: post)) (hpre : LastUsed pre) :
    ∃ h' ts', pageFreeLoop h (start + span pre) n (fuel + 1) (freeStarts start pre).getLast? = .ok h' ∧
      Layout h' start ts' ∧ Fuse (pre ++ ⟨n, false⟩ :: post) ts' := by
  obtain ⟨hn, htop⟩ := l.bounds
  simp only at hn htop
  have hadd : pageAdd (start + span pre) n = start + span pre + n := mod_eq_of_lt (by omega)
  have hslot := (holds_used rfl).mp l.slot
  have hget : h.get (freeStarts start pre).getLast? =
      (freeStarts (start + span pre + n) post).head? := hslot.1.head
  rw [pageFreeLoop]
  simp only [hadd]
  cases hfirst : (freeStarts (start + span pre + n) post).head? with
  | none =>
    -- there are no free pages behind
    have hhead : HeadUsed post := by
      intro t ht
      cases post with
      | nil => cases ht
      | cons x post =>
        obtain rfl : x = t := by simpa using ht
        by_contra hused
        rw [freeStarts_free (by simpa using hused)] at hfirst
        cases hfirst
    have hinsert := l.insertPages hpre hhead
    rw [hget, hfirst] at hinsert ⊢
    exact ⟨_, _, rfl, hinsert, .refl _⟩
  | some p =>
    obtain ⟨xs, t, ys, rfl, ht, rfl⟩ := mem_freeStarts.mp (List.mem_of_head? hfirst)
    have hpage := hslot.2 (start + span pre + n + span xs, t.size) (by simp [freeExtents, ht])
    have htsize : 0 < t.size := l.pos t (by simp)
    simp only [span_append, span_cons] at htop
    have hend : pageAdd (start + span pre + n + span xs) t.size =
        start + span pre + n + span xs + t.size := mod_eq_of_lt (by omega)
    rw [hget, hfirst]
    simp only at hpage ⊢
    rw [hpage, hend, if_pos ⟨htsize, .inl (by omega)⟩, if_neg (by omega)]
    by_cases hhead : HeadUsed (xs ++ t :: ys)
    · -- they start behind a page in use
      have hgt := first_free_gt hhead (fun x hx => l.pos x (by simp at hx ⊢; tauto)) hfirst
      have hinsert := l.insertPages hpre hhead
      rw [hget, hfirst] at hinsert
      rw [if_neg (by omega), if_pos hgt]
      exact ⟨_, _, rfl, hinsert, .refl _⟩
    · cases xs with
      | nil =>
        have hmerge := l.mergeFront hpre ht
        have hsum : add t.size n = t.size + n := add_of_lt (by omega)
        simp only [span_nil, add_zero, if_true, hsum]
        exact ⟨_, _, rfl, hmerge, .step rfl ht (.refl _)⟩
      | cons x xs =>
        -- the first tile is the first free one
        have hx : x.used = false := by simpa [HeadUsed] using hhead
        have hxsize : 0 < x.size := l.pos x (by simp)
        rw [List.cons_append, freeStarts_free hx] at hfirst
        simp only [List.head?_cons, Option.some.injEq, span_cons] at hfirst
        omega

lemma Layout.pageFreeLoop {rest : List Tile} (done : List Tile)
    (l : Layout h start (done ++ rest ++ ⟨n, true⟩ :: post))
    (hfuel : (freeStarts (start + span done) rest).length + 1 ≤ fuel)
    (hlast : rest = [] → LastUsed done) :
    ∃ h' ts', pageFreeLoop h (start + span (done ++ rest)) n fuel
        (freeStarts start done).getLast? = .ok h' ∧
      Layout h' start ts' ∧ Fuse (done ++ rest ++ ⟨n, false⟩ :: post) ts' := by
  -- induction on the tiles that are still to be visited
  induction rest generalizing done fuel with
  | nil =>
    obtain ⟨fuel, rfl⟩ := Nat.exists_eq_add_of_le' (Nat.le_trans (Nat.le_add_left 1 _) hfuel)
    simp only [List.append_nil] at l ⊢
    exact l.freeAfter (hlast rfl)
  | cons a rest ih =>
    have hassoc : done ++ a :: rest = (done ++ [a]) ++ rest := by simp
    have hspan : start + span (done ++ [a]) = start + span done + a.size := by simp [Nat.add_assoc]
    cases ha : a.used
    · rw [freeStarts_free ha, List.length_cons] at hfuel
      obtain ⟨fuel, rfl⟩ := Nat.exists_eq_add_of_le' (Nat.le_trans (Nat.le_add_left 1 _) hfuel)
      have l' : Layout h start (done ++ a :: (rest ++ ⟨n, true⟩ :: post)) := by
        simpa using l
      obtain ⟨hget, hpage, -⟩ := (holds_free ha).mp l'.slot
      obtain ⟨hsize, htop⟩ := l'.bounds
      simp only [span_append, span_cons] at htop
      have hend : pageAdd (start + span done) a.size = start + span done + a.size :=
        Nat.mod_eq_of_lt (by omega)
      have hadd : pageAdd (start + span (done ++ a :: rest)) n =
          start + span (done ++ a :: rest) + n := by
        simp only [span_append, span_cons]
        exact Nat.mod_eq_of_lt (by omega)
      have hlow : start + span done + a.size ≤ start + span (done ++ a :: rest) := by
        simp only [span_append, span_cons]
        omega
      rw [Slab.pageFreeLoop, hget]
      simp only [hpage, hend, hadd]
      rw [if_pos ⟨hsize, .inr hlow⟩]
      cases rest with
      | nil =>
        have heq : start + span done + a.size = start + span (done ++ [a]) := hspan.symm
        rw [if_pos heq]
        simpa using l'.mergeBehind ha
      | cons x rest =>
        have hx : 0 < x.size := l.pos x (by simp)
        have hlt : start + span done + a.size < start + span (done ++ a :: x :: rest) := by
          simp only [span_append, span_cons]
          omega
        have hslot : some (start + span done) = (freeStarts start (done ++ [a])).getLast? := by
          rw [freeStarts_append, freeStarts_free ha]
          simp
        rw [if_neg (by omega), if_neg (by omega), if_neg (by omega), hslot, hassoc]
        rw [hassoc] at l
        exact ih (done ++ [a]) l (by rw [hspan]; omega) nofun
    · rw [freeStarts_used ha] at hfuel
      have hsame : freeStarts start (done ++ [a]) = freeStarts start done := by
        rw [freeStarts_append, freeStarts_used ha]
        simp
      rw [hassoc] at l ⊢
      rw [← hsame]
      refine ih (done ++ [a]) l (by rw [hspan]; exact hfuel) fun _ x hx => ?_
      obtain rfl : a = x := by simpa using hx
      exact ha

lemma Layout.rtPageFree (l : Layout h start (pre ++ ⟨n, true⟩ :: post)) :
    ∃ h' ts', rtPageFree h ((start + span pre) * rtMmPageSize) n = .ok h' ∧ Layout h' start ts' ∧
      Fuse (pre ++ ⟨n, false⟩ :: post) ts' := by
  have hn : 0 < n := l.bounds.1
  have hstart := l.start_pos
  have hsize : 0 < rtMmPageSize := by decide
  have hlen := l.length_free
  rw [freeStarts_append, List.length_append] at hlen
  have hne : (start + span pre) * rtMmPageSize ≠ 0 := mul_ne_zero (by omega) (by decide)
  unfold Slab.rtPageFree
  rw [if_pos ⟨hne, Nat.mul_mod_left _ _, Nat.pos_iff_ne_zero.mp hn⟩, Nat.mul_div_cancel _ hsize]
  exact Layout.pageFreeLoop [] l (le_trans (by simp) hlen) nofun

lemma layout_rtPageInit (hstart : 0 < start) (hn : 0 < npages) (htop : start + npages < 2 ^ 20) :
    ∃ h', rtPageInit h (start * rtMmPageSize) npages = .ok h' ∧ Layout h' start [⟨npages, false⟩] := by
  have hne : start * rtMmPageSize ≠ 0 := Nat.mul_ne_zero (by omega) (by decide)
  have hsize : 0 < rtMmPageSize := by decide
  obtain ⟨fuel, hfuel⟩ : ∃ fuel, loopFuel = fuel + 1 := ⟨2 ^ 32 - 1, by rw [loopFuel]; norm_num⟩
  refine ⟨({ h with list := none }.setPage start none npages).set none (some start), ?_, ?_⟩
  · unfold rtPageInit rtPageFree
    rw [if_pos ⟨hne, by omega⟩, if_pos ⟨hne, Nat.mul_mod_left _ _, by omega⟩,
      Nat.mul_div_cancel _ hsize, hfuel]
    rfl
  · refine ⟨⟨rfl, ?_⟩, ?_, ?_, .singleton _, hstart, ?_⟩
    · exact update_self _ _ _
    · intro x hx
      obtain rfl : x = (start, npages) := by simpa [freeExtents] using hx
      exact update_self _ _ _
    · simpa using hn
    · simpa using htop

/-! ## Runs -/

/-- The page allocator and the runs of pages that are handed out. -/
structure PageState where
  heap : PageHeap
  start : ℕ
  total : ℕ
  /-- The runs in use, each with its first page and its length. -/
  runs : List (ℕ × ℕ)

/-- A call of the allocator, or a store of the program into its pages. -/
inductive PageAct where
  | alloc (npages : UInt32)
  | free (first npages : ℕ)
  /-- A store that leaves the given values where the page head would be. -/
  | write (page : ℕ) (next : Option ℕ) (count : ℕ)
  deriving DecidableEq, Repr

/-- Only runs in use are released or written. -/
def PageAllowed (s : PageState) : PageAct → Prop
  | .alloc _ => True
  | .free first npages => (first, npages) ∈ s.runs
  | .write page _ _ => ∃ x ∈ s.runs, x.1 ≤ page ∧ page < x.1 + x.2

instance (s : PageState) (a : PageAct) : Decidable (PageAllowed s a) := by
  cases a <;> unfold PageAllowed <;> infer_instance

/-- A new run, unless there is none. -/
def addRun (runs : List (ℕ × ℕ)) (npages : ℕ) : Option ℕ → List (ℕ × ℕ)
  | none => runs
  | some first => (first, npages) :: runs

def pageCall (s : PageState) : PageAct → Except Fault PageState
  | .alloc npages => (rtPageAlloc s.heap npages.toNat).map fun x =>
      { s with heap := x.2, runs := addRun s.runs npages.toNat x.1 }
  | .free first npages => (rtPageFree s.heap (first * rtMmPageSize) npages).map fun h =>
      { s with heap := h, runs := s.runs.erase (first, npages) }
  | .write page next count => .ok { s with heap := s.heap.setPage page next count }

/-- An action that returns. -/
def pageStep (s : PageState) (a : PageAct) : Option PageState := (pageCall s a).toOption

/-- The state after `rt_page_init`. The heap ends below the last page of the address space, because
its end is rounded down to a page. -/
def PageInit (s : PageState) : Prop :=
  ∃ h, 0 < s.start ∧ 0 < s.total ∧ s.start + s.total < 2 ^ 20 ∧
    rtPageInit h (s.start * rtMmPageSize) s.total = .ok s.heap ∧ s.runs = []

abbrev PageReach : PageState → Prop := Transition.Reach PageInit pageStep PageAllowed

def pagesOf (x : ℕ × ℕ) : Set ℕ := Set.Ico x.1 (x.1 + x.2)

/-- The free list is sorted and coalesced. It and the runs in use have no page in common, lie in the
heap, and have together as many pages as the heap. -/
def PagesOk (s : PageState) : Prop :=
  ∃ fl, Chain s.heap.next s.heap.list fl ∧
    (fl.IsChain fun b b' => b + s.heap.page b < b') ∧
    (s.runs ++ fl.map fun b => (b, s.heap.page b)).Pairwise
      (fun x y => Disjoint (pagesOf x) (pagesOf y)) ∧
    (∀ x ∈ s.runs ++ fl.map fun b => (b, s.heap.page b), 0 < x.2 ∧ s.start ≤ x.1 ∧
      x.1 + x.2 ≤ s.start + s.total) ∧
    (fl.map s.heap.page).sum + (s.runs.map Prod.snd).sum = s.total

/-- The runs in use are the used tiles. -/
structure PageInv (s : PageState) (ts : List Tile) : Prop where
  layout : Layout s.heap s.start ts
  runs : s.runs.Perm (extents s.start ts)
  total : span ts = s.total

/-- Between two free tiles of a coalesced tiling there is a gap. -/
lemma freeExtents_gaps (hpos : ∀ t ∈ ts, 0 < t.size) (hcoal : Coalesced ts) :
    (freeExtents start ts).IsChain fun x y => x.1 + x.2 < y.1 := by
  induction ts generalizing start with
  | nil => exact .nil
  | cons t ts ih =>
    have hpos' : ∀ x ∈ ts, 0 < x.size := fun x hx => hpos x (by simp [hx])
    obtain ⟨hcoal', hends⟩ := coalesced_cons.mp hcoal
    have hrest : (freeExtents (start + t.size) ts).IsChain fun x y => x.1 + x.2 < y.1 :=
      ih hpos' hcoal'
    cases ht : t.used
    · rw [freeExtents_cons_free ht, List.isChain_cons]
      refine ⟨fun y hy => ?_, hrest⟩
      refine first_free_gt (hends ht) hpos' ?_
      rw [← map_fst_freeExtents, List.head?_map, hy]
      rfl
    · rw [freeExtents_cons_used ht]
      exact hrest

lemma Layout.map_page (l : Layout h start ts) :
    ((freeStarts start ts).map fun b => (b, h.page b)) = freeExtents start ts := by
  rw [← map_fst_freeExtents, List.map_map]
  conv_rhs => rw [← List.map_id (freeExtents start ts)]
  refine List.map_congr_left fun x hx => ?_
  exact Prod.ext rfl (l.page x hx)

section

variable (i : PageInv s ts)

include i

lemma PageInv.pagesOk : PagesOk s := by
  have hmap := i.layout.map_page
  have hperm : (s.runs ++ freeExtents s.start ts).Perm (areas s.start ts) :=
    (i.runs.append_right _).trans extents_append_freeExtents
  refine ⟨_, i.layout.chain, ?_, ?_, ?_, ?_⟩
  · have hgaps : (freeExtents s.start ts).IsChain fun x y => x.1 + x.2 < y.1 :=
      freeExtents_gaps i.layout.pos i.layout.coalesced
    rw [← hmap, List.isChain_map] at hgaps
    exact hgaps
  · rw [hmap, hperm.pairwise_iff fun {x y} hxy => hxy.symm]
    refine areas_pairwise.imp fun {x y} hxy => Set.disjoint_left.mpr fun p hp hp' => ?_
    simp only [pagesOf, Set.mem_Ico] at hp hp'
    omega
  · intro x hx
    rw [hmap, hperm.mem_iff] at hx
    have hb := areas_bounds hx
    have hspan := i.total
    obtain ⟨t, ht, hsize⟩ := areas_size hx
    have hpos := i.layout.pos t ht
    omega
  · have hsum : ((s.runs ++ freeExtents s.start ts).map Prod.snd).sum = s.total := by
      rw [(hperm.map _).sum_eq, sum_areas, i.total]
    rw [List.map_append, List.sum_append, ← hmap, List.map_map] at hsum
    rw [← hsum, add_comm]
    rfl

lemma PageInv.alloc (npages : ℕ) : ∃ r h', rtPageAlloc s.heap npages = .ok (r, h') ∧
      ∃ ts', PageInv { s with heap := h', runs := addRun s.runs npages r } ts' := by
  obtain ⟨r, h', hcall, hres⟩ := i.layout.rtPageAlloc npages
  refine ⟨r, h', hcall, ?_⟩
  rcases hres with ⟨rfl, rfl⟩ | ⟨pre, t, post, rfl, ht, hle, rfl, l'⟩
  · exact ⟨ts, i⟩
  · refine ⟨_, l', ?_, ?_⟩
    · have hext : extents s.start (pre ++ (occupy 1 npages t ++ post)) =
          extents s.start pre ++ (s.start + span pre, npages) ::
            extents (s.start + span pre + t.size) post := by
        unfold occupy
        by_cases hlt : npages + 1 ≤ t.size
        · have hsum : s.start + span pre + npages + (t.size - npages) = s.start + span pre + t.size := by
            omega
          simp [hlt, extents, hsum]
        · obtain rfl : npages = t.size := by omega
          simp [extents]
      have hold := i.runs
      rw [extents_append, extents_cons_free ht] at hold
      rw [hext]
      exact (hold.cons _).trans List.perm_middle.symm
    · have hspan := i.total
      rw [← hspan]
      simp [span_occupy]

lemma PageInv.free {first n : ℕ} (hmem : (first, n) ∈ s.runs) :
    ∃ h', rtPageFree s.heap (first * rtMmPageSize) n = .ok h' ∧
      ∃ ts', PageInv { s with heap := h', runs := s.runs.erase (first, n) } ts' := by
  obtain ⟨pre, post, rfl, rfl⟩ := mem_extents.mp (i.runs.mem_iff.mp hmem)
  obtain ⟨h', ts', hcall, l', hfuse⟩ := i.layout.rtPageFree
  refine ⟨h', hcall, ts', l', ?_, ?_⟩
  · have hold := i.runs.erase (s.start + span pre, n)
    rw [hfuse.extents_eq, extents_append, extents_cons_free rfl]
    refine hold.trans ?_
    rw [extents_append, extents_cons_used rfl]
    refine (List.perm_middle.erase _).trans ?_
    rw [List.erase_cons_head]
  · rw [hfuse.span_eq, ← i.total]
    simp

/-- A store into pages in use hits no page head of the free list. -/
lemma PageInv.write {page : ℕ}
    (hpage : ∃ x ∈ s.runs, x.1 ≤ page ∧ page < x.1 + x.2) (next : Option ℕ) (count : ℕ) :
    PageInv { s with heap := s.heap.setPage page next count } ts := by
  obtain ⟨⟨first, n⟩, hmem, hlo, hhi⟩ := hpage
  obtain ⟨pre, post, rfl, rfl⟩ := mem_extents.mp (i.runs.mem_iff.mp hmem)
  exact ⟨i.layout.setPage (i.layout.fresh hlo hhi (.inl rfl)) next count, i.runs, i.total⟩

/-- Every allowed action returns, and the runs in use are again the used tiles. -/
lemma PageInv.step {a : PageAct} (ha : PageAllowed s a) :
    ∃ s', pageCall s a = .ok s' ∧ ∃ ts', PageInv s' ts' := by
  cases a with
  | alloc npages =>
    obtain ⟨r, h', hcall, hinv⟩ := i.alloc npages.toNat
    exact ⟨_, map_eq_ok.mpr ⟨_, hcall, rfl⟩, hinv⟩
  | free first npages =>
    obtain ⟨h', hcall, hinv⟩ := i.free ha
    exact ⟨_, map_eq_ok.mpr ⟨_, hcall, rfl⟩, hinv⟩
  | write page next count => exact ⟨_, rfl, ts, i.write ha next count⟩

end

lemma pageInv_of_reach (hs : PageReach s) : ∃ ts, PageInv s ts := by
  refine hs.invariant (I := fun s => ∃ ts, PageInv s ts) ?_ ?_
  · rintro s ⟨h, hstart, htotal, htop, hinit, hruns⟩
    obtain ⟨h', hcall, l⟩ := layout_rtPageInit hstart htotal htop
    obtain rfl : h' = s.heap := Except.ok.inj (hcall.symm.trans hinit)
    refine ⟨_, l, ?_, ?_⟩
    · rw [hruns]
      exact .nil
    · simp
  · rintro s a s' ⟨ts, i⟩ hallowed hstep
    obtain ⟨s'', hcall, hinv⟩ := i.step hallowed
    rw [pageStep, hcall] at hstep
    obtain rfl := Option.some.inj hstep
    exact hinv

/-- In every state of every run the free list is sorted and coalesced, and it and the runs in use are
a partition of the pages of the heap. Every allowed call returns. -/
theorem pagesOk_of_reach {s : PageState} (hs : PageReach s) :
    PagesOk s ∧ ∀ a, PageAllowed s a → (pageStep s a).isSome := by
  obtain ⟨ts, i⟩ := pageInv_of_reach hs
  refine ⟨i.pagesOk, fun a ha => ?_⟩
  obtain ⟨s', hcall, -⟩ := i.step ha
  rw [pageStep, hcall]
  rfl

/-- Sixteen pages from the page eight on, as `rt_page_init` leaves them. -/
def sixteenPages : PageState where
  heap := ⟨some 8, fun _ => none, fun _ => 16⟩
  start := 8
  total := 16
  runs := []

lemma pageInit_sixteenPages : PageInit sixteenPages := by
  refine ⟨⟨none, fun _ => none, fun _ => 16⟩, by decide, by decide, by decide, ?_, rfl⟩
  obtain ⟨fuel, hfuel⟩ : ∃ fuel, loopFuel = fuel + 1 := ⟨2 ^ 32 - 1, by rw [loopFuel]; norm_num⟩
  have hpage : update (fun _ : ℕ => (16 : ℕ)) 8 16 = fun _ => 16 := update_eq_self 8 _
  have hnext : update (fun _ : ℕ => (none : Option ℕ)) 8 none = fun _ => none :=
    update_eq_self 8 _
  change rtPageInit _ (8 * 4096) 16 = _
  unfold rtPageInit rtPageFree
  rw [if_pos (by decide), if_pos (by decide), hfuel]
  change Except.ok (PageHeap.mk (some 8) (update (fun _ => none) 8 none)
    (update (fun _ => 16) 8 16)) = _
  rw [hpage, hnext]
  rfl

/-- Three runs are taken and the one in the middle and the one behind it are given back. -/
theorem pagesOk_three_runs : ∃ s, PageReach s ∧ s.runs = [(8, 3)] ∧ PagesOk s := by
  obtain ⟨s, hreach, hruns⟩ : ∃ s, PageReach s ∧ s.runs = [(8, 3)] :=
    Transition.exists_of_run (fun _ _ => of_decide_eq_true) pageInit_sixteenPages
      [.alloc 3, .alloc 2, .alloc 1, .free 11 2, .free 13 1] (by decide +kernel)
  exact ⟨s, hreach, hruns, (pagesOk_of_reach hreach).1⟩

lemma total_of_pageStep {s' : PageState} {a : PageAct} (hstep : pageStep s a = some s') :
    s'.total = s.total := by
  have hcall : pageCall s a = .ok s' := toOption_eq_some.mp hstep
  cases a with
  | alloc npages =>
    obtain ⟨x, -, rfl⟩ := map_eq_ok.mp hcall
    rfl
  | free first npages =>
    obtain ⟨h, -, rfl⟩ := map_eq_ok.mp hcall
    rfl
  | write page next count =>
    cases hcall
    rfl

/-- `rt_page_init` asserts that there are pages. -/
lemma total_pos_of_reach (hs : PageReach s) : 0 < s.total := by
  refine hs.invariant (I := fun t => 0 < t.total) ?_ fun t t' a ht _ hstep => ?_
  · rintro t ⟨h, -, htotal, -⟩
    exact htotal
  · rw [total_of_pageStep hstep]
    exact ht

/-- When all runs have been given back, the free list is one run of all pages. -/
theorem list_of_nil (hs : PageReach s) (hnil : s.runs = []) :
    s.heap.list = some s.start ∧ s.heap.page s.start = s.total ∧ s.heap.next s.start = none := by
  have htotal := total_pos_of_reach hs
  obtain ⟨ts, layout, runs, total⟩ := pageInv_of_reach hs
  have hne : ts ≠ [] := by
    rintro rfl
    simp at total
    omega
  rw [hnil] at runs
  have hnone : ∀ x, x ∉ extents s.start ts := fun x hx => by simpa using runs.mem_iff.mpr hx
  obtain ⟨n, rfl⟩ := layout.coalesced.eq_singleton hnone hne
  have hchain := layout.chain
  have hpage := layout.page
  simp [freeStarts, SinglyLinked.Chain] at total hchain
  refine ⟨hchain.1, ?_, hchain.2⟩
  rw [← total]
  exact hpage (s.start, n) (by simp [freeExtents])

theorem list_of_nil_freed : ∃ s : PageState, s.heap.list = some 8 ∧ s.heap.page 8 = 16 := by
  obtain ⟨s, hreach, hnil, hstart, htotal⟩ : ∃ s, PageReach s ∧ s.runs = [] ∧ s.start = 8 ∧
      s.total = 16 :=
    Transition.exists_of_run (fun _ _ => of_decide_eq_true) pageInit_sixteenPages
      [.alloc 3, .alloc 2, .free 8 3, .free 11 2] (by decide +kernel)
  have hlist := list_of_nil hreach hnil
  rw [hstart, htotal] at hlist
  exact ⟨s, hlist.1, hlist.2.1⟩

end Slab
