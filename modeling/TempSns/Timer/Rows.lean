import TempSns.Lib.SortedInsert
import TempSns.Timer.Defs

/-!
# The rows of the skip lists

`Stored cfg s rows`: the pointers of `s` are those of the rows `rows`. The operations of the source
on pointers are operations on rows: removal erases the timer from every row (`stored_timerRemove`),
and insertion puts it behind the timers that are not later, in the last row and in some rows above
(`startInsert_spec`). The search of `rt_timer_start` descends through the rows; it finds the right
place in each of them because every row is a sublist of the row below it and the rows are sorted.
-/

namespace Timer

open Links WrapTime SortedInsert Function List

variable {X : Type} [DecidableEq X] {cfg : Config} {s s' : State X}
  {rows : Bool → ℕ → List X} {k : Bool} {l : ℕ} {x y t : X} {levels : ℕ} {us vs : List X}
  {links : Links (RowNode X)} {r : X → X → Prop}

def rowLists (levels : ℕ) (rows : Bool → ℕ → List X) : Bool × ℕ → List (X × ℕ) :=
  fun j => if j.2 < levels then (rows j.1 j.2).map (·, j.2) else []

/-- The pointers of `s` are those of the rows. -/
def Stored (cfg : Config) (s : State X) (rows : Bool → ℕ → List X) : Prop :=
  s.links.Represents (rowLists cfg.levels rows)

section

omit [DecidableEq X]

lemma rowLists_of_lt (hl : l < levels) :
    rowLists levels rows (k, l) = (rows k l).map (·, l) := if_pos hl

lemma mem_rowLists {levels m : ℕ} {j : Bool × ℕ} :
    (x, m) ∈ rowLists levels rows j ↔ j.2 < levels ∧ m = j.2 ∧ x ∈ rows j.1 j.2 := by
  unfold rowLists
  split
  case isTrue hl => simp [hl, and_comm, eq_comm]
  case isFalse hl => simp [hl]

lemma rowLists_congr {rows' : Bool → ℕ → List X}
    (heq : ∀ k, ∀ l < levels, rows' k l = rows k l) : rowLists levels rows' = rowLists levels rows := by
  funext ⟨k, l⟩
  unfold rowLists
  split
  case isTrue hl => rw [heq k l hl]
  case isFalse => rfl

lemma Stored.nodup (hst : Stored cfg s rows) (hl : l < cfg.levels) : (rows k l).Nodup := by
  have hnd := Represents.nodup hst (k, l)
  rw [rowLists_of_lt hl] at hnd
  exact hnd.of_map _

end

/-! ## Removal -/

omit [DecidableEq X] in
lemma pair_injective (l : ℕ) : Function.Injective (fun x : X => (x, l)) := fun _ _ h => by
  simpa using h

/-- Taking the node of row `n` out of row `l`. -/
lemma erase_node (xs : List X) (x : X) (n l : ℕ) :
    @List.erase (X × ℕ) instBEqOfDecidableEq (xs.map (·, l)) (x, n) =
      if l = n then (xs.erase x).map (·, l) else xs.map (·, l) := by
  let _ : BEq (X × ℕ) := instBEqOfDecidableEq
  split
  case isTrue heq =>
    subst heq
    exact (map_erase (pair_injective l) xs).symm
  case isFalse hne => exact erase_of_not_mem (by simp [hne])

lemma removeRows_spec (hrep : links.Represents (rowLists levels rows)) (n : ℕ) :
    (removeRows x n links).Represents
      (rowLists levels fun k l => if l < n then (rows k l).erase x else rows k l) := by
  induction n with
  | zero => simpa [removeRows] using hrep
  | succ n ih =>
    refine (congrArg _ ?_).mp (ih.remove (x, n))
    funext ⟨k, l⟩
    unfold rowLists
    simp only
    split
    case isFalse => rfl
    case isTrue =>
      rw [erase_node]
      rcases Nat.lt_trichotomy l n with hlt | rfl | hgt
      · rw [if_neg (by omega), if_pos hlt, if_pos (by omega)]
      · rw [if_pos rfl, if_neg (by omega), if_pos (by omega)]
      · rw [if_neg (by omega), if_neg (by omega), if_neg (by omega)]

lemma stored_timerRemove (hst : Stored cfg s rows) (x : X) :
    Stored cfg (timerRemove cfg s x) fun k l => (rows k l).erase x := by
  have hrep := removeRows_spec (x := x) hst cfg.levels
  have heq : rowLists cfg.levels (fun k l => if l < cfg.levels then (rows k l).erase x else rows k l) =
      rowLists cfg.levels fun k l => (rows k l).erase x :=
    rowLists_congr fun k l hl => if_pos hl
  rw [heq] at hrep
  exact hrep

/-! ## Search -/

/-- The node of the last timer of an initial part of a row, or the head. -/
def lastNode (k : Bool) (l : ℕ) (us : List X) : RowNode X :=
  match us.getLast? with
  | none => .head (k, l)
  | some y => .item (y, l)

section

omit [DecidableEq X]

@[simp] lemma lastNode_nil : lastNode (X := X) k l [] = .head (k, l) := rfl

@[simp] lemma lastNode_concat {us : List X} : lastNode k l (us ++ [y]) = .item (y, l) := by
  simp [lastNode]

lemma Stored.prev_head (hst : Stored cfg s rows) (hl : l < cfg.levels) :
    s.links.prev (.head (k, l)) = lastNode k l (rows k l) := by
  rcases eq_nil_or_concat' (rows k l) with hnil | ⟨us, y, hcut⟩
  · have hring := hst.ring (k, l)
    rw [rowLists_of_lt hl, hnil] at hring
    rw [hnil]
    exact hring.path.2
  · rw [hcut, lastNode_concat]
    have hrow : rowLists cfg.levels rows (k, l) = us.map (·, l) ++ [(y, l)] := by
      rw [rowLists_of_lt hl, hcut, map_append, map_singleton]
    exact Represents.prev_head hst hrow

/-- The timer behind an initial part of a row. -/
lemma Stored.next_lastNode (hst : Stored cfg s rows) (hl : l < cfg.levels)
    (hcut : rows k l = us ++ t :: vs) : s.links.next (lastNode k l us) = .item (t, l) := by
  rcases eq_nil_or_concat' us with rfl | ⟨us, y, rfl⟩
  · have hrow : rowLists cfg.levels rows (k, l) = (t, l) :: vs.map (·, l) := by
      rw [rowLists_of_lt hl, hcut]
      rfl
    exact Represents.next_head hst hrow
  · have hrow : rowLists cfg.levels rows (k, l) =
        us.map (·, l) ++ (y, l) :: (t, l) :: vs.map (·, l) := by
      rw [rowLists_of_lt hl, hcut]
      simp
    rw [lastNode_concat]
    exact Represents.next_item hst hrow

lemma Stored.lastNode_ne (hst : Stored cfg s rows) (hl : l < cfg.levels)
    (hcut : rows k l = us ++ t :: vs) :
    lastNode k l us ≠ s.links.prev (.head (k, l)) := by
  have hnd : (us ++ t :: vs).Nodup := hcut ▸ hst.nodup hl
  rw [hst.prev_head hl, hcut]
  obtain ⟨ws, w, hw⟩ : ∃ ws w, t :: vs = ws ++ [w] :=
    ⟨_, _, (dropLast_append_getLast (cons_ne_nil t vs)).symm⟩
  rw [hw, ← append_assoc, lastNode_concat]
  rcases eq_nil_or_concat' us with rfl | ⟨us, y, rfl⟩
  · simp
  · rw [lastNode_concat]
    -- the last timer of the row is behind `y`
    intro heq
    have hyw : y = w := by simpa using heq
    have hmem : w ∈ t :: vs := by simp [hw]
    exact disjoint_of_nodup_append hnd (by simp) (hyw ▸ hmem)

end

/-- The timer is not later than the deadline, so that the search passes it. -/
def passed (s : State X) (deadline : BitVec 32) (t : X) : Bool :=
  !decide ((s.timer t).timeoutTick - deadline ≠ 0 ∧
    ((s.timer t).timeoutTick - deadline).toNat < half)

/-- The search in one row stops behind the timers it passes. -/
lemma walkRow_spec (hst : Stored cfg s rows) (hl : l < cfg.levels) (deadline : BitVec 32)
    (fuel : ℕ) (hcut : rows k l = us ++ vs) :
    walkRow s deadline (.head (k, l)) fuel (lastNode k l us) =
        .ok (lastNode k l (us ++ vs.takeWhile (passed s deadline))) ∨
      (walkRow s deadline (.head (k, l)) fuel (lastNode k l us) = .error .diverges ∧
        fuel ≤ vs.length) := by
  induction vs generalizing us fuel with
  | nil =>
    cases fuel with
    | zero => exact Or.inr ⟨rfl, by simp⟩
    | succ fuel =>
      rw [append_nil] at hcut
      left
      rw [walkRow, if_pos (by rw [hst.prev_head hl, hcut])]
      simp
  | cons t vs ih =>
    cases fuel with
    | zero => exact Or.inr ⟨rfl, by simp⟩
    | succ fuel =>
      rw [walkRow, if_neg (hst.lastNode_ne hl hcut), hst.next_lastNode hl hcut]
      simp only
      by_cases hlater : (s.timer t).timeoutTick - deadline ≠ 0 ∧
          ((s.timer t).timeoutTick - deadline).toNat < half
      · have hnot : passed s deadline t = false := by
          rw [passed, decide_eq_true hlater]
          rfl
        left
        rw [if_pos hlater, takeWhile_cons_of_neg (by simp [hnot]), append_nil]
      · have hpass : passed s deadline t = true := by
          rw [passed, decide_eq_false hlater]
          rfl
        have hcut' : rows k l = (us ++ [t]) ++ vs := by simpa using hcut
        have ih' := ih fuel hcut'
        rw [lastNode_concat] at ih'
        rw [if_neg hlater, takeWhile_cons_of_pos hpass]
        simpa using ih'

/-! ## Search through all rows -/

/-- The rows of one kind are sorted by `r`, and each one is a sublist of the row below it. -/
structure Nested (levels : ℕ) (r : X → X → Prop) (row : ℕ → List X) : Prop where
  sorted : ∀ l < levels, (row l).Pairwise r
  sublist : ∀ l, l + 1 < levels → (row l).Sublist (row (l + 1))

section

omit [DecidableEq X]

lemma Nested.sublist_last {row : ℕ → List X}
    (h : Nested levels r row) (hl : l < levels) : (row l).Sublist (row (levels - 1)) := by
  obtain ⟨n, hn⟩ : ∃ n, l + n = levels - 1 := ⟨levels - 1 - l, by omega⟩
  induction n generalizing l with
  | zero => rw [show l = levels - 1 by omega]
  | succ n ih => exact (h.sublist l (by omega)).trans (ih (by omega) (by omega))

lemma sublist_of_head {v : X} {rest tw bs : List X} (hsub : (v :: rest).Sublist (tw ++ bs))
    (hv : v ∉ tw) : (v :: rest).Sublist bs := by
  induction tw with
  | nil => exact hsub
  | cons a tw ih =>
    have hva : v ≠ a := fun heq => hv (heq ▸ mem_cons_self)
    cases hsub with
    | cons _ hsub => exact ih hsub fun hmem => hv (mem_cons_of_mem a hmem)
    | cons_cons _ hsub => exact absurd rfl hva

lemma below_cut {us vs row : List X} (hsub : (us ++ vs).Sublist row) :
    ∃ as bs, row = as ++ bs ∧ as.getLast? = us.getLast? ∧ us.Sublist as ∧ vs.Sublist bs := by
  rcases eq_nil_or_concat' us with rfl | ⟨us, y, rfl⟩
  · exact ⟨[], row, rfl, rfl, .refl _, hsub⟩
  · -- the row is cut behind `y`
    obtain ⟨as, bs, hrow, has, hbs⟩ := append_sublist_iff.mp hsub
    obtain ⟨cs, ds, rfl, hcs, hds⟩ := append_sublist_iff.mp has
    obtain ⟨es, gs, rfl⟩ := append_of_mem (singleton_sublist.mp hds)
    refine ⟨cs ++ es ++ [y], gs ++ bs, by simp [hrow], by simp, ?_, ?_⟩
    · exact (hcs.trans (sublist_append_left cs es)).append (.refl _)
    · exact hbs.trans (sublist_append_right gs bs)

end

/-- The search stops in a row between `us` and `vs`: behind a timer that it passes, or at the head,
and before one that it does not pass. -/
structure StopsAt (p : X → Bool) (us vs : List X) : Prop where
  last : ∀ y ∈ us.getLast?, p y = true
  head : ∀ y ∈ vs.head?, p y = false

section

omit [DecidableEq X]

lemma StopsAt.walk {p : X → Bool} {us : List X} (hus : ∀ y ∈ us.getLast?, p y = true)
    (vs : List X) : StopsAt p (us ++ vs.takeWhile p) (vs.dropWhile p) := by
  constructor
  · intro y hy
    rw [getLast?_append] at hy
    cases hlast : (vs.takeWhile p).getLast? with
    | none =>
      rw [hlast] at hy
      exact hus y hy
    | some z =>
      rw [hlast] at hy
      obtain rfl := Option.some.inj hy
      exact mem_takeWhile_imp (mem_of_getLast? hlast)
  · intro y hy
    have hhead := head?_dropWhile_not p vs
    rw [Option.mem_def.mp hy] at hhead
    exact hhead

/-- In a sorted row the search stops behind all timers that are not later. -/
lemma StopsAt.takeWhile_eq {p : X → Bool} {us vs row : List X}
    (h : StopsAt p us vs) (hcut : row = us ++ vs) (hs : row.Pairwise r)
    (hp : DownClosed r p row) : row.takeWhile p = us := by
  have hus : ∀ a ∈ us, p a = true := by
    rcases eq_nil_or_concat' us with rfl | ⟨us, y, rfl⟩
    · exact nofun
    · have hy : p y = true := h.last y (by simp)
      intro a ha
      rcases mem_append.mp ha with ha | ha
      · -- sorted before `y`, which was passed
        rw [hcut, append_assoc] at hs
        have hay : r a y := (pairwise_append.mp hs).2.2 a ha y (by simp)
        exact hp a (by simp [hcut, ha]) y (by simp [hcut]) hay hy
      · rw [mem_singleton.mp ha]
        exact hy
  rw [hcut, takeWhile_append_of_pos hus]
  cases vs with
  | nil => simp
  | cons v vs => rw [takeWhile_cons_of_neg (by simp [h.head v rfl]), append_nil]

lemma below_lastNode {us as : List X} (hlast : as.getLast? = us.getLast?) :
    (lastNode k l us).below = lastNode k (l + 1) as := by
  rw [lastNode, lastNode, hlast]
  cases us.getLast? <;> rfl

end

lemma walkRows_cut (hst : Stored cfg s rows)
    (hsub : ∀ l, l + 1 < cfg.levels → (rows k l).Sublist (rows k (l + 1))) (deadline : BitVec 32)
    (n : ℕ) (hlevels : l + n = cfg.levels) (hcut : 0 < n → rows k l = us ++ vs)
    (hus : ∀ y ∈ us.getLast?, passed s deadline y = true) :
    ∃ us' vs' : ℕ → List X, (∀ i, l ≤ i → i < cfg.levels →
        rows k i = us' i ++ vs' i ∧ StopsAt (passed s deadline) (us' i) (vs' i)) ∧
      (∀ i, l ≤ i → i + 1 < cfg.levels →
        (us' i).Sublist (us' (i + 1)) ∧ (vs' i).Sublist (vs' (i + 1))) ∧
      (0 < n → us.Sublist (us' l) ∧ vs' l = vs.dropWhile (passed s deadline)) ∧
      ∀ fuel, walkRows s deadline k fuel n l (lastNode k l us) =
          .ok ((range' l n).map fun i => lastNode k i (us' i)) ∨
        (walkRows s deadline k fuel n l (lastNode k l us) = .error .diverges ∧
          ∃ i < cfg.levels, fuel ≤ (rows k i).length) := by
  induction n generalizing l us vs with
  | zero => exact ⟨fun _ => [], fun _ => [], by omega, by omega, by omega, fun _ => Or.inl rfl⟩
  | succ n ih =>
    have hl : l < cfg.levels := by omega
    have hrow := hcut (by omega)
    set p := passed s deadline
    set us1 := us ++ vs.takeWhile p
    set vs1 := vs.dropWhile p
    have hrow1 : rows k l = us1 ++ vs1 := by
      rw [hrow, append_assoc, takeWhile_append_dropWhile]
    have hstop : StopsAt p us1 vs1 := .walk hus vs
    -- the next row, from the node below
    obtain ⟨as, bs, hcut', hlast, has, hbs⟩ : ∃ as bs, (0 < n → rows k (l + 1) = as ++ bs) ∧
        as.getLast? = us1.getLast? ∧ us1.Sublist as ∧ vs1.Sublist bs := by
      by_cases hn0 : 0 < n
      · have hsub' : (us1 ++ vs1).Sublist (rows k (l + 1)) := hrow1 ▸ hsub l (by omega)
        obtain ⟨as, bs, hrow', hrest⟩ := below_cut hsub'
        exact ⟨as, bs, fun _ => hrow', hrest⟩
      · exact ⟨us1, vs1, fun h => absurd h hn0, rfl, .refl _, .refl _⟩
    have hbelow := below_lastNode (k := k) (l := l) hlast
    obtain ⟨us', vs', hcuts, hsubs, hfirst, hwalk⟩ :=
      ih (by omega) hcut' fun y hy => hstop.last y (hlast ▸ hy)
    have hne : ∀ {i}, l + 1 ≤ i → i ≠ l := by omega
    refine ⟨update us' l us1, update vs' l vs1, fun i hlo hhi => ?_,
      fun i hlo hhi => ?_, fun _ => ?_, fun fuel => ?_⟩
    · by_cases hil : i = l
      · rw [hil, update_self, update_self]
        exact ⟨hrow1, hstop⟩
      · rw [update_of_ne hil, update_of_ne hil]
        exact hcuts i (by omega) hhi
    · rw [update_of_ne (show i + 1 ≠ l by omega), update_of_ne (show i + 1 ≠ l by omega)]
      by_cases hil : i = l
      · subst hil
        rw [update_self, update_self]
        obtain ⟨husl, hvsl⟩ := hfirst (by omega)
        refine ⟨has.trans husl, ?_⟩
        rw [hvsl]
        -- the first timer behind the place is not passed in the row below either
        have hsplit : vs1.Sublist (bs.takeWhile p ++ bs.dropWhile p) := by
          rw [takeWhile_append_dropWhile]
          exact hbs
        cases hvs1 : vs1 with
        | nil => exact nil_sublist _
        | cons v rest =>
          rw [hvs1] at hsplit
          have hv : p v = false := hstop.head v (by rw [hvs1]; rfl)
          refine sublist_of_head hsplit fun hmem => ?_
          rw [mem_takeWhile_imp hmem] at hv
          cases hv
      · rw [update_of_ne hil, update_of_ne hil]
        exact hsubs i (by omega) hhi
    · rw [update_self, update_self]
      exact ⟨sublist_append_left _ _, rfl⟩
    · rcases walkRow_spec hst hl deadline fuel hrow with hok | ⟨herr, hfuel⟩
      · have htail : (range' (l + 1) n).map (fun i => lastNode k i (update us' l us1 i)) =
            (range' (l + 1) n).map fun i => lastNode k i (us' i) := by
          refine map_congr_left fun i hi => ?_
          rw [update_of_ne (hne (mem_range'_1.mp hi).1)]
        rw [walkRows, hok, range'_succ, map_cons, update_self, htail]
        rcases hwalk fuel with hok' | ⟨herr', hfuel'⟩
        · left
          simp only [ok_bind]
          rw [show lastNode k l (us ++ vs.takeWhile (passed s deadline)) = lastNode k l us1 from rfl,
            hbelow, hok', ok_bind]
        · right
          refine ⟨?_, hfuel'⟩
          simp only [ok_bind]
          rw [show lastNode k l (us ++ vs.takeWhile (passed s deadline)) = lastNode k l us1 from rfl,
            hbelow, herr', error_bind]
      · right
        refine ⟨by rw [walkRows, herr]; rfl, l, hl, hfuel.trans ?_⟩
        rw [hrow, length_append]
        omega

/-! ## Insertion -/

/-- Linking a timer behind an initial part of one row. -/
lemma represents_insertRow
    (hrep : links.Represents (rowLists levels rows)) (hl : l < levels) (hx : ∀ k, x ∉ rows k l)
    (hcut : rows k l = us ++ vs) :
    (links.insertAfter (lastNode k l us) (.item (x, l))).Represents
      (rowLists levels fun k' i => if k' = k ∧ i = l then us ++ x :: vs else rows k' i) := by
  have hnot : ∀ j, (x, l) ∉ rowLists levels rows j := fun j hmem => by
    obtain ⟨-, hj, hmem⟩ := mem_rowLists.mp hmem
    exact hx j.1 (hj ▸ hmem)
  have heq : rowLists levels (fun k' i => if k' = k ∧ i = l then us ++ x :: vs else rows k' i) =
      update (rowLists levels rows) (k, l) ((us ++ x :: vs).map (·, l)) := by
    funext ⟨k', i⟩
    by_cases hj : (k', i) = (k, l)
    · obtain ⟨rfl, rfl⟩ := Prod.mk.inj hj
      rw [update_self, rowLists_of_lt hl, if_pos ⟨rfl, rfl⟩]
    · have hne : ¬ (k' = k ∧ i = l) := fun h => hj (Prod.ext h.1 h.2)
      rw [update_of_ne hj]
      simp only [rowLists, if_neg hne]
  rw [heq]
  rcases eq_nil_or_concat' us with rfl | ⟨us, y, rfl⟩
  · have hfront := hrep.pushFront hnot (i := (k, l))
    rw [rowLists_of_lt hl, hcut] at hfront
    exact hfront
  · have hrow : rowLists levels rows (k, l) = us.map (·, l) ++ (y, l) :: vs.map (·, l) := by
      rw [rowLists_of_lt hl, hcut]
      simp
    have hitem := hrep.insertAfterItem hnot hrow
    rw [lastNode_concat]
    simpa using hitem

/-- Linking into row `n` and then into the rows above, as far as the insert counter allows. Row `i`
is cut into `us i` and `vs i` at the place of the new timer. -/
lemma linkRows_spec {us vs : ℕ → List X} (mask : BitVec 32) (n : ℕ)
    (hrep : links.Represents (rowLists levels rows)) (hn : n < levels)
    (hx : ∀ k, ∀ l ≤ n, x ∉ rows k l) (tstNr : BitVec 32)
    (hcut : ∀ i ≤ n, rows k i = us i ++ vs i) :
    ∃ m ≤ n, (linkUpper mask x n ((range n).reverse.map fun i => lastNode k i (us i)) tstNr
        (links.insertAfter (lastNode k n (us n)) (.item (x, n)))).Represents
      (rowLists levels fun k' i =>
        if k' = k ∧ m ≤ i ∧ i ≤ n then us i ++ x :: vs i else rows k' i) := by
  induction n generalizing rows links tstNr with
  | zero =>
    have hrow := represents_insertRow hrep hn (fun k => hx k 0 le_rfl) (hcut 0 le_rfl)
    refine ⟨0, le_rfl, (congrArg _ (rowLists_congr fun k' i _ => ?_)).mp hrow⟩
    by_cases hi : k' = k ∧ i = 0
    · rw [if_pos hi, if_pos ⟨hi.1, by omega, by omega⟩, hi.2]
    · rw [if_neg hi, if_neg fun h => hi ⟨h.1, by omega⟩]
  | succ n ih =>
    have hrow := represents_insertRow hrep hn (fun k => hx k (n + 1) le_rfl) (hcut (n + 1) le_rfl)
    rw [range_succ, reverse_append, reverse_singleton, singleton_append, map_cons, linkUpper]
    split
    case isFalse =>
      refine ⟨n + 1, le_rfl, (congrArg _ (rowLists_congr fun k' i _ => ?_)).mp hrow⟩
      by_cases hi : k' = k ∧ i = n + 1
      · rw [if_pos hi, if_pos ⟨hi.1, by omega, by omega⟩, hi.2]
      · rw [if_neg hi, if_neg fun h => hi ⟨h.1, by omega⟩]
    case isTrue =>
      -- row `n + 1` has the timer, the rows above are as before
      have hsame : ∀ k', ∀ i ≤ n, (if k' = k ∧ i = n + 1 then us (n + 1) ++ x :: vs (n + 1)
          else rows k' i) = rows k' i := fun k' i hi => if_neg (by omega)
      obtain ⟨m, hm, hrest⟩ := ih hrow (by omega)
        (fun k' i hi => by rw [hsame k' i hi]; exact hx k' i (by omega)) _
        (fun i hi => by rw [hsame k i hi]; exact hcut i (by omega))
      refine ⟨m, by omega, (congrArg _ (rowLists_congr fun k' i _ => ?_)).mp hrest⟩
      by_cases hi : i ≤ n
      · rw [hsame k' i hi]
        by_cases hmi : k' = k ∧ m ≤ i
        · rw [if_pos ⟨hmi.1, hmi.2, hi⟩, if_pos ⟨hmi.1, hmi.2, by omega⟩]
        · rw [if_neg fun h => hmi ⟨h.1, h.2.1⟩, if_neg fun h => hmi ⟨h.1, h.2.1⟩]
      · rw [if_neg fun h => hi h.2.2]
        by_cases heq : k' = k ∧ i = n + 1
        · rw [if_pos heq, if_pos ⟨heq.1, by omega, by omega⟩, heq.2]
        · rw [if_neg heq, if_neg fun h => heq ⟨h.1, by omega⟩]

lemma last_lt (cfg : Config) [NeZero cfg.levels] : cfg.levels - 1 < cfg.levels :=
  Nat.sub_one_lt (NeZero.ne _)

/-- The second critical section of `rt_timer_start`, if the search cuts row `i` into `us i` and
`vs i`. -/
lemma startInsert_cut (hst : Stored cfg s rows) [NeZero cfg.levels]
    (hx : ∀ k, ∀ l < cfg.levels, x ∉ rows k l) (hk : listOf cfg s x = k) {us vs : ℕ → List X}
    (hcut : ∀ i < cfg.levels, rows k i = us i ++ vs i)
    (hwalk : ∀ fuel, walkRows s (s.timer x).timeoutTick k fuel cfg.levels 0 (.head (k, 0)) =
        .ok ((range' 0 cfg.levels).map fun i => lastNode k i (us i)) ∨
      (walkRows s (s.timer x).timeoutTick k fuel cfg.levels 0 (.head (k, 0)) = .error .diverges ∧
        ∃ i < cfg.levels, fuel ≤ (rows k i).length)) :
    ∃ m s', m < cfg.levels ∧
      Stored cfg s' (fun k' i => if k' = k ∧ m ≤ i then us i ++ x :: vs i else rows k' i) ∧
      s'.timer = (s.setActivated x true).timer ∧ s'.tick = s.tick ∧
      ∀ fuel, startInsert cfg fuel s x = .ok s' ∨ (startInsert cfg fuel s x = .error .diverges ∧
          ∃ i < cfg.levels, fuel ≤ (rows k i).length) := by
  obtain ⟨n, hlast⟩ := Nat.exists_eq_succ_of_ne_zero (NeZero.ne cfg.levels)
  have hcut' : ∀ i ≤ n, rows k i = us i ++ vs i := fun i hi => hcut i (by omega)
  obtain ⟨m, hm, hlink⟩ := linkRows_spec cfg.mask n hst (by omega)
    (fun k l hl => hx k l (by omega)) (s.randomNr + 1) hcut'
  have hinserted : rowLists cfg.levels
        (fun k' i => if k' = k ∧ m ≤ i then us i ++ x :: vs i else rows k' i) =
      rowLists cfg.levels
        fun k' i => if k' = k ∧ m ≤ i ∧ i ≤ n then us i ++ x :: vs i else rows k' i := by
    refine rowLists_congr fun k' i hi => ?_
    by_cases hmi : k' = k ∧ m ≤ i
    · rw [if_pos hmi, if_pos ⟨hmi.1, hmi.2, by omega⟩]
    · rw [if_neg hmi, if_neg fun h => hmi ⟨h.1, h.2.1⟩]
  refine ⟨m, { s with
    links := linkUpper cfg.mask x n ((range n).reverse.map fun i => lastNode k i (us i))
      (s.randomNr + 1) (s.links.insertAfter (lastNode k n (us n)) (.item (x, n)))
    randomNr := s.randomNr + 1 }.setActivated x true, by omega, ?_, rfl, rfl, fun fuel => ?_⟩
  · rw [Stored, hinserted]
    exact hlink
  · -- the search finds the row heads that were used above
    have hheads : ((range' 0 cfg.levels).map fun i => lastNode k i (us i)).reverse =
        lastNode k n (us n) :: (range n).reverse.map fun i => lastNode k i (us i) := by
      rw [hlast, ← range_eq_range', range_succ, ← map_reverse, reverse_append]
      rfl
    rcases hwalk fuel with hok | ⟨herr, hfuel⟩
    · left
      unfold startInsert
      simp only [hk]
      rw [hok, ok_bind, hheads]
      simp only [show cfg.levels - 1 = n by omega]
    · right
      refine ⟨?_, hfuel⟩
      unfold startInsert
      simp only [hk]
      rw [herr, error_bind]

/-! ## Insertion into sorted rows -/

def insertedRows (rows : Bool → ℕ → List X) (k : Bool) (m : ℕ) (p : X → Bool) (x : X) :
    Bool → ℕ → List X :=
  fun k' l => if k' = k ∧ m ≤ l then insertBy p x (rows k l) else rows k' l

/-- The second critical section of `rt_timer_start`. -/
lemma startInsert_spec (hst : Stored cfg s rows) [NeZero cfg.levels]
    (hx : ∀ k, ∀ l < cfg.levels, x ∉ rows k l) (hk : listOf cfg s x = k)
    (hn : Nested cfg.levels r (rows k))
    (hp : ∀ l < cfg.levels, DownClosed r (passed s (s.timer x).timeoutTick) (rows k l)) :
    ∃ m s', m < cfg.levels ∧
      Stored cfg s' (insertedRows rows k m (passed s (s.timer x).timeoutTick) x) ∧
      s'.timer = (s.setActivated x true).timer ∧ s'.tick = s.tick ∧
      ∀ fuel, startInsert cfg fuel s x = .ok s' ∨ (startInsert cfg fuel s x = .error .diverges ∧
          ∃ i < cfg.levels, fuel ≤ (rows k i).length) := by
  have hcut : 0 < cfg.levels → rows k 0 = [] ++ rows k 0 := fun _ => rfl
  obtain ⟨us, vs, hcuts, -, -, hwalk⟩ := walkRows_cut hst hn.sublist (s.timer x).timeoutTick
    cfg.levels (Nat.zero_add _) hcut nofun
  have hheads : (range' 0 cfg.levels).map (fun i =>
        lastNode k i ((rows k i).takeWhile (passed s (s.timer x).timeoutTick))) =
      (range' 0 cfg.levels).map fun i => lastNode k i (us i) := by
    refine map_congr_left fun i hi => ?_
    have hi' : i < cfg.levels := by simpa using hi
    obtain ⟨hrow, hstop⟩ := hcuts i (Nat.zero_le i) hi'
    rw [hstop.takeWhile_eq hrow (hn.sorted i hi') (hp i hi')]
  refine startInsert_cut hst hx hk (fun i _ => takeWhile_append_dropWhile.symm) fun fuel => ?_
  rw [hheads]
  exact hwalk fuel

end Timer
