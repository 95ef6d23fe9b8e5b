import Mathlib.Tactic
import TempSns.Dfs.Cursors

/-!
# Normalization of paths

The loop of `dfs_normalize_path` keeps the walk along the components in the buffer: before every
component, the bytes before the destination are the directories of the stack, each with a `/` behind it.
A first escape from the root takes away the leading `/`, and a second one ends the call with `NULL`.
-/

namespace Dfs

open CString Words Function Walk List

variable {n size : ℕ} {k : Cursors} {below : UInt8} {out rest c t text : List UInt8} {w : Walk}
  {fullpath : ℕ → UInt8} {path : List UInt8} {e : ℕ}

/-! ## Walk in the buffer -/

/-- The directories of the stack, each with a `/` behind it. -/
def Walk.written (w : Walk) : List UInt8 :=
  (if w.escapes = 0 then [slash] else []) ++ w.stack.flatMap (· ++ [slash])

/-- A name of a directory or file. -/
structure Name (c : List UInt8) : Prop where
  ne_nil : c ≠ []
  noSlash : slash ∉ c
  ne_dot : c ≠ [dot]
  ne_dots : c ≠ [dot, dot]

lemma Walk.step_dot : w.step [dot] = w := if_pos rfl

lemma Walk.step_name (hdot : c ≠ [dot]) (hdots : c ≠ [dot, dot]) :
    w.step c = ⟨w.stack ++ [c], w.escapes⟩ := by
  rw [step, if_neg hdot, if_neg hdots]

lemma Walk.step_dots_concat {stack : List (List UInt8)} :
    step ⟨stack ++ [c], e⟩ [dot, dot] = ⟨stack, e⟩ := by
  rw [step, if_neg (by decide), if_pos rfl, dropLast_concat, if_neg (by simp)]

lemma Walk.step_dots_nil : step ⟨[], e⟩ [dot, dot] = ⟨[], e + 1⟩ := rfl

lemma Walk.written_concat {stack : List (List UInt8)} :
    (mk (stack ++ [c]) e).written = (mk stack e).written ++ c ++ [slash] := by
  simp [written]

lemma Walk.written_cases (w : Walk) : w.written = [] ∨ ∃ init, w.written = init ++ [slash] := by
  obtain ⟨stack, e⟩ := w
  rcases eq_nil_or_concat stack with rfl | ⟨stack, c, rfl⟩
  · by_cases he : e = 0
    · exact .inr ⟨[], by simp [written, he]⟩
    · exact .inl (by simp [written, he])
  · rw [concat_eq_append, written_concat]
    exact .inr ⟨_, rfl⟩

/-- The destination moves back over the last directory. -/
lemma backUp_eq (hbytes : ∀ i (hi : i < (out ++ c).length), fullpath i = (out ++ c)[i])
    (hout : out = [] ∨ ∃ init, out = init ++ [slash]) (hc : slash ∉ c) :
    backUp fullpath (out ++ c).length = out.length := by
  induction c using reverseRecOn with
  | nil =>
    rw [append_nil]
    rcases hout with rfl | ⟨init, rfl⟩
    · rfl
    · have hlast : fullpath init.length = slash := by
        rw [hbytes init.length (by simp)]
        simp
      rw [length_append, length_singleton, backUp, if_pos hlast]
  | append_singleton c a ih =>
    have hlast : fullpath (out ++ c).length = a := by
      rw [hbytes (out ++ c).length (by simp)]
      simp [← append_assoc]
    have hne : a ≠ slash := by
      rintro rfl
      exact hc (by simp)
    rw [← append_assoc, length_append, length_singleton, backUp, hlast, if_neg hne]
    refine ih (fun i hi => ?_) fun hmem => hc (mem_append_left _ hmem)
    rw [hbytes i (by rw [length_append] at hi ⊢; simp; omega)]
    simp only [← append_assoc]
    rw [getElem_append_left]

/-- The destination moves back. -/
lemma At.truncate {m : ℕ} (h : At n k (out ++ c) rest) (hm : m = out.length) :
    At n { k with dst := m } out rest where
  bytes := by
    intro i hi
    rw [h.bytes i (by rw [length_append]; omega), getElem_append_left hi]
  dst := hm
  length_le := by
    have hle := h.length_le
    rw [length_append] at hle
    omega
  written_nonzero := fun hmem => h.written_nonzero (mem_append_left _ hmem)
  dst_le := by
    have hle := h.dst_le
    have hdst := h.dst
    rw [length_append] at hdst
    dsimp only
    omega
  ahead := h.ahead
  total := h.total
  nonzero := h.nonzero

/-- The code behind `up_one`: a directory is left, or the leading `/` is taken away, or the function
returns. -/
lemma At.upOne (h : At n k w.written rest) (hescapes : w.escapes ≤ 1)
    (hstack : ∀ c ∈ w.stack, Name c) :
    (∃ k', upOne k = .next k' ∧ At n k' (w.step [dot, dot]).written rest ∧
        (w.step [dot, dot]).escapes ≤ 1) ∨
      upOne k = .null ∧ 1 < (w.step [dot, dot]).escapes := by
  obtain ⟨stack, e⟩ := w
  rw [Dfs.upOne]
  rcases eq_nil_or_concat stack with rfl | ⟨stack, c, rfl⟩
  · rw [Walk.step_dots_nil]
    by_cases he : e = 0
    · -- the leading slash
      subst he
      have hdst : k.dst = 1 := h.dst
      have hroot : At n k ([] ++ [slash]) rest := h
      rw [hdst]
      exact .inl ⟨_, rfl, hroot.truncate rfl, le_rfl⟩
    · have hdst : k.dst = 0 := by rw [h.dst]; simp [Walk.written, he]
      rw [hdst]
      exact .inr ⟨rfl, by dsimp only; omega⟩
  · rw [concat_eq_append] at h hstack ⊢
    rw [Walk.step_dots_concat]
    rw [Walk.written_concat] at h
    have hname := hstack c (by simp)
    have hdst : k.dst = ((Walk.mk stack e).written ++ c).length + 1 := by
      rw [h.dst]
      exact length_append
    have hbytes : ∀ i (hi : i < ((Walk.mk stack e).written ++ c).length),
        k.fullpath i = ((Walk.mk stack e).written ++ c)[i] := by
      intro i hi
      rw [h.bytes i (by rw [length_append]; omega), getElem_append_left hi]
    have hback := backUp_eq hbytes (Walk.written_cases ⟨stack, e⟩) hname.noSlash
    rw [hdst]
    rw [append_assoc] at h
    exact .inl ⟨_, rfl, h.truncate hback, hescapes⟩

/-- The walk that a finished loop shows. -/
def Ends (n : ℕ) (k : Cursors) (w : Walk) : Prop :=
  ∃ out, Written n k out ∧ (out = w.written ∨ w.stack ≠ [] ∧ out ++ [slash] = w.written)

lemma At.round (h : At n k w.written (c ++ t)) (hne : c ≠ []) (hc : slash ∉ c) (ht : Tail t)
    (hescapes : w.escapes ≤ 1) (hstack : ∀ c ∈ w.stack, Name c) :
    (∃ k', round (n + 1) k = .ok (.next k') ∧
        At n k' (w.step c).written (t.dropWhile (· = slash)) ∧ (w.step c).escapes ≤ 1) ∨
      (∃ k', round (n + 1) k = .ok (.finish k') ∧ t = [] ∧ Ends n k' (w.step c) ∧
        (w.step c).escapes ≤ 1) ∨
      round (n + 1) k = .ok .null ∧ 1 < (w.step c).escapes := by
  by_cases hdot : c = [dot]
  · subst hdot
    rw [step_dot]
    rcases ht with rfl | ⟨t', rfl⟩
    · obtain ⟨k', hround, hwritten⟩ := h.round_dot_end
      exact .inr (.inl ⟨k', hround, rfl, ⟨_, hwritten, .inl rfl⟩, hescapes⟩)
    · obtain ⟨k', hround, hat⟩ := h.round_dot_slash
      rw [dropWhile_cons_of_pos (by simp)]
      exact .inl ⟨k', hround, hat, hescapes⟩
  · by_cases hdots : c = [dot, dot]
    · subst hdots
      obtain ⟨src, hround, hat⟩ := h.round_dots ht
      rw [hround]
      rcases hat.upOne hescapes hstack with ⟨k', hup, hat', hle⟩ | ⟨hup, hlt⟩
      · exact .inl ⟨k', by rw [hup], hat', hle⟩
      · exact .inr (.inr ⟨by rw [hup], hlt⟩)
    · obtain ⟨stack, e⟩ := w
      rw [h.round_name hc ht hdot hdots, step_name hdot hdots]
      rcases ht with rfl | ⟨t', rfl⟩
      · rw [append_nil] at h
        obtain ⟨k', hcopy, hwritten⟩ := h.copyRound_end hc
        refine .inr (.inl ⟨k', hcopy, rfl, ⟨_, hwritten, .inr ⟨by simp, ?_⟩⟩, hescapes⟩)
        rw [written_concat]
      · obtain ⟨k', hcopy, hat⟩ := h.copyRound_slash hc
        rw [dropWhile_cons_of_pos (by simp), written_concat]
        exact .inl ⟨k', hcopy, hat, hescapes⟩

/-! ## Loop -/

lemma Walk.escapes_le_step (w : Walk) (c : List UInt8) : w.escapes ≤ (w.step c).escapes := by
  rw [step]
  split_ifs
  · exact le_rfl
  · exact Nat.le_succ _
  · exact le_rfl
  · exact le_rfl

lemma Walk.escapes_le_foldl (cs : List (List UInt8)) (w : Walk) :
    w.escapes ≤ (cs.foldl step w).escapes := by
  induction cs generalizing w with
  | nil => exact le_rfl
  | cons c cs ih => exact (w.escapes_le_step c).trans (ih (w.step c))

lemma Walk.names_step (hstack : ∀ c ∈ w.stack, Name c) (hne : c ≠ []) (hc : slash ∉ c) :
    ∀ d ∈ (w.step c).stack, Name d := by
  intro d hd
  rw [step] at hd
  by_cases hdot : c = [dot]
  · rw [if_pos hdot] at hd
    exact hstack d hd
  · rw [if_neg hdot] at hd
    by_cases hdots : c = [dot, dot]
    · rw [if_pos hdots] at hd
      exact hstack d (mem_of_mem_dropLast hd)
    · rw [if_neg hdots] at hd
      rcases mem_append.mp hd with hd | hd
      · exact hstack d hd
      · rw [mem_singleton.mp hd]
        exact ⟨hne, hc, hdot, hdots⟩

lemma words_of_tail (hne : c ≠ []) (hc : slash ∉ c) (ht : Tail t) :
    words slash (c ++ t) = c :: words slash (t.dropWhile (· = slash)) := by
  rcases ht with rfl | ⟨t', rfl⟩
  · rw [append_nil, words_of_not_mem hc hne]
    rfl
  · rw [words_append hc hne, words_dropWhile, words_cons_sep]

lemma head?_dropWhile_ne (l : List UInt8) : (l.dropWhile (· = slash)).head? ≠ some slash := by
  induction l with
  | nil => nofun
  | cons a l ih =>
    by_cases ha : a = slash
    · rwa [dropWhile_cons_of_pos (by simpa using ha)]
    · rw [dropWhile_cons_of_neg (by simpa using ha)]
      exact fun h => ha (Option.some.inj h)

lemma length_dropWhile_le (l : List UInt8) : (l.dropWhile (· = slash)).length ≤ l.length :=
  (dropWhile_suffix _).length_le

/-- From a component on, the loop follows the walk along the rest of the path. -/
lemma normalizeLoop_eq {fuel : ℕ} (h : At n k w.written rest) (hfuel : rest.length < fuel)
    (hhead : rest.head? ≠ some slash) (hescapes : w.escapes ≤ 1) (hstack : ∀ c ∈ w.stack, Name c) :
    (((words slash rest).foldl step w).escapes ≤ 1 →
        ∃ k', normalizeLoop (n + 1) fuel k = .ok (some k') ∧
          Ends n k' ((words slash rest).foldl step w)) ∧
      (1 < ((words slash rest).foldl step w).escapes →
        normalizeLoop (n + 1) fuel k = .ok none) := by
  induction fuel generalizing k w rest with
  | zero => exact absurd hfuel (Nat.not_lt_zero _)
  | succ fuel ih =>
    obtain ⟨c, t, rfl, hc, ht⟩ := exists_word slash rest
    rw [normalizeLoop]
    by_cases hne : c = []
    · -- the end of the path
      obtain rfl : t = [] := by
        rcases ht with rfl | ⟨t', rfl⟩
        · rfl
        · exact absurd (by rw [hne]; rfl) hhead
      subst hne
      have hround : Dfs.round (n + 1) k = copyRound (n + 1) k :=
        h.round_name hc (.inl rfl) (by decide) (by decide)
      obtain ⟨k', hcopy, hwritten⟩ := h.copyRound_end not_mem_nil
      simp only [append_nil] at hwritten
      rw [hround, hcopy]
      exact ⟨fun _ => ⟨k', rfl, _, hwritten, .inl rfl⟩, fun hlt => absurd hescapes (not_le.mpr hlt)⟩
    · rw [words_of_tail hne hc ht, foldl_cons]
      have hpos := length_pos_of_ne_nil hne
      have hshort := length_dropWhile_le t
      rw [length_append] at hfuel
      rcases h.round hne hc ht hescapes hstack with
        ⟨k', hround, hat, hle⟩ | ⟨k', hround, rfl, hends, hle⟩ | ⟨hround, hlt⟩
      · rw [hround]
        exact ih hat (by omega) (head?_dropWhile_ne t) hle (names_step hstack hne hc)
      · rw [hround]
        exact ⟨fun _ => ⟨k', rfl, hends⟩, fun hlt => absurd hle (not_le.mpr hlt)⟩
      · rw [hround]
        have hmono := escapes_le_foldl (words slash (t.dropWhile (· = slash))) (w.step c)
        exact ⟨fun hle => by omega, fun _ => rfl⟩

lemma Walk.names_foldl {cs : List (List UInt8)} (hcs : ∀ c ∈ cs, c ≠ [] ∧ slash ∉ c)
    (hstack : ∀ c ∈ w.stack, Name c) : ∀ c ∈ (cs.foldl step w).stack, Name c := by
  induction cs generalizing w with
  | nil => exact hstack
  | cons c cs ih =>
    obtain ⟨⟨hne, hc⟩, hrest⟩ := forall_mem_cons.mp hcs
    exact ih hrest (names_step hstack hne hc)

lemma names_walk (path : List UInt8) : ∀ c ∈ (walk path).stack, Name c :=
  names_foldl (fun _ hc => of_mem_words hc) fun _ hc => absurd hc not_mem_nil

lemma normalizeLoop_walk (hpath : text = slash :: path) (htext : 0 ∉ text) :
    ((walk text).escapes ≤ 1 → ∃ k, normalizeLoop (text.length + 1) (text.length + 1)
        ⟨cstr text, 0, 0⟩ = .ok (some k) ∧ Ends text.length k (walk text)) ∧
      (1 < (walk text).escapes →
        normalizeLoop (text.length + 1) (text.length + 1) ⟨cstr text, 0, 0⟩ = .ok none) := by
  have hstart : At text.length ⟨cstr text, 0, 0⟩ [] ([] ++ slash :: path) :=
    { bytes := fun _ hi => absurd hi (Nat.not_lt_zero _)
      dst := rfl
      length_le := Nat.zero_le _
      written_nonzero := not_mem_nil
      dst_le := le_rfl
      ahead := fun i => by rw [Nat.zero_add, nil_append, hpath]
      total := by rw [Nat.zero_add, nil_append, hpath]
      nonzero := by rwa [nil_append, ← hpath] }
  -- the first round copies the leading slash
  obtain ⟨k, hcopy, hat⟩ := hstart.copyRound_slash not_mem_nil
  have hround : Dfs.round (text.length + 1) ⟨cstr text, 0, 0⟩ = .ok (.next k) := by
    rw [hstart.round_name not_mem_nil (.inr ⟨path, rfl⟩) (by decide) (by decide), hcopy]
  have hroot : At text.length k (mk [] 0).written (path.dropWhile (· = slash)) := hat
  have hwalk : (words slash (path.dropWhile (· = slash))).foldl step ⟨[], 0⟩ = walk text := by
    rw [words_dropWhile, walk, hpath, words_cons_sep]
  have hshort := length_dropWhile_le path
  have hfuel : (path.dropWhile (· = slash)).length < text.length := by
    rw [hpath, length_cons]
    omega
  have hloop := normalizeLoop_eq hroot hfuel (head?_dropWhile_ne path) (Nat.zero_le 1)
    fun _ hc => absurd hc not_mem_nil
  rw [hwalk] at hloop
  rw [normalizeLoop, hround]
  exact hloop

/-! ## End of the path -/

/-- The path that is shown for a walk: without the leading `/` after an escape. -/
def Walk.shown (w : Walk) : List UInt8 :=
  if w.escapes = 0 then join slash w.stack else (join slash w.stack).tail

lemma join_append_slash (stack : List (List UInt8)) :
    join slash stack ++ [slash] = slash :: stack.flatMap (· ++ [slash]) := by
  induction stack with
  | nil => rfl
  | cons c stack ih => rw [join_cons, append_assoc, ih, flatMap_cons]; simp

lemma Walk.written_eq (hne : w.stack ≠ []) : w.written = w.shown ++ [slash] := by
  rw [written, shown]
  have hjoin := join_append_slash w.stack
  split
  case isTrue => rw [hjoin]; rfl
  case isFalse =>
    obtain ⟨c, stack, hstack⟩ := exists_cons_of_ne_nil hne
    rw [hstack] at hjoin ⊢
    rw [join_cons, cons_append, cons_append] at hjoin
    rw [join_cons, cons_append, tail_cons, (cons.inj hjoin).2]
    rfl

lemma Walk.shown_concat (hne : w.stack ≠ []) (hstack : ∀ c ∈ w.stack, Name c) :
    ∃ init a, w.shown = init ++ [a] ∧ a ≠ slash := by
  obtain ⟨stack, c, hconcat⟩ := (eq_nil_or_concat w.stack).resolve_left hne
  rw [concat_eq_append] at hconcat
  have hname := hstack c (by rw [hconcat]; simp)
  obtain ⟨c', a, rfl⟩ := (eq_nil_or_concat c).resolve_left hname.ne_nil
  rw [concat_eq_append] at hconcat hname
  have hjoin : join slash w.stack = (join slash stack ++ slash :: c') ++ [a] := by
    rw [hconcat]
    simp [join]
  have ha : a ≠ slash := by
    rintro rfl
    exact hname.noSlash (by simp)
  rw [shown, hjoin]
  split
  case isTrue => exact ⟨_, a, rfl, ha⟩
  case isFalse => exact ⟨_, a, tail_append_of_ne_nil (by simp), ha⟩

lemma textOf_eq (hbytes : ∀ i (hi : i < out.length), fullpath i = out[i])
    (hend : fullpath out.length = 0) (hlen : out.length < size) (hout : 0 ∉ out) :
    textOf size fullpath = out := by
  have hmap : (range out.length).map fullpath = out :=
    ext_getElem (by simp) fun i hi hi' => by simp [hbytes i hi']
  have hplain : ∀ a ∈ out, decide (a ≠ 0) = true := by
    intro a ha
    exact decide_eq_true fun hzero => hout (hzero ▸ ha)
  obtain ⟨m, rfl⟩ := Nat.exists_eq_add_of_lt hlen
  rw [textOf, Nat.add_right_comm, range_add, range_succ, map_append, map_append,
    hmap, map_singleton, hend, append_assoc, takeWhile_append_of_pos hplain,
    singleton_append, takeWhile_cons_of_neg (by simp), append_nil]

lemma textOf_rootIfEmpty
    (hbytes : ∀ i (hi : i < out.length), fullpath i = out[i]) (hend : fullpath out.length = 0)
    (hlen : out.length < size) (hout : 0 ∉ out) (hne : out ≠ []) :
    textOf size (rootIfEmpty fullpath) = out := by
  have hpos := length_pos_of_ne_nil hne
  have hfirst : fullpath 0 ≠ 0 := by
    rw [hbytes 0 hpos]
    exact fun hzero => hout (hzero ▸ getElem_mem hpos)
  rw [rootIfEmpty, if_neg hfirst, textOf_eq hbytes hend hlen hout]

/-- The bytes of a finished path, with the NUL behind it. -/
lemma Written.terminated (h : Written n k out) :
    (∀ i (hi : i < out.length), update k.fullpath k.dst 0 i = out[i]) ∧
      update k.fullpath k.dst 0 out.length = 0 := by
  rw [h.dst]
  refine ⟨fun i hi => ?_, update_self ..⟩
  rw [update_of_ne hi.ne, h.bytes i hi]

def finishText (n : ℕ) (below : UInt8) (k : Cursors) : Except Fault (Option (List UInt8)) :=
  (trimSlash below (update k.fullpath k.dst 0) k.dst).map fun fullpath =>
    some (textOf (n + 1) (rootIfEmpty fullpath))

/-- A path that is not the root loses its trailing slash. -/
lemma Ends.finishText_stack (h : Ends n k w) (hne : w.stack ≠ [])
    (hstack : ∀ c ∈ w.stack, Name c) : finishText n below k = .ok (some w.shown) := by
  obtain ⟨out, hout, hends⟩ := h
  obtain ⟨init, a, hshown, ha⟩ := w.shown_concat hne hstack
  have hwritten := w.written_eq hne
  have hpos : w.shown ≠ [] := by rw [hshown]; simp
  obtain ⟨hbytes, hend⟩ := hout.terminated
  have hnonzero := hout.written_nonzero
  have hlen := hout.length_le
  have hdst := hout.dst
  rw [finishText]
  rcases hends with rfl | ⟨-, hends⟩
  · -- the slash behind the last directory
    rw [hwritten] at hbytes hnonzero hlen hdst
    rw [length_append, length_singleton] at hlen hdst
    have hlast : update k.fullpath k.dst 0 w.shown.length = slash := by
      rw [hbytes w.shown.length (by simp)]
      simp
    have htrim : trimSlash below (update k.fullpath k.dst 0) k.dst =
        .ok (update (update k.fullpath k.dst 0) w.shown.length 0) := by
      nth_rewrite 2 [hdst]
      rw [trimSlash, if_pos ⟨by simpa using hpos, hlast⟩]
    rw [htrim]
    refine congrArg (fun text => Except.ok (some text)) ?_
    refine textOf_rootIfEmpty (fun i hi => ?_) (update_self ..) (by omega)
      (fun hmem => hnonzero (mem_append_left _ hmem)) hpos
    rw [update_of_ne hi.ne, hbytes i (by simp; omega), getElem_append_left hi]
  · -- the last name has no slash behind it
    obtain rfl : out = w.shown := by
      rw [hwritten] at hends
      exact (append_inj' hends rfl).1
    have hlast : update k.fullpath k.dst 0 init.length = a := by
      rw [hbytes init.length (by rw [hshown]; simp)]
      simp [hshown]
    have htrim : trimSlash below (update k.fullpath k.dst 0) k.dst =
        .ok (update k.fullpath k.dst 0) := by
      have hdst' : k.dst = init.length + 1 := by rw [hdst, hshown]; simp
      nth_rewrite 2 [hdst']
      rw [trimSlash, if_neg fun hand => ha (hlast ▸ hand.2)]
    rw [htrim]
    refine congrArg (fun text => Except.ok (some text)) ?_
    exact textOf_rootIfEmpty hbytes hend (by omega) hnonzero hpos

lemma Ends.finishText_root (h : Ends n k w) (hnil : w.stack = []) (hn : 0 < n) :
    finishText n below k =
      if w.escapes ≠ 0 ∧ below = slash then .error .badIndex else .ok (some [slash]) := by
  obtain ⟨out, hout, hends⟩ := h
  obtain rfl : out = w.written := hends.resolve_right fun hand => hand.1 hnil
  obtain ⟨hbytes, hend⟩ := hout.terminated
  have hdst := hout.dst
  rw [finishText]
  by_cases he : w.escapes = 0
  · -- the leading slash is kept
    have hwritten : w.written = [slash] := by rw [written, hnil, if_pos he]; rfl
    rw [hwritten] at hbytes hend hdst
    have htrim : trimSlash below (update k.fullpath k.dst 0) k.dst =
        .ok (update k.fullpath k.dst 0) := by
      nth_rewrite 2 [hdst]
      rfl
    rw [htrim, if_neg fun hand => hand.1 he]
    refine congrArg (fun text => Except.ok (some text)) ?_
    exact textOf_rootIfEmpty hbytes hend (Nat.succ_lt_succ hn) (by decide) (by simp)
  · -- the destination is at the start of the buffer
    have hwritten : w.written = [] := by rw [written, hnil, if_neg he]; rfl
    rw [hwritten, length_nil] at hdst hend
    have htrim : trimSlash below (update k.fullpath k.dst 0) k.dst =
        if below = slash then .error .badIndex else .ok (update k.fullpath k.dst 0) := by
      nth_rewrite 2 [hdst]
      rfl
    rw [htrim]
    by_cases hbelow : below = slash
    · rw [if_pos hbelow, if_pos ⟨he, hbelow⟩]
      rfl
    · rw [if_neg hbelow, if_neg fun hand => hbelow hand.2]
      refine congrArg (fun text => Except.ok (some text)) ?_
      rw [rootIfEmpty, if_pos hend]
      refine textOf_eq (fun i hi => ?_) (update_self ..) (Nat.succ_lt_succ hn) (by decide)
      obtain rfl : i = 0 := Nat.lt_one_iff.mp hi
      rfl

lemma normalizeText_eq (hpath : text = slash :: path) (htext : 0 ∉ text) :
    normalizeText below text =
      if 1 < (walk text).escapes then .ok none
      else if (walk text).stack ≠ [] then .ok (some (walk text).shown)
      else if (walk text).escapes ≠ 0 ∧ below = slash then .error .badIndex
      else .ok (some [slash]) := by
  obtain ⟨hends, hnull⟩ := normalizeLoop_walk hpath htext
  rw [normalizeText]
  by_cases hlt : 1 < (walk text).escapes
  · rw [hnull hlt, if_pos hlt]
    rfl
  · obtain ⟨k, hloop, hk⟩ := hends (not_lt.mp hlt)
    rw [hloop, if_neg hlt]
    change finishText text.length below k = _
    by_cases hnil : (walk text).stack = []
    · rw [if_neg (not_not.mpr hnil)]
      exact hk.finishText_root hnil (by rw [hpath]; exact Nat.succ_pos _)
    · rw [if_pos hnil]
      exact hk.finishText_stack hnil (names_walk text)

/-! ## Canonical paths -/

variable {stack : List (List UInt8)}

lemma splitOn_join (hstack : ∀ d ∈ c :: stack, Name d) :
    (c ++ join slash stack).splitOn slash = c :: stack := by
  induction stack generalizing c with
  | nil => rw [join_nil, append_nil, splitOn_eq_singleton (hstack c (by simp)).noSlash]
  | cons d stack ih =>
    obtain ⟨hc, hrest⟩ := forall_mem_cons.mp hstack
    rw [join_cons, cons_append, splitOn_append_cons_self_of_not_mem hc.noSlash, ih hrest]

lemma canonical_render (hstack : ∀ c ∈ stack, Name c) : Canonical (render stack) := by
  rw [render]
  split
  case isTrue => exact ⟨rfl, fun h => absurd rfl h, fun h => absurd rfl h⟩
  case isFalse hne =>
    obtain ⟨init, a, hshown, ha⟩ := shown_concat (w := ⟨stack, 0⟩) hne hstack
    have hjoin : join slash stack = init ++ [a] := hshown
    obtain ⟨c, stack, rfl⟩ := exists_cons_of_ne_nil hne
    refine ⟨rfl, fun _ => ?_, fun _ => ?_⟩
    · rw [hjoin, getLast?_concat]
      exact fun h => ha (Option.some.inj h)
    · rw [join_cons, cons_append, tail_cons, splitOn_join hstack]
      intro d hd
      exact ⟨(hstack d hd).ne_nil, (hstack d hd).ne_dot, (hstack d hd).ne_dots⟩

lemma walk_render (hstack : ∀ c ∈ stack, Name c) : walk (render stack) = ⟨stack, 0⟩ := by
  have hwords : words slash (render stack) = stack := by
    rw [render]
    split
    case isTrue hnil => rw [hnil]; rfl
    case isFalse => exact words_join fun c hc => ⟨(hstack c hc).ne_nil, (hstack c hc).noSlash⟩
  rw [walk, hwords]
  have hfold : ∀ pre : List (List UInt8), stack.foldl step ⟨pre, 0⟩ = ⟨pre ++ stack, 0⟩ := by
    clear hwords
    induction stack with
    | nil => intro pre; rw [append_nil]; rfl
    | cons c stack ih =>
      obtain ⟨hc, hrest⟩ := forall_mem_cons.mp hstack
      intro pre
      rw [foldl_cons, step_name hc.ne_dot hc.ne_dots, ih hrest, append_assoc]
      rfl
  exact hfold []

lemma head_render (stack : List (List UInt8)) : ∃ path, render stack = slash :: path := by
  rw [render]
  split
  case isTrue => exact ⟨[], rfl⟩
  case isFalse hne =>
    obtain ⟨c, stack, rfl⟩ := exists_cons_of_ne_nil hne
    exact ⟨_, rfl⟩

lemma normalizeText_render (hstack : ∀ c ∈ stack, Name c) (hzero : 0 ∉ render stack) :
    normalizeText below (render stack) = .ok (some (render stack)) := by
  obtain ⟨path, hpath⟩ := head_render stack
  rw [normalizeText_eq hpath hzero, walk_render hstack, if_neg (by simp)]
  by_cases hne : stack = []
  · subst hne
    rfl
  · rw [if_pos hne, shown, if_pos rfl, render, if_neg hne]

lemma fullText_absolute (directory : AbsolutePath) (filename : PathText) :
    ∃ path, fullText directory filename = slash :: path := by
  rw [fullText]
  split
  case isTrue =>
    obtain ⟨c, path, hchars⟩ := exists_cons_of_ne_nil
      (fun hnil : directory.chars = [] => by simpa [hnil] using directory.absolute)
    have habs := directory.absolute
    rw [hchars] at habs ⊢
    obtain rfl : c = slash := Option.some.inj habs
    exact ⟨_, rfl⟩
  case isFalse hhead =>
    have habs := not_not.mp hhead
    cases hchars : filename.chars with
    | nil => simp [hchars] at habs
    | cons c path =>
      rw [hchars] at habs
      obtain rfl : c = slash := Option.some.inj habs
      exact ⟨path, rfl⟩

lemma zero_not_mem_fullText (directory : AbsolutePath) (filename : PathText) :
    0 ∉ fullText directory filename := by
  rw [fullText]
  split
  case isTrue =>
    intro hmem
    rcases mem_append.mp hmem with hmem | hmem
    · exact directory.nonzero hmem
    · rcases mem_cons.mp hmem with hzero | hmem
      · exact absurd hzero (by decide)
      · exact filename.nonzero hmem
  case isFalse => exact filename.nonzero

lemma render_ok (hstack : ∀ c ∈ stack, Name c) : Canonical (render stack) ∧
    ∀ (below : UInt8) (workingDirectory : AbsolutePath) (directory : Option AbsolutePath)
      (filename : PathText), filename.chars = render stack →
      dfsNormalizePath true below workingDirectory directory filename = .ok (some (render stack)) := by
  refine ⟨canonical_render hstack, fun below workingDirectory directory filename hchars => ?_⟩
  obtain ⟨path, hpath⟩ := head_render stack
  have hfull : fullText (directory.getD workingDirectory) filename = render stack := by
    rw [fullText, hchars, hpath, if_neg (by simp)]
  rw [dfsNormalizePath, if_pos rfl, hfull]
  exact normalizeText_render hstack (hchars ▸ filename.nonzero)

lemma Walk.head?_shown (hescapes : w.escapes ≠ 0) (hne : w.stack ≠ [])
    (hstack : ∀ c ∈ w.stack, Name c) : w.shown.head? ≠ some slash := by
  obtain ⟨c, stack, hcons⟩ := exists_cons_of_ne_nil hne
  have hname := hstack c (by rw [hcons]; simp)
  rw [shown, if_neg hescapes, hcons, join_cons, cons_append, tail_cons]
  cases c with
  | nil => exact absurd rfl hname.ne_nil
  | cons a c =>
    intro hhead
    obtain rfl : a = slash := Option.some.inj hhead
    exact hname.noSlash mem_cons_self

/-- A call returns `NULL` or the canonical path of the components iff the path does not
escape from the root exactly once, except that the root itself is returned if the byte below the block is
not a slash. -/
theorem normalizeOk_iff (alloc : Bool) (below : UInt8) (workingDirectory : AbsolutePath)
    (directory : Option AbsolutePath) (filename : PathText) :
    NormalizeOk alloc below workingDirectory directory filename ↔
      alloc = false ∨ (walk (fullText (directory.getD workingDirectory) filename)).escapes ≠ 1 ∨
        (walk (fullText (directory.getD workingDirectory) filename)).stack = [] ∧ below ≠ slash := by
  have hzero := zero_not_mem_fullText (directory.getD workingDirectory) filename
  obtain ⟨path, hpath⟩ := fullText_absolute (directory.getD workingDirectory) filename
  rw [NormalizeOk, dfsNormalizePath]
  generalize fullText (directory.getD workingDirectory) filename = text at hzero hpath ⊢
  have hnames := names_walk text
  cases alloc with
  | false => exact iff_of_true ⟨none, rfl, nofun⟩ (.inl rfl)
  | true =>
    rw [if_pos rfl, normalizeText_eq hpath hzero]
    constructor
    · rintro ⟨result, hresult, hok⟩
      by_contra hcond
      obtain ⟨hescapes, hroot⟩ := not_or.mp (not_or.mp hcond).2
      rw [if_neg (by omega)] at hresult
      by_cases hnil : (walk text).stack = []
      · -- the byte below the block is overwritten
        have hbelow := not_not.mp fun hne => hroot ⟨hnil, hne⟩
        rw [if_neg (not_not.mpr hnil), if_pos ⟨by omega, hbelow⟩] at hresult
        exact nomatch hresult
      · -- the leading slash is missing
        rw [if_pos hnil] at hresult
        have hcanonical := (hok _ (Except.ok.inj hresult).symm).1
        exact head?_shown (by omega) hnil hnames hcanonical.absolute
    · intro hcond
      by_cases hmany : 1 < (walk text).escapes
      · exact ⟨none, if_pos hmany, nofun⟩
      · -- the path of the stack is returned
        refine ⟨some (render (walk text).stack), ?_, ?_⟩
        · rw [if_neg hmany, render]
          by_cases hnil : (walk text).stack = []
          · rw [if_neg (not_not.mpr hnil), if_pos hnil, if_neg]
            rintro ⟨hescapes, hbelow⟩
            rcases hcond with hfalse | hne | ⟨-, hne⟩
            · exact nomatch hfalse
            · omega
            · exact hne hbelow
          · rw [if_pos hnil, if_neg hnil, shown, if_pos]
            rcases hcond with hfalse | hne | ⟨hnil', -⟩
            · exact nomatch hfalse
            · omega
            · exact absurd hnil' hnil
        · rintro path' hpath'
          obtain rfl := Option.some.inj hpath'
          obtain ⟨hcanonical, hagain⟩ := render_ok hnames
          exact ⟨hcanonical, rfl, hagain⟩

lemma zero_notMem_slash : 0 ∉ [slash] := by decide

def root : AbsolutePath := ⟨⟨[slash], zero_notMem_slash⟩, rfl⟩

/-- In the root directory, the name `../a` gives the path `a`, which is not absolute. -/
theorem not_normalizeOk_escape :
    ¬ NormalizeOk true 0 root none ⟨[dot, dot, slash, 0x61], by decide⟩ := by
  rintro ⟨result, hresult, hok⟩
  obtain rfl : some [0x61] = result := Except.ok.inj hresult
  exact absurd (hok [0x61] rfl).1.absolute (by decide)

end Dfs
