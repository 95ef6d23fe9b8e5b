import Mathlib.Data.List.Destutter
import TempSns.Finsh.LineEditor

/-!
# The history of the shell

As long as no line reaches the size of the buffer, the history has the last lines that were entered and
not empty, without those that repeat the line before. After a line is entered, the up and down keys go
through exactly these lines and stop at both ends.
-/

namespace Finsh

open CString List

/-! ## Lines that are kept -/

section Destutter

variable {α : Type*} [DecidableEq α] (l : List α) (t : α)

/-- A further element is kept if it is not the last one again. -/
lemma destutter'_concat (a : α) : (l ++ [t]).destutter' (· ≠ ·) a =
    if (l.destutter' (· ≠ ·) a).getLast? = some t then l.destutter' (· ≠ ·) a
    else l.destutter' (· ≠ ·) a ++ [t] := by
  induction l generalizing a with
  | nil => by_cases h : a = t <;> simp [h]
  | cons b l ih =>
    by_cases h : a = b
    · rw [cons_append, destutter'_cons_neg _ (by simpa using h),
        destutter'_cons_neg _ (by simpa using h), ih]
    · rw [cons_append, destutter'_cons_pos _ h, destutter'_cons_pos _ h, ih]
      -- the kept part of the rest is not empty, so it has the last element
      obtain ⟨x, kept, hkept⟩ := exists_cons_of_ne_nil (l.destutter'_ne_nil (· ≠ ·) (a := b))
      rw [hkept, getLast?_cons_cons]
      split <;> rfl

lemma destutter_concat : (l ++ [t]).destutter (· ≠ ·) =
    if (l.destutter (· ≠ ·)).getLast? = some t then l.destutter (· ≠ ·)
    else l.destutter (· ≠ ·) ++ [t] := by
  cases l with
  | nil => simp
  | cons a l => exact destutter'_concat l t a

end Destutter

variable {table : SyscallTable} {keys : List Key} {e : Editor}

/-- The lines that were entered and not empty, without those that repeat the line before. -/
def Editor.lines (e : Editor) : List (List UInt8) :=
  (e.executed.filter (· ≠ [])).destutter (· ≠ ·)

/-- The last `FINSH_HISTORY_LINES` of them. -/
def Editor.lastLines (e : Editor) : List (List UInt8) :=
  e.lines.drop (e.lines.length - finshHistoryLines)

/-- Only the end of a line changes the history. -/
lemma Editor.key_frame (e : Editor) (table : SyscallTable) {key : Key} (hkey : ∀ ch, key ≠ .enter ch) :
    (e.key table key).history = e.history ∧ (e.key table key).executed = e.executed := by
  cases key with
  | enter ch => exact absurd rfl (hkey ch)
  | _ => rw [Editor.key]; first | exact ⟨rfl, rfl⟩ | split <;> exact ⟨rfl, rfl⟩

lemma Editor.lines_enter (ch : {ch // IsEnter ch}) : (e.key table (.enter ch)).lines =
    if e.text = [] ∨ e.lines.getLast? = some e.text then e.lines else e.lines ++ [e.text] := by
  change ((e.executed ++ [e.text]).filter (· ≠ [])).destutter (· ≠ ·) = _
  rw [filter_append]
  by_cases hnil : e.text = []
  · simp [hnil, Editor.lines]
  · have hkeep : [e.text].filter (· ≠ []) = [e.text] := by simp [hnil]
    rw [hkeep, destutter_concat]
    simp only [hnil, false_or]
    rfl

lemma Editor.history_eq (table : SyscallTable) (keys : List Key) :
    (Editor.keys table keys).history = (Editor.keys table keys).lastLines := by
  induction keys using reverseRecOn with
  | nil => rfl
  | append_singleton keys key ih =>
    rw [Editor.keys_append]
    generalize Editor.keys table keys = e at ih
    by_cases hkey : ∀ ch, key ≠ .enter ch
    · obtain ⟨hhistory, hexecuted⟩ := e.key_frame table hkey
      rw [hhistory, ih, Editor.lastLines, Editor.lastLines, Editor.lines, Editor.lines, hexecuted]
    · obtain ⟨ch, rfl⟩ := not_forall_not.mp hkey
      have hlines : finshHistoryLines = 5 := rfl
      have hlast : e.history.getLast? = e.lines.getLast? := by
        rw [ih, Editor.lastLines, getLast?_drop]
        split
        case isTrue hle =>
          have hnil : e.lines = [] := length_eq_zero_iff.mp (by omega)
          rw [hnil, getLast?_nil]
        case isFalse => rfl
      rw [Editor.lastLines, Editor.lines_enter]
      change e.pushed = _
      rw [Editor.pushed, hlast]
      split
      case isTrue => exact ih
      case isFalse =>
        rw [ih, Editor.lastLines, length_drop, length_append, length_singleton,
          ← drop_append_of_le_length (Nat.sub_le _ _), drop_drop]
        congr 1
        omega

/-! ## Keys of the history -/

/-- The up and the down key. -/
inductive Browse
  | up
  | down

def Browse.key : Browse → Key
  | up => .up
  | down => .down

/-- The position in a history of `n` lines after a key. -/
def Browse.move (n i : ℕ) : Browse → ℕ
  | up => i - 1
  | down => min (i + 1) (n - 1)

/-- The position after some keys, from the end of the history. -/
def position (n : ℕ) (browses : List Browse) : ℕ := browses.foldl (Browse.move n) n

/-- The editor `e'` stands at the line `i` of the history of `e`. It shows the line if there is one and
it has moved. -/
structure Browsing (e e' : Editor) (i : ℕ) (moved : Prop) : Prop where
  history : e'.history = e.history
  executed : e'.executed = e.executed
  index : e'.index = i
  index_le : i ≤ e.history.length
  shown : moved → e.history ≠ [] → e.history[i]? = some e'.text

lemma Browsing.recallText {e' : Editor} {i j : ℕ} {moved : Prop} (h : Browsing e e' i moved)
    (hj : j < e.history.length) : Browsing e (e'.recallText j) j True := by
  refine ⟨h.history, h.executed, rfl, hj.le, fun _ _ => ?_⟩
  change _ = some (e'.history.getD j [] ++ [])
  rw [h.history, append_nil, getD_eq_getElem _ _ hj, getElem?_eq_getElem hj]

/-- A key moves by one line, and stops at both ends. -/
lemma Browsing.key {e' : Editor} {i : ℕ} {moved : Prop} (h : Browsing e e' i moved)
    (table : SyscallTable) (hmoved : ¬ moved → i = e.history.length) (b : Browse) :
    Browsing e (e'.key table b.key) (b.move e.history.length i) True := by
  have hle := h.index_le
  have hstay (hshown : e.history ≠ [] → moved) : Browsing e e' i True :=
    { h with shown := fun _ hne => h.shown (hshown hne) hne }
  cases b with
  | up =>
    change Browsing e (if e'.index = 0 then e' else e'.recallText (e'.index - 1)) (i - 1) True
    rw [h.index]
    split
    case isTrue hzero =>
      subst hzero
      refine hstay fun hne => ?_
      by_contra hnot
      exact hne (length_eq_zero_iff.mp (hmoved hnot).symm)
    case isFalse hpos => exact h.recallText (by omega)
  | down =>
    change Browsing e (if e'.history = [] then e'
      else e'.recallText (min (e'.index + 1) (e'.history.length - 1)))
      (min (i + 1) (e.history.length - 1)) True
    rw [h.history, h.index]
    split
    case isTrue hnil =>
      have hzero : min (i + 1) (e.history.length - 1) = i := by
        simp only [hnil, length_nil] at hle ⊢
        omega
      rw [hzero]
      exact hstay fun hne => absurd hnil hne
    case isFalse hne =>
      have hpos := length_pos_of_ne_nil hne
      exact h.recallText (by omega)

lemma browsing (table : SyscallTable) (keys : List Key) (ch : {ch // IsEnter ch})
    (browses : List Browse) :
    Browsing (Editor.keys table (keys ++ [.enter ch]))
      (Editor.keys table (keys ++ [.enter ch] ++ browses.map Browse.key))
      (position (Editor.keys table (keys ++ [.enter ch])).history.length browses) (browses ≠ []) := by
  have hindex : (Editor.keys table (keys ++ [.enter ch])).index =
      (Editor.keys table (keys ++ [.enter ch])).history.length := by
    rw [Editor.keys_append]
    rfl
  induction browses using reverseRecOn with
  | nil =>
    rw [map_nil, append_nil]
    exact ⟨rfl, rfl, hindex, le_rfl, fun hnil => absurd rfl hnil⟩
  | append_singleton browses b ih =>
    have hkey := ih.key table (fun hnil => by rw [not_not.mp hnil]; rfl) b
    rw [← Editor.keys_append] at hkey
    rw [map_append, ← append_assoc, position, foldl_append]
    exact { hkey with shown := fun _ => hkey.shown trivial }

lemma linesFit_browses (hfit : LinesFit table keys) (ch : {ch // IsEnter ch})
    (browses : List Browse) :
    LinesFit table (keys ++ [.enter ch] ++ browses.map Browse.key) := by
  induction browses using reverseRecOn with
  | nil =>
    rw [map_nil, append_nil]
    exact (linesFit_append (.enter ch)).mpr ⟨hfit, trivial⟩
  | append_singleton browses b ih =>
    rw [map_append, ← append_assoc]
    refine (linesFit_append _).mpr ⟨ih, ?_⟩
    cases b <;> trivial

instance (table : SyscallTable) (e : Editor) : DecidablePred (Editor.Fits table e)
  | .char _ => inferInstanceAs (Decidable (_ < _))
  | .tab => inferInstanceAs (Decidable (_ → _))
  | .up | .down | .left | .right | .backspace _ | .enter _ => isTrue trivial

lemma linesFit_of_take (h : ∀ n (hn : n < keys.length),
    (Editor.keys table (keys.take n)).Fits table keys[n]) : LinesFit table keys := by
  rintro keys₁ key keys₂ rfl
  simpa using h keys₁.length (by simp)

/-- Keys of which no line reaches the size of the buffer. -/
structure Typing (table : SyscallTable) where
  keys : List Key
  /-- Each key leaves its line shorter than the buffer. -/
  fits : LinesFit table keys

/-- What the shell keeps after some lines, of which `e` is the ideal editor: the commands were executed,
the history has the last ones, and the browsing keys `browses` show them. -/
structure HistoryOk (s : Shell) (e : Editor) (browses : List Browse) : Prop where
  /-- Each command was called with its text and length. -/
  executed : s.executed = e.executed.map fun text => mshCall (cstr text) text.length
  count : s.historyCount = e.lastLines.length
  /-- The rows of the history are the last lines in order. -/
  rows : ∀ i (hi : i < e.lastLines.length), s.cmdHistory i = cstr e.lastLines[i]
  index : s.currentHistory = position e.lastLines.length browses
  range : s.currentHistory ≤ s.historyCount
  /-- After a browsing key the line is the entry of the index. -/
  shown : browses ≠ [] → e.lastLines ≠ [] →
    ∃ hi : s.currentHistory < e.lastLines.length, s.line = cstr e.lastLines[s.currentHistory]

/-- After lines that fit, the history holds the last `FINSH_HISTORY_LINES` lines that are not empty and
no repetitions, and the up and down keys step through exactly these. -/
theorem history_browse (table : SyscallTable) (t : Typing table) (ch : {ch // IsEnter ch})
    (browses : List Browse) :
    ∃ s, finshThreadEntry table
        ((t.keys ++ [Key.enter ch] ++ browses.map Browse.key).flatMap Key.bytes) = .ok s ∧
      HistoryOk s (Editor.keys table (t.keys ++ [Key.enter ch])) browses := by
  obtain ⟨s, hs, hshows⟩ := shows_of_linesFit (linesFit_browses t.fits ch browses)
  obtain ⟨hhistory, hexecuted, hindex, hle, hshown⟩ :=
    browsing table t.keys ch browses
  have hlast := Editor.history_eq table (t.keys ++ [.enter ch])
  generalize Editor.keys table (t.keys ++ [.enter ch]) = e at *
  generalize Editor.keys table (t.keys ++ [.enter ch] ++ browses.map Browse.key) = e' at *
  have hrows := hshows.rows
  have hcount := hshows.count
  have hcurrent := hshows.index.trans hindex
  rw [hhistory, hlast] at hrows hcount
  rw [hlast] at hcurrent hshown hle
  rw [← hcurrent] at hshown hle
  refine ⟨s, hs, ?_, hcount, hrows, hcurrent, hle.trans hcount.ge, fun hne hsome => ?_⟩
  · rw [hshows.executed, hexecuted]
  · obtain ⟨hi, hline⟩ := List.getElem?_eq_some_iff.mp (hshown hne hsome)
    exact ⟨hi, by rw [hshows.line, hline]⟩

/-- Eight lines, the last one without its end: `c`, an empty one, `d` twice, `e`, `f`, `g` and `h`. -/
def eightLines : List Key :=
  let enter : Key := .enter ⟨0x0a, by decide⟩
  [.char ⟨0x63, by decide⟩, enter, enter, .char ⟨0x64, by decide⟩, enter, .char ⟨0x64, by decide⟩,
    enter, .char ⟨0x65, by decide⟩, enter, .char ⟨0x66, by decide⟩, enter, .char ⟨0x67, by decide⟩,
    enter, .char ⟨0x68, by decide⟩]

/-- The history has the lines `d` to `h`, and after two up keys and a down key it shows the last one. -/
theorem history_browse_eight : ∃ s, finshThreadEntry ⟨[], nofun⟩ ((eightLines ++
        [Key.enter ⟨0x0d, by decide⟩] ++ [Browse.up, .up, .down].map Browse.key).flatMap Key.bytes) =
      .ok s ∧ s.historyCount = 5 ∧ s.currentHistory = 4 ∧
      HistoryOk s (Editor.keys ⟨[], nofun⟩ (eightLines ++ [Key.enter ⟨0x0d, by decide⟩]))
        [.up, .up, .down] := by
  have hfit : LinesFit ⟨[], nofun⟩ eightLines := linesFit_of_take (by decide)
  obtain ⟨s, hs, hok⟩ :=
    history_browse ⟨[], nofun⟩ ⟨eightLines, hfit⟩ ⟨0x0d, by decide⟩ [.up, .up, .down]
  have hcount : (Editor.keys ⟨[], nofun⟩ (eightLines ++ [Key.enter ⟨0x0d, by decide⟩])).lastLines.length
      = 5 := by decide
  have hindex := hok.index.trans (congrArg (position · [.up, .up, .down]) hcount)
  exact ⟨s, hs, hok.count.trans hcount, hindex, hok⟩

end Finsh
