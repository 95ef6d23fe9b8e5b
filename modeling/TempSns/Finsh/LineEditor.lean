import TempSns.Finsh.Shell

/-!
# The line editor of the shell

`Editor` is the ideal editor: a text with a cursor and a list of earlier commands. The shell works like
it as long as every line is shorter than the buffer. When a line reaches the size of the buffer, the
positions are reset but the bytes stay, and they come back behind the text of the next line.
-/

namespace Finsh

open CString List

/-! ## Ideal editor -/

/-- A text with a cursor, and the earlier commands. -/
structure Editor where
  before : List UInt8
  after : List UInt8
  /-- The last commands, the oldest first. -/
  history : List (List UInt8)
  /-- The command that was recalled last. -/
  index : ℕ
  executed : List (List UInt8)

namespace Editor

/-- The editor before the first key. -/
def init : Editor := ⟨[], [], [], 0, []⟩

def text (e : Editor) : List UInt8 := e.before ++ e.after

def setText (e : Editor) (text : List UInt8) : Editor := { e with before := text, after := [] }

/-- The commands after the text is entered: an empty line and a repetition are not kept. -/
def pushed (e : Editor) : List (List UInt8) :=
  if e.text = [] ∨ e.history.getLast? = some e.text then e.history
  else (e.history ++ [e.text]).drop (e.history.length + 1 - finshHistoryLines)

/-- An earlier command becomes the text. -/
def recallText (e : Editor) (i : ℕ) : Editor := { e.setText (e.history.getD i []) with index := i }

def key (table : SyscallTable) (e : Editor) : Key → Editor
  | .char ch =>
    if e.text.length + 1 < finshCmdSize then { e with before := e.before ++ [ch.1] }
    -- the line is too long and discarded
    else e.setText []
  | .up => if e.index = 0 then e else e.recallText (e.index - 1)
  | .down => if e.history = [] then e else e.recallText (min (e.index + 1) (e.history.length - 1))
  | .left =>
    match e.before.getLast? with
    | some c => { e with before := e.before.dropLast, after := c :: e.after }
    | none => e
  | .right =>
    match e.after with
    | c :: after => { e with before := e.before ++ [c], after }
    | [] => e
  | .backspace _ => { e with before := e.before.dropLast }
  | .tab => e.setText (if e.text = [] then [] else table.complete e.text)
  | .enter _ => ⟨[], [], e.pushed, e.pushed.length, e.executed ++ [e.text]⟩

def keys (table : SyscallTable) (keys : List Key) : Editor := keys.foldl (key table) init

/-- The key leaves the line shorter than the buffer. -/
def Fits (table : SyscallTable) (e : Editor) : Key → Prop
  | .char _ => e.text.length + 1 < finshCmdSize
  | .tab => e.text ≠ [] → (table.complete e.text).length < finshCmdSize
  | _ => True

end Editor

/-- The positions are in order, the rest of the line is zero, and the executed commands are those of the
ideal editor. -/
structure EditorOk (s : Shell) (e : Editor) : Prop where
  curpos_le : s.lineCurpos ≤ s.linePosition
  position_lt : s.linePosition < finshCmdSize
  rest_zero : ∀ i, s.linePosition ≤ i → i < finshCmdSize → s.line i = 0
  executed_eq : s.executed = e.executed.map fun text => mshCall (cstr text) text.length

/-- The shell works like the ideal editor after each of the keys. -/
def EditorWorks (table : SyscallTable) (keys : List Key) : Prop :=
  ∀ keys₁ keys₂, keys = keys₁ ++ keys₂ →
    ∃ s, finshThreadEntry table (keys₁.flatMap Key.bytes) = .ok s ∧ EditorOk s (.keys table keys₁)

/-- No line reaches the size of the buffer. -/
def LinesFit (table : SyscallTable) (keys : List Key) : Prop :=
  ∀ keys₁ key keys₂, keys = keys₁ ++ key :: keys₂ → (Editor.keys table keys₁).Fits table key

/-! ## The shell shows the state of the editor -/

variable {table : SyscallTable} {s s' : Shell} {e : Editor} {key : Key} {t u : List UInt8}
  {ch : UInt8}

/-- A text that fits in the buffer with its NUL. -/
structure LineText (text : List UInt8) : Prop where
  nonzero : 0 ∉ text
  length_lt : text.length < finshCmdSize

lemma LineText.nil : LineText [] := ⟨not_mem_nil, by decide⟩

/-- The shell waits for a key and its fields hold the state of the editor. -/
structure Shows (s : Shell) (e : Editor) : Prop where
  stat : s.stat = .waitNormal
  line : s.line = cstr e.text
  position : s.linePosition = e.text.length
  curpos : s.lineCurpos = e.before.length
  text : LineText e.text
  count : s.historyCount = e.history.length
  count_le : e.history.length ≤ finshHistoryLines
  rows : ∀ i (hi : i < e.history.length), s.cmdHistory i = cstr e.history[i]
  history : ∀ t ∈ e.history, LineText t
  index : s.currentHistory = e.index
  index_le : e.index ≤ e.history.length
  executed : s.executed = e.executed.map fun text => mshCall (cstr text) text.length

lemma Shows.init : Shows .init .init where
  stat := rfl
  line := rfl
  position := rfl
  curpos := rfl
  text := LineText.nil
  count := rfl
  count_le := Nat.zero_le _
  rows := fun _ hi => absurd hi (Nat.not_lt_zero _)
  history := fun _ ht => absurd ht not_mem_nil
  index := rfl
  index_le := le_rfl
  executed := rfl

lemma Shows.editorOk (h : Shows s e) : EditorOk s e where
  curpos_le := by
    rw [h.curpos, h.position, Editor.text, length_append]
    exact Nat.le_add_right _ _
  position_lt := by
    rw [h.position]
    exact h.text.length_lt
  rest_zero := by
    intro i hi _
    rw [h.line, cstr_of_ge (h.position ▸ hi)]
  executed_eq := h.executed

namespace Shows

section

variable (h : Shows s e)

include h

lemma setText {text : List UInt8} (htext : LineText text) :
    Shows { s with line := cstr text, linePosition := text.length, lineCurpos := text.length }
      (e.setText text) :=
  { h with
    line := by rw [Editor.setText, Editor.text, append_nil]
    position := by rw [Editor.setText, Editor.text, append_nil]
    curpos := rfl
    text := by rwa [Editor.setText, Editor.text, append_nil] }

/-! ### The history keys -/

lemma recallRow {i : ℕ} (hi : i < e.history.length) :
    ∃ s', Finsh.recallRow s i = .ok s' ∧ Shows s' (e.recallText i) := by
  have htext := h.history _ (getElem_mem hi)
  rw [Finsh.recallRow, h.rows i hi, strlen_cstr htext.nonzero htext.length_lt]
  refine ⟨_, rfl, ?_⟩
  rw [Editor.recallText, getD_eq_getElem _ _ hi]
  exact { h.setText htext with index := rfl, index_le := hi.le }

lemma up : ∃ s', keyEffect table s .up = .ok s' ∧ Shows s' (e.key table .up) := by
  change ∃ s', upKey s = .ok s' ∧ Shows s' (if e.index = 0 then e else e.recallText (e.index - 1))
  rw [upKey, h.index]
  have hle := h.index_le
  by_cases hzero : e.index = 0
  · rw [if_neg (by omega), if_pos hzero]
    exact ⟨s, rfl, h⟩
  · rw [if_pos (by omega), if_neg hzero]
    exact h.recallRow (by omega)

lemma down : ∃ s', keyEffect table s .down = .ok s' ∧ Shows s' (e.key table .down) := by
  change ∃ s', downKey s = .ok s' ∧ Shows s'
    (if e.history = [] then e else e.recallText (min (e.index + 1) (e.history.length - 1)))
  rw [downKey, h.index, h.count]
  by_cases hnil : e.history = []
  · rw [hnil, length_nil, if_neg (Nat.not_lt_zero _), if_neg (not_not.mpr rfl), if_pos rfl]
    exact ⟨s, rfl, h⟩
  · have hpos := length_pos_of_ne_nil hnil
    rw [if_neg hnil]
    by_cases hlt : e.index + 1 < e.history.length
    · rw [if_pos hlt, min_eq_left (Nat.le_sub_one_of_lt hlt)]
      exact h.recallRow hlt
    · rw [if_neg hlt, if_pos (by omega), min_eq_right (by omega)]
      exact h.recallRow (by omega)

/-! ### The cursor keys -/

lemma left : ∃ s', keyEffect table s .left = .ok s' ∧ Shows s' (e.key table .left) := by
  refine ⟨_, rfl, ?_⟩
  rw [leftKey, Editor.key]
  rcases eq_nil_or_concat e.before with hnil | ⟨before, c, hbefore⟩
  · rw [hnil, if_neg (by rw [h.curpos, hnil]; simp), getLast?_nil]
    exact h
  · rw [concat_eq_append] at hbefore
    have hlen : e.before.length = before.length + 1 := by rw [hbefore]; simp
    have htext : e.text = before ++ c :: e.after := by rw [Editor.text, hbefore]; simp
    rw [if_pos (by rw [h.curpos]; omega), h.curpos, hlen, hbefore, getLast?_concat, dropLast_concat]
    exact { h with
      line := h.line.trans (congrArg cstr htext)
      position := h.position.trans (congrArg length htext)
      curpos := by simp
      text := (htext ▸ h.text : LineText (before ++ c :: e.after)) }

lemma right : ∃ s', keyEffect table s .right = .ok s' ∧ Shows s' (e.key table .right) := by
  refine ⟨_, rfl, ?_⟩
  have hlen : e.text.length = e.before.length + e.after.length := length_append
  rw [rightKey, Editor.key]
  cases hafter : e.after with
  | nil =>
    rw [if_neg (by rw [h.curpos, h.position, hlen, hafter]; simp)]
    exact h
  | cons c after =>
    have htext : e.text = (e.before ++ [c]) ++ after := by rw [Editor.text, hafter]; simp
    rw [if_pos (by rw [h.curpos, h.position, hlen, hafter]; simp), h.curpos]
    exact { h with
      line := h.line.trans (congrArg cstr htext)
      position := h.position.trans (congrArg length htext)
      curpos := by simp
      text := (htext ▸ h.text : LineText (e.before ++ [c] ++ after)) }

/-! ### The keys that change the text -/

lemma insertedLine_eq (ch : UInt8) :
    insertedLine s s.linePosition ch = cstr (e.before ++ ch :: e.after) := by
  have hlen : e.text.length = e.before.length + e.after.length := length_append
  rw [insertedLine, h.line, h.curpos, h.position, hlen]
  split
  case isTrue => exact insert_cstr e.before e.after ch
  case isFalse hend =>
    -- the cursor is at the end of the text
    have hafter : e.after = [] := length_eq_zero_iff.mp (by omega)
    rw [Editor.text, hafter, length_nil, Nat.add_zero]
    exact update_cstr e.before ch (Nat.zero_le 1)

lemma char (ch : {ch // Plain ch}) (hfits : e.Fits table (.char ch)) :
    ∃ s', keyEffect table s (.char ch) = .ok s' ∧ Shows s' (e.key table (.char ch)) := by
  have hroom : e.text.length + 1 < finshCmdSize := hfits
  have hlen : e.text.length = e.before.length + e.after.length := length_append
  refine ⟨_, rfl, ?_⟩
  have htext : ({ e with before := e.before ++ [ch.1] } : Editor).text =
      e.before ++ ch.1 :: e.after := by simp [Editor.text]
  have hline := h.insertedLine_eq ch.1
  rw [normalKey, if_neg (by rw [h.position]; omega), insertKey, if_neg (by rw [h.position]; omega),
    hline, h.position, h.curpos, Editor.key, if_pos hroom]
  refine { h with line := ?_, position := ?_, curpos := ?_, text := ⟨?_, ?_⟩ }
  · rw [htext]
  · rw [htext, length_append, length_cons]
    dsimp only
    omega
  · simp
  · rw [htext]
    intro hmem
    rcases mem_append.mp hmem with hmem | hmem
    · exact h.text.nonzero (mem_append_left _ hmem)
    · rcases mem_cons.mp hmem with hzero | hmem
      · exact ch.2.1 hzero.symm
      · exact h.text.nonzero (mem_append_right _ hmem)
  · rw [htext, length_append, length_cons]
    omega

/-- A character that fills the buffer: the positions are reset and the bytes stay. -/
lemma char_full (ch : {ch // Plain ch}) (hfits : ¬ e.Fits table (.char ch)) :
    ∃ s', keyEffect table s (.char ch) = .ok s' ∧ s'.linePosition = 0 ∧ s'.line 0 ≠ 0 := by
  have hfull : ¬ e.text.length + 1 < finshCmdSize := hfits
  have hlt := h.text.length_lt
  refine ⟨_, rfl, ?_⟩
  rw [normalKey, if_neg (by rw [h.position]; omega), insertKey, if_pos (by rw [h.position]; omega),
    h.insertedLine_eq ch.1]
  refine ⟨rfl, ?_⟩
  dsimp only
  cases hbefore : e.before with
  | nil => exact ch.2.1
  | cons c before =>
    have hmem : c ∈ e.text := by rw [Editor.text, hbefore]; simp
    exact fun hzero => h.text.nonzero (hzero ▸ hmem)

/-- The bytes of the line after the character before the cursor is deleted. -/
lemma erasedLine_eq {before : List UInt8} {c : UInt8}
    (hbefore : e.before = before ++ [c]) : erasedLine s = cstr (before ++ e.after) := by
  have htext : e.text = before ++ c :: e.after := by rw [Editor.text, hbefore]; simp
  have hposition : s.linePosition - 1 = before.length + e.after.length := by
    rw [h.position, htext, length_append, length_cons]
    omega
  have hcurpos : s.lineCurpos - 1 = before.length := by
    rw [h.curpos, hbefore, length_append, length_singleton]
    omega
  rw [erasedLine, hposition, hcurpos, h.line, htext]
  split
  case isTrue => exact delete_cstr before e.after c
  case isFalse hend =>
    have hafter : e.after = [] := length_eq_zero_iff.mp (by omega)
    rw [hafter, length_nil, Nat.add_zero, update_cstr before 0 le_rfl, cstr_append_zero, append_nil]

lemma backspace (ch : {ch : UInt8 // ch = 0x7f ∨ ch = 0x08}) :
    ∃ s', keyEffect table s (.backspace ch) = .ok s' ∧ Shows s' (e.key table (.backspace ch)) := by
  refine ⟨_, rfl, ?_⟩
  rw [backspaceKey, Editor.key]
  rcases eq_nil_or_concat e.before with hnil | ⟨before, c, hbefore⟩
  · have hdrop : e.before.dropLast = e.before := by rw [hnil]; rfl
    rw [if_pos (by rw [h.curpos, hnil]; rfl), hdrop]
    exact h
  · rw [concat_eq_append] at hbefore
    have hdrop : e.before.dropLast = before := by rw [hbefore, dropLast_concat]
    have hlen : e.before.length = before.length + 1 := by rw [hbefore]; simp
    have htext : e.text = before ++ c :: e.after := by rw [Editor.text, hbefore]; simp
    have hlen' : e.text.length = before.length + e.after.length + 1 := by
      rw [htext, length_append, length_cons]
      omega
    rw [if_neg (by rw [h.curpos]; omega), h.erasedLine_eq hbefore, h.curpos, h.position, hlen, hlen',
      hdrop]
    refine { h with line := rfl, position := ?_, curpos := rfl, text := ⟨?_, ?_⟩ }
    · exact length_append.symm
    · intro hmem
      refine h.text.nonzero (htext ▸ ?_)
      rcases mem_append.mp hmem with hmem | hmem
      · exact mem_append_left _ hmem
      · exact mem_append_right _ (mem_cons_of_mem c hmem)
    · have hlt := h.text.length_lt
      rw [Editor.text, length_append]
      dsimp only
      omega

lemma tab (hfits : e.Fits table .tab) :
    ∃ s', keyEffect table s .tab = .ok s' ∧ Shows s' (e.key table .tab) := by
  change ∃ s', tabKey table s = .ok s' ∧
    Shows s' (e.setText (if e.text = [] then [] else table.complete e.text))
  rw [tabKey, h.line]
  by_cases hnil : e.text = []
  · -- the commands are listed
    have hlist : mshAutoComplete finshCmdSize table (cstr []) = .ok (cstr []) := rfl
    rw [if_pos hnil, hnil, hlist, ok_bind, strlen_cstr not_mem_nil (by decide)]
    exact ⟨_, rfl, h.setText LineText.nil⟩
  · have hlt := hfits hnil
    have hzero := table.zero_not_mem_complete h.text.nonzero hnil
    rw [if_neg hnil, mshAutoComplete_eq h.text.nonzero hnil h.text.length_lt, if_pos hlt.le, ok_bind,
      strlen_cstr hzero hlt]
    exact ⟨_, rfl, h.setText ⟨hzero, hlt⟩⟩

/-- A completion that does not fit is written or read behind the buffer. -/
lemma tab_full (hfits : ¬ e.Fits table .tab) : keyEffect table s .tab = .error .badIndex := by
  obtain ⟨hnil, hge⟩ := Classical.not_imp.mp hfits
  have hzero := table.zero_not_mem_complete h.text.nonzero hnil
  change tabKey table s = _
  rw [tabKey, h.line, mshAutoComplete_eq h.text.nonzero hnil h.text.length_lt]
  split
  case isTrue => rw [ok_bind, strlen_cstr_of_le hzero (not_lt.mp hge)]
  case isFalse => rfl

end

/-! ### The end of a line -/

lemma length_le_of_sameBytes (ht : LineText t) (hu : LineText u)
    (h : SameBytes (cstr t) (cstr u)) : u.length ≤ t.length := by
  by_contra hlt
  have hbyte := h t.length ht.length_lt
  rw [cstr_of_ge le_rfl] at hbyte
  exact cstr_ne_zero hu.nonzero (not_le.mp hlt) hbyte.symm

lemma sameBytes_iff (ht : LineText t) (hu : LineText u) :
    SameBytes (cstr t) (cstr u) ↔ t = u := by
  constructor
  · intro h
    have hlen : t.length = u.length :=
      le_antisymm (length_le_of_sameBytes hu ht fun i hi => (h i hi).symm)
        (length_le_of_sameBytes ht hu h)
    refine ext_getElem hlen fun i hi hi' => ?_
    have hbyte := h i (hi.trans ht.length_lt)
    rwa [cstr_of_lt hi, cstr_of_lt hi'] at hbyte
  · rintro rfl i -
    rfl

section

variable (h : Shows s e)

include h

lemma savedRow_eq : savedRow s = cstr e.text := by
  funext i
  rw [savedRow, h.line, h.position]
  split
  case isTrue => rfl
  case isFalse hge => exact (cstr_of_ge (not_lt.mp hge)).symm

/-- The test for a repetition compares with the last command. -/
lemma getLast?_iff : e.history.getLast? = some e.text ↔
    s.historyCount ≠ 0 ∧ SameBytes (s.cmdHistory (s.historyCount - 1)) s.line := by
  rw [h.count, h.line]
  rcases eq_nil_or_concat e.history with hnil | ⟨init, last, hlast⟩
  · rw [hnil]
    simp
  · rw [concat_eq_append] at hlast
    have hlen : e.history.length = init.length + 1 := by rw [hlast]; simp
    have hrow : s.cmdHistory (e.history.length - 1) = cstr last := by
      rw [h.rows _ (by omega)]
      simp [hlast]
    have hmem : last ∈ e.history := by rw [hlast]; simp
    rw [hrow, sameBytes_iff (h.history _ hmem) h.text, hlast, getLast?_concat]
    simp

lemma setHistory {rows : ℕ → ℕ → UInt8} {history : List (List UInt8)}
    (hle : history.length ≤ finshHistoryLines)
    (hrows : ∀ i (hi : i < history.length), rows i = cstr history[i])
    (hhistory : ∀ t ∈ history, LineText t) :
    Shows (endHistory { s with cmdHistory := rows, historyCount := history.length })
      { e with history, index := history.length } :=
  { h with
    count := rfl
    count_le := hle
    rows := hrows
    history := hhistory
    index := rfl
    index_le := le_rfl }

lemma keepHistory : Shows (endHistory s) { e with index := e.history.length } := by
  exact { h with index := h.count, index_le := le_rfl }

/-- A new line while there is room. -/
lemma appendHistory (hroom : e.history.length < finshHistoryLines) : Shows (endHistory { s with
        cmdHistory := Function.update s.cmdHistory s.historyCount (savedRow s)
        historyCount := s.historyCount + 1 })
      { e with history := e.history ++ [e.text], index := (e.history ++ [e.text]).length } := by
  have hcount : s.historyCount + 1 = (e.history ++ [e.text]).length := by
    rw [h.count, length_append, length_singleton]
  rw [hcount]
  refine h.setHistory (by rw [← hcount, h.count]; exact hroom) ?_ ?_
  · intro i hi
    rw [h.count, h.savedRow_eq]
    rcases eq_or_ne i e.history.length with rfl | hne
    · rw [Function.update_self]
      simp
    · rw [length_append, length_singleton] at hi
      rw [Function.update_of_ne hne, h.rows i (by omega), getElem_append_left]
  · intro t ht
    rcases mem_append.mp ht with ht | ht
    · exact h.history t ht
    · rw [mem_singleton.mp ht]
      exact h.text

lemma moveHistory (hfull : e.history.length = finshHistoryLines) :
    Shows (endHistory { s with cmdHistory := movedRows s, historyCount := finshHistoryLines })
      { e with
        history := (e.history ++ [e.text]).drop 1
        index := ((e.history ++ [e.text]).drop 1).length } := by
  have hcount : finshHistoryLines = ((e.history ++ [e.text]).drop 1).length := by
    rw [length_drop, length_append, hfull]
    rfl
  have hlast : finshHistoryLines - 1 + 1 = e.history.length := by rw [hfull]; rfl
  nth_rewrite 1 [hcount]
  refine h.setHistory hcount.ge ?_ ?_
  · intro i hi
    rw [← hcount] at hi
    rw [movedRows, h.savedRow_eq, getElem_drop]
    split
    case isTrue hlt =>
      rw [h.rows (i + 1) (by omega), getElem_append_left (by omega)]
      simp only [Nat.add_comm 1 i]
    case isFalse hge =>
      obtain rfl : i = finshHistoryLines - 1 := by omega
      rw [if_pos rfl]
      simp [Nat.add_comm 1, hlast]
  · intro t ht
    rcases mem_append.mp (mem_of_mem_drop ht) with ht | ht
    · exact h.history t ht
    · rw [mem_singleton.mp ht]
      exact h.text

lemma push :
    Shows (shellPushHistory s) { e with history := e.pushed, index := e.pushed.length } := by
  have hsame := h.getLast?_iff
  have hle := h.count_le
  rw [shellPushHistory, Editor.pushed]
  by_cases hnil : e.text = []
  · rw [if_neg (by rw [h.position, hnil]; simp), if_pos (Or.inl hnil)]
    exact h.keepHistory
  · rw [if_pos (by rw [h.position, length_eq_zero_iff.ne]; exact hnil), pushLine]
    by_cases hfull : e.history.length = finshHistoryLines
    · have hcount : s.historyCount = finshHistoryLines := h.count.trans hfull
      rw [hcount] at hsame
      rw [if_pos hcount.ge]
      by_cases hlast : e.history.getLast? = some e.text
      · rw [if_pos (hsame.mp hlast).2, if_pos (Or.inr hlast)]
        exact h.keepHistory
      · rw [if_neg fun hbytes => hlast (hsame.mpr ⟨by decide, hbytes⟩),
          if_neg fun hor => hor.elim hnil hlast, hfull]
        exact h.moveHistory hfull
    · rw [if_neg (by rw [h.count]; omega)]
      by_cases hlast : e.history.getLast? = some e.text
      · obtain ⟨hpos, hbytes⟩ := hsame.mp hlast
        rw [if_neg fun hor => hor.elim hpos fun hdiff => hdiff hbytes, if_pos (Or.inr hlast)]
        exact h.keepHistory
      · rw [if_pos (by tauto), if_neg fun hor => hor.elim hnil hlast,
          show e.history.length + 1 - finshHistoryLines = 0 by omega, drop_zero]
        exact h.appendHistory (by omega)

lemma enter (ch : {ch // IsEnter ch}) :
    ∃ s', keyEffect table s (.enter ch) = .ok s' ∧ Shows s' (e.key table (.enter ch)) := by
  have hpush := h.push
  refine ⟨_, rfl, { hpush with
    line := rfl, position := rfl, curpos := rfl, text := LineText.nil, executed := ?_ }⟩
  change (shellPushHistory s).executed ++ [mshCall (shellPushHistory s).line
    (shellPushHistory s).linePosition] = (e.executed ++ [e.text]).map _
  rw [hpush.executed, hpush.line, hpush.position, map_append]
  rfl

lemma keyEffect (key : Key) (hfits : e.Fits table key) :
    ∃ s', keyEffect table s key = .ok s' ∧ Shows s' (e.key table key) := by
  cases key with
  | char ch => exact h.char ch hfits
  | up => exact h.up
  | down => exact h.down
  | left => exact h.left
  | right => exact h.right
  | backspace ch => exact h.backspace ch
  | tab => exact h.tab hfits
  | enter ch => exact h.enter ch

lemma keyEffect_full (key : Key) (hfits : ¬ e.Fits table key) :
    ¬ ∃ s', Finsh.keyEffect table s key = .ok s' ∧ EditorOk s' (e.key table key) := by
  rintro ⟨s', hs', hok⟩
  cases key with
  | char ch =>
    obtain ⟨s₁, hs₁, hposition, hline⟩ := h.char_full ch hfits
    obtain rfl : s₁ = s' := Except.ok.inj (hs₁.symm.trans hs')
    exact hline (hok.rest_zero 0 hposition.le (by decide))
  | tab =>
    rw [h.tab_full hfits] at hs'
    exact nomatch hs'
  | up => exact hfits trivial
  | down => exact hfits trivial
  | left => exact hfits trivial
  | right => exact hfits trivial
  | backspace ch => exact hfits trivial
  | enter ch => exact hfits trivial

lemma byte (hch : ch ≠ 0x1b) : [ch].foldlM (threadRound table) s = inputKey table s ch := by
  rw [foldlM_cons, threadRound, if_neg hch, h.stat]
  exact bind_pure _

lemma escape (hch : ch ≠ 0x1b) :
    [0x1b, 0x5b, ch].foldlM (threadRound table) s = funcKey table s ch := by
  have hstat : ((s.setStat .waitSpecKey).setStat .waitFuncKey).setStat .waitNormal = s := by
    rw [Shell.setStat, Shell.setStat, Shell.setStat, ← h.stat]
  change threadRound table ((s.setStat .waitSpecKey).setStat .waitFuncKey) ch >>= pure = _
  rw [bind_pure, threadRound, if_neg hch]
  change funcKey table (((s.setStat .waitSpecKey).setStat .waitFuncKey).setStat .waitNormal) ch = _
  rw [hstat]

lemma bytes (key : Key) :
    key.bytes.foldlM (threadRound table) s = Finsh.keyEffect table s key := by
  cases key with
  | char ch =>
    obtain ⟨hnull, herror, htab, hdel, hbs, henter, hesc⟩ := ch.2
    refine (h.byte hesc).trans ?_
    rw [inputKey, if_neg (by tauto), if_neg htab, if_neg (by tauto), if_neg henter]
    rfl
  | up => exact h.escape (by decide)
  | down => exact h.escape (by decide)
  | left => exact h.escape (by decide)
  | right => exact h.escape (by decide)
  | backspace ch =>
    obtain ⟨ch, rfl | rfl⟩ := ch
    · exact h.byte (by decide)
    · exact h.byte (by decide)
  | tab => exact h.byte (by decide)
  | enter ch =>
    obtain ⟨ch, rfl | rfl⟩ := ch
    · exact h.byte (by decide)
    · exact h.byte (by decide)

end

end Shows

/-! ## Whole input -/

variable {keys : List Key}

lemma finshThreadEntry_append (key : Key) :
    finshThreadEntry table ((keys ++ [key]).flatMap Key.bytes) =
      finshThreadEntry table (keys.flatMap Key.bytes) >>= key.bytes.foldlM (threadRound table) := by
  rw [finshThreadEntry, flatMap_append, foldlM_append, flatMap_singleton]
  rfl

lemma Editor.keys_append (key : Key) :
    Editor.keys table (keys ++ [key]) = (Editor.keys table keys).key table key := by
  rw [Editor.keys, Editor.keys, foldl_append, foldl_cons, foldl_nil]

lemma linesFit_append (key : Key) : LinesFit table (keys ++ [key]) ↔
    LinesFit table keys ∧ (Editor.keys table keys).Fits table key := by
  constructor
  · intro h
    refine ⟨?_, h keys key [] rfl⟩
    rintro keys₁ k keys₂ rfl
    exact h keys₁ k (keys₂ ++ [key]) (by simp)
  · rintro ⟨h, hlast⟩ keys₁ k keys₂ hkeys
    rcases eq_nil_or_concat keys₂ with rfl | ⟨init, last, rfl⟩
    · obtain ⟨rfl, hk⟩ := append_inj' hkeys rfl
      obtain rfl := singleton_inj.mp hk
      exact hlast
    · rw [concat_eq_append, ← cons_append, ← append_assoc] at hkeys
      obtain ⟨rfl, -⟩ := append_inj' hkeys rfl
      exact h keys₁ k init rfl

/-- Along an input whose lines fit, the shell shows the state of the editor. -/
lemma shows_of_linesFit (hfit : LinesFit table keys) :
    ∃ s, finshThreadEntry table (keys.flatMap Key.bytes) = .ok s ∧ Shows s (.keys table keys) := by
  induction keys using reverseRecOn with
  | nil => exact ⟨.init, rfl, Shows.init⟩
  | append_singleton keys key ih =>
    obtain ⟨hfit, hlast⟩ := (linesFit_append key).mp hfit
    obtain ⟨s, hs, hshows⟩ := ih hfit
    obtain ⟨s', hs', hshows'⟩ := hshows.keyEffect key hlast
    rw [finshThreadEntry_append, hs, ok_bind, hshows.bytes key, Editor.keys_append]
    exact ⟨s', hs', hshows'⟩

/-- The shell works like the ideal editor iff no line reaches the size of the buffer. -/
theorem editorWorks_iff (table : SyscallTable) (keys : List Key) :
    EditorWorks table keys ↔ LinesFit table keys := by
  constructor
  · intro h
    induction keys using reverseRecOn with
    | nil => exact fun _ _ _ hnil => by simp at hnil
    | append_singleton keys key ih =>
      have hinit : EditorWorks table keys := by
        rintro keys₁ keys₂ rfl
        exact h keys₁ (keys₂ ++ [key]) (by simp)
      have hfit := ih hinit
      refine (linesFit_append key).mpr ⟨hfit, ?_⟩
      -- the first key that does not fit leaves bytes behind the text
      by_contra hlast
      obtain ⟨s, hs, hshows⟩ := shows_of_linesFit hfit
      obtain ⟨s', hs', hok⟩ := h (keys ++ [key]) [] (by simp)
      rw [finshThreadEntry_append, hs, ok_bind, hshows.bytes key] at hs'
      rw [Editor.keys_append] at hok
      exact hshows.keyEffect_full key hlast ⟨s', hs', hok⟩
  · rintro hfit keys₁ keys₂ rfl
    have hfit₁ : LinesFit table keys₁ := by
      rintro k₁ key k₂ rfl
      exact hfit k₁ key (k₂ ++ keys₂) (by simp)
    obtain ⟨s, hs, hshows⟩ := shows_of_linesFit hfit₁
    exact ⟨s, hs, hshows.editorOk⟩

/-- Eighty times the letter `a`, then the letter `b` and the end of the line. -/
def overlongKeys : List Key :=
  replicate 80 (.char ⟨0x61, by decide⟩) ++ [.char ⟨0x62, by decide⟩, .enter ⟨0x0d, by decide⟩]

/-- The command after a discarded line has the rest of that line behind it. -/
theorem not_editorWorks_overlong : ¬ EditorWorks ⟨[], nofun⟩ overlongKeys := by
  intro h
  obtain ⟨s, hs, hok⟩ := h overlongKeys [] (append_nil _).symm
  have hexec : (finshThreadEntry ⟨[], nofun⟩ (overlongKeys.flatMap Key.bytes)).toOption.any
      (fun s => decide (s.executed = [(0x62 :: replicate 79 0x61, 1)])) = true := by
    decide +kernel
  rw [hs] at hexec
  have heq : s.executed = [(0x62 :: replicate 79 0x61, 1)] := of_decide_eq_true hexec
  have hideal : (Editor.keys ⟨[], nofun⟩ overlongKeys).executed = [[0x62]] := by decide +kernel
  rw [hok.executed_eq, hideal] at heq
  exact absurd heq (by decide +kernel)

end Finsh
