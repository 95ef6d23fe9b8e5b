import TempSns.Kservice.Strings
import TempSns.Lib.CommonPrefix
import TempSns.Lib.Exec

/-!
# Completion of a command name

Embedding of `msh_auto_complete` and `str_common` of `components/finsh/msh.c`, in the configuration
without a file system. The table of system calls is a parameter: it holds the names of all exported
functions, and a command is a function whose name begins with `__cmd_`.
-/

namespace Finsh

open CString CommonPrefix Kservice List

/-- The names between `_syscall_table_begin` and `_syscall_table_end`. -/
structure SyscallTable where
  /-- The names, as C strings. -/
  names : List (List UInt8)
  nonzero : ∀ name ∈ names, 0 ∉ name

/-- The text `__cmd_`. -/
def cmdTag : List UInt8 := [0x5f, 0x5f, 0x63, 0x6d, 0x64, 0x5f]

def strCommon : List UInt8 → List UInt8 → ℕ
  | a :: str1, b :: str2 => if a = b then strCommon str1 str2 + 1 else 0
  | _, _ => 0

/-- The local variables of `msh_auto_complete`. -/
structure Completion where
  namePtr : Option (List UInt8)
  minLength : ℕ

/-- A command that begins with the typed text is met. -/
def Completion.meet (c : Completion) (cmdName : List UInt8) : Completion :=
  -- set name_ptr and the initial length
  let c := if c.minLength = 0 then ⟨some cmdName, cmdName.length⟩ else c
  let length := strCommon (c.namePtr.getD []) cmdName
  if length < c.minLength then { c with minLength := length } else c

/-- The round of the loop over the table, for a typed text of `length` bytes. -/
def completeRound (line : ℕ → UInt8) (length : ℕ) (c : Completion) (name : List UInt8) : Completion :=
  -- skip finsh shell function
  if rtStrncmp (cstr name) (cstr cmdTag) 6 ≠ 0 then c
  else if rtStrncmp line (cstr (name.drop 6)) length = 0 then c.meet (name.drop 6)
  else c

/-- `msh_auto_complete` on a buffer of `size` bytes. -/
def mshAutoComplete (size : ℕ) (table : SyscallTable) (line : ℕ → UInt8) :
    Except Fault (ℕ → UInt8) :=
  if line 0 = 0 then .ok line
  else
    match strlen size line with
    | none => .error .badIndex
    | some length =>
      match table.names.foldl (completeRound line length) ⟨none, 0⟩ with
      | ⟨none, _⟩ => .ok line
      | ⟨some name, minLength⟩ =>
        if minLength ≤ size then .ok (rtStrncpy line (cstr name) minLength) else .error .badIndex

/-! ## Completed text -/

def SyscallTable.commands (table : SyscallTable) : List (List UInt8) :=
  (table.names.filter fun name => cmdTag <+: name).map (drop 6)

/-- The longest common prefix of all commands that begin with the text, and the text itself if there is
none. -/
def SyscallTable.complete (table : SyscallTable) (text : List UInt8) : List UInt8 :=
  match table.commands.filter fun command => text <+: command with
  | [] => text
  | command :: commands => commonAll command commands

variable {size : ℕ} {table : SyscallTable} {text name : List UInt8} {names : List (List UInt8)}

lemma strCommon_eq (s t : List UInt8) : strCommon s t = (common s t).length := by
  induction s generalizing t with
  | nil => simp [strCommon]
  | cons a s ih =>
    cases t with
    | nil => rfl
    | cons b t =>
      rw [strCommon, common]
      split
      case isTrue => rw [ih, length_cons]
      case isFalse => rfl

lemma common_self (s : List UInt8) : common s s = s := by
  have hpre : s <+: common s s := isPrefix_common_iff.mpr ⟨prefix_rfl, prefix_rfl⟩
  exact ((isPrefix_common_iff.mp prefix_rfl).1).eq_of_length_le hpre.length_le

lemma rtStrncmp_eq_zero_iff (htext : 0 ∉ text) (hname : 0 ∉ name) :
    rtStrncmp (cstr text) (cstr name) text.length = 0 ↔ text <+: name := by
  rw [rtStrncmp_cstr htext hname, take_length, prefix_iff_eq_take]

lemma Completion.meet_first (n : Option (List UInt8)) (cmdName : List UInt8) :
    Completion.meet ⟨n, 0⟩ cmdName = ⟨some cmdName, cmdName.length⟩ := by
  simp [Completion.meet, strCommon_eq, common_self]

/-- A further command shortens the common prefix. -/
lemma Completion.meet_next {k : ℕ} (hk : k ≠ 0) (cmdName : List UInt8) :
    Completion.meet ⟨some name, k⟩ cmdName = ⟨some name, min k (common name cmdName).length⟩ := by
  rw [Completion.meet, if_neg hk, strCommon_eq, Option.getD_some]
  split
  case isTrue hlt => rw [min_eq_right hlt.le]
  case isFalse hge => rw [min_eq_left (not_lt.mp hge)]

/-- The commands among some names that begin with the text. -/
def matching (names : List (List UInt8)) (text : List UInt8) : List (List UInt8) :=
  ((names.filter fun name => cmdTag <+: name).map (drop 6)).filter fun command => text <+: command

lemma completeRound_eq (c : Completion) (htext : 0 ∉ text) (hname : 0 ∉ name) :
    completeRound (cstr text) text.length c name =
      if cmdTag <+: name ∧ text <+: name.drop 6 then c.meet (name.drop 6) else c := by
  have hdrop : 0 ∉ name.drop 6 := fun hmem => hname (mem_of_mem_drop hmem)
  have htag : rtStrncmp (cstr name) (cstr cmdTag) 6 = 0 ↔ cmdTag <+: name := by
    rw [rtStrncmp_cstr hname (by decide), prefix_iff_eq_take, eq_comm]
    rfl
  rw [completeRound]
  simp only [ne_eq, htag, rtStrncmp_eq_zero_iff htext hdrop]
  split_ifs <;> tauto

lemma matching_cons : matching (name :: names) text =
    if cmdTag <+: name ∧ text <+: name.drop 6 then name.drop 6 :: matching names text
    else matching names text := by
  rw [matching, filter_cons]
  by_cases htag : cmdTag <+: name
  · rw [if_pos (by simpa using htag), map_cons, filter_cons]
    by_cases hpre : text <+: name.drop 6
    · rw [if_pos (by simpa using hpre), if_pos ⟨htag, hpre⟩]
      rfl
    · rw [if_neg (by simpa using hpre), if_neg fun hand => hpre hand.2]
      rfl
  · rw [if_neg (by simpa using htag), if_neg fun hand => htag hand.1]
    rfl

lemma foldl_completeRound_some {k : ℕ} (htext : 0 ∉ text) (hne : text ≠ [])
    (hnames : ∀ name ∈ names, 0 ∉ name) (hk : k ≤ name.length) (hpre : text <+: name.take k) :
    ∃ k' ≤ name.length, names.foldl (completeRound (cstr text) text.length) ⟨some name, k⟩ =
        ⟨some name, k'⟩ ∧ name.take k' = commonAll (name.take k) (matching names text) ∧
      text <+: name.take k' := by
  induction names generalizing k with
  | nil => exact ⟨k, hk, rfl, rfl, hpre⟩
  | cons next names ih =>
    obtain ⟨hnext, hrest⟩ := forall_mem_cons.mp hnames
    rw [foldl_cons, completeRound_eq _ htext hnext, matching_cons]
    split
    case isFalse => exact ih hrest hk hpre
    case isTrue hmatch =>
      -- the length stays positive, as the typed text is a common prefix
      have hk0 : k ≠ 0 := by
        rintro rfl
        rw [take_zero, prefix_nil] at hpre
        exact hne hpre
      have hcommon : name.take (min k (common name (next.drop 6)).length) =
          common (name.take k) (next.drop 6) := common_take.symm
      rw [Completion.meet_next hk0]
      obtain ⟨k', hk', hfold, htake, hpre'⟩ := ih hrest ((min_le_left _ _).trans hk)
        (hcommon ▸ isPrefix_common_iff.mpr ⟨hpre, hmatch.2⟩)
      exact ⟨k', hk', hfold, by rw [htake, hcommon]; rfl, hpre'⟩

lemma foldl_completeRound (htext : 0 ∉ text) (hne : text ≠ [])
    (hnames : ∀ name ∈ names, 0 ∉ name) :
    names.foldl (completeRound (cstr text) text.length) ⟨none, 0⟩ = ⟨none, 0⟩ ∧
        matching names text = [] ∨
      ∃ name k first rest, names.foldl (completeRound (cstr text) text.length) ⟨none, 0⟩ =
          ⟨some name, k⟩ ∧ k ≤ name.length ∧ 0 ∉ name ∧ text <+: name.take k ∧
        matching names text = first :: rest ∧ name.take k = commonAll first rest := by
  induction names with
  | nil => exact .inl ⟨rfl, rfl⟩
  | cons next names ih =>
    obtain ⟨hnext, hrest⟩ := forall_mem_cons.mp hnames
    rw [foldl_cons, completeRound_eq _ htext hnext, matching_cons]
    split
    case isFalse => exact ih hrest
    case isTrue hmatch =>
      rw [Completion.meet_first]
      have hself : text <+: (next.drop 6).take (next.drop 6).length := by
        rw [take_length]
        exact hmatch.2
      obtain ⟨k, hk, hfold, htake, hpre⟩ := foldl_completeRound_some htext hne hrest le_rfl hself
      rw [take_length] at htake
      exact .inr ⟨_, k, _, _, hfold, hk, fun hmem => hnext (mem_of_mem_drop hmem), hpre, rfl, htake⟩

lemma SyscallTable.complete_of_nil (h : matching table.names text = []) :
    table.complete text = text := by
  change (match matching table.names text with
    | [] => text | command :: commands => commonAll command commands) = text
  rw [h]

lemma SyscallTable.complete_of_cons {first : List UInt8} {rest : List (List UInt8)}
    (h : matching table.names text = first :: rest) : table.complete text = commonAll first rest := by
  change (match matching table.names text with
    | [] => text | command :: commands => commonAll command commands) = _
  rw [h]

lemma SyscallTable.isPrefix_complete (table : SyscallTable) (text : List UInt8) :
    text <+: table.complete text := by
  cases h : matching table.names text with
  | nil => rw [SyscallTable.complete_of_nil h]
  | cons first rest =>
    have hall : ∀ command ∈ first :: rest, text <+: command := fun command hmem => by
      rw [← h, matching, mem_filter] at hmem
      exact of_decide_eq_true hmem.2
    rw [SyscallTable.complete_of_cons h, isPrefix_commonAll_iff]
    exact forall_mem_cons.mp hall

/-- The first bytes of the line become those of the completed text, if the buffer has so many. -/
lemma mshAutoComplete_line {line : ℕ → UInt8} (htext : 0 ∉ text) (hne : text ≠ [])
    (hlength : strlen size line = some text.length) (hline : ∀ i < text.length, line i = cstr text i) :
    mshAutoComplete size table line =
      if (table.complete text).length ≤ size then
        .ok fun i => if i < (table.complete text).length then cstr (table.complete text) i else line i
      else .error .badIndex := by
  have hpos := length_pos_of_ne_nil hne
  have hfirst : line 0 ≠ 0 := hline 0 hpos ▸ cstr_ne_zero htext hpos
  have hround : completeRound line text.length = completeRound (cstr text) text.length := by
    funext c name
    rw [completeRound, completeRound, rtStrncmp_congr hline]
  rw [mshAutoComplete, if_neg hfirst, hlength]
  dsimp only
  rw [hround]
  rcases foldl_completeRound htext hne table.nonzero with
    ⟨hfold, hnone⟩ | ⟨name, k, first, rest, hfold, hk, hname, hpre, hmatching, htake⟩
  · have hsize := mem_range.mp (mem_of_find?_eq_some hlength)
    rw [hfold, SyscallTable.complete_of_nil hnone, if_pos hsize.le]
    dsimp only
    refine congrArg _ (funext fun i => ?_)
    split
    case isTrue hi => exact hline i hi
    case isFalse => rfl
  · rw [hfold, SyscallTable.complete_of_cons hmatching, ← htake, length_take, min_eq_left hk]
    refine if_congr Iff.rfl (congrArg _ (funext fun i => ?_)) rfl
    rw [rtStrncpy, strncpyFrom_eq hname, Nat.zero_add]
    refine if_ctx_congr (by simp) (fun hi => (cstr_take hi).symm) fun _ => rfl

/-- The typed text is replaced by the completed text, if the buffer can hold it. -/
lemma mshAutoComplete_eq (htext : 0 ∉ text) (hne : text ≠ []) (hsize : text.length < size) :
    mshAutoComplete size table (cstr text) =
      if (table.complete text).length ≤ size then .ok (cstr (table.complete text))
      else .error .badIndex := by
  rw [mshAutoComplete_line htext hne (strlen_cstr htext hsize) fun _ _ => rfl]
  refine if_congr Iff.rfl (congrArg _ (funext fun i => ?_)) rfl
  split
  case isTrue => rfl
  case isFalse hi =>
    have hle := (table.isPrefix_complete text).length_le
    rw [cstr_of_ge (by omega), cstr_of_ge (by omega)]

lemma SyscallTable.zero_not_mem_complete (table : SyscallTable) (htext : 0 ∉ text) (hne : text ≠ []) :
    0 ∉ table.complete text := by
  rcases foldl_completeRound htext hne table.nonzero with
    ⟨-, hnone⟩ | ⟨name, k, first, rest, -, -, hname, -, hmatching, htake⟩
  · rwa [SyscallTable.complete_of_nil hnone]
  · rw [SyscallTable.complete_of_cons hmatching, ← htake]
    exact fun hmem => hname (mem_of_mem_take hmem)

/-! ## Completion in a buffer -/

/-- A buffer of `size` bytes holds a text with its NUL. The bytes behind the NUL are arbitrary. -/
def HasText (size : ℕ) (line : ℕ → UInt8) (text : List UInt8) : Prop :=
  strlen size line = some text.length ∧ ∀ i < text.length, line i = cstr text i

/-- A text that was typed into a buffer of `size` bytes. -/
structure TypedLine (size : ℕ) where
  line : ℕ → UInt8
  text : List UInt8
  nonzero : 0 ∉ text
  nonempty : text ≠ []
  hasText : HasText size line text

/-- The typed text is replaced by the longest common prefix of all commands that begin with it, and
stays as it is if there is none. -/
def Completes (table : SyscallTable) (t : TypedLine size) : Prop :=
  ∃ line, mshAutoComplete size table t.line = .ok line ∧ HasText size line (table.complete t.text)

theorem SyscallTable.isPrefix_complete_iff {p : List UInt8}
    (h : ∃ command ∈ table.commands, text <+: command) :
    p <+: table.complete text ↔ ∀ command ∈ table.commands, text <+: command → p <+: command := by
  obtain ⟨command, hmem, hpre⟩ := h
  cases hmatch : matching table.names text with
  | nil =>
    have hfilter := filter_eq_nil_iff.mp hmatch command hmem
    exact absurd (decide_eq_true hpre) hfilter
  | cons first rest =>
    rw [SyscallTable.complete_of_cons hmatch, isPrefix_commonAll_iff, ← forall_mem_cons, ← hmatch]
    simp only [matching, SyscallTable.commands, mem_filter, decide_eq_true_eq, and_imp]

lemma Completes.nul {t : TypedLine size} (h : Completes table t) :
    (table.complete t.text).length < size ∧ t.line (table.complete t.text).length = 0 := by
  obtain ⟨line, hok, hlength, -⟩ := h
  rw [mshAutoComplete_line t.nonzero t.nonempty t.hasText.1 t.hasText.2] at hok
  obtain ⟨-, ⟨⟩⟩ := (ite_eq_iff.mp hok).resolve_right (fun h => nomatch h.2)
  obtain ⟨hnul, hsize, -⟩ := find?_range_eq_some.mp hlength
  exact ⟨mem_range.mp hsize, by simpa using hnul⟩

/-- The completion works iff the completed text fits in the buffer and the byte behind it is
a NUL already. -/
theorem completes_iff (table : SyscallTable) (t : TypedLine size) :
    Completes table t ↔ (table.complete t.text).length < size ∧
      t.line (table.complete t.text).length = 0 := by
  constructor
  · exact Completes.nul
  · rintro ⟨hsize, hnul⟩
    have hzero := table.zero_not_mem_complete t.nonzero t.nonempty
    rw [Completes, mshAutoComplete_line t.nonzero t.nonempty t.hasText.1 t.hasText.2]
    refine ⟨_, if_pos hsize.le, find?_range_eq_some.mpr ⟨by simpa using hnul,
      mem_range.mpr hsize, fun i hi => ?_⟩, fun i hi => if_pos hi⟩
    simpa [hi] using cstr_ne_zero hzero hi

/-- The letter `h` and its NUL, with the rest of a longer line behind them. -/
def typedOverRest : TypedLine 80 where
  line := cstr [0x68, 0, 0x61, 0x61, 0x61, 0x61]
  text := [0x68]
  nonzero := by decide
  nonempty := by decide
  hasText := ⟨by decide, by decide⟩

/-- The command is `help`, and the line becomes `helpaa`. -/
theorem not_completes_over_rest :
    ¬ Completes ⟨[cmdTag ++ [0x68, 0x65, 0x6c, 0x70]], by decide⟩ typedOverRest :=
  fun h => absurd h.nul.2 (by decide)

end Finsh
