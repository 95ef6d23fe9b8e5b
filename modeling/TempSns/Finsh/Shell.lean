import TempSns.Finsh.Auth
import TempSns.Finsh.Complete

/-!
# The shell thread

Embedding of the loop of `finsh_thread_entry` and of `shell_push_history` of
`components/finsh/shell.c`, in the configuration of the board: `FINSH_USING_MSH_ONLY` and
`FINSH_USING_HISTORY`. The output to the console is left out. The positions are of type `rt_uint8_t` and
never exceed `FINSH_CMD_SIZE`, so they are natural numbers here. The buffers are maps from indices to
bytes, of which the first `FINSH_CMD_SIZE` exist.
-/

namespace Finsh

open CString Kservice Function

def finshCmdSize : ℕ := 80

def finshHistoryLines : ℕ := 5

inductive InputStat
  | waitNormal
  | waitSpecKey
  | waitFuncKey
deriving DecidableEq

/-- The fields of `struct finsh_shell` that the loop uses. -/
structure Shell where
  /-- How much of an escape sequence was read. -/
  stat : InputStat
  /-- The entry of the history that is shown. -/
  currentHistory : ℕ
  /-- The number of entries in the history. -/
  historyCount : ℕ
  /-- The lines of the history, the oldest one first. -/
  cmdHistory : ℕ → ℕ → UInt8
  /-- The buffer of the line that is edited. -/
  line : ℕ → UInt8
  /-- The length of the line. -/
  linePosition : ℕ
  /-- The position of the cursor. -/
  lineCurpos : ℕ
  /-- The calls of `msh_exec` so far: the bytes of the buffer and the length. -/
  executed : List (List UInt8 × ℕ)

/-- A call of `msh_exec`. -/
def mshCall (line : ℕ → UInt8) (length : ℕ) : List UInt8 × ℕ :=
  ((List.range finshCmdSize).map line, length)

/-- The shell before the first key. -/
def Shell.init : Shell where
  stat := .waitNormal
  currentHistory := 0
  historyCount := 0
  cmdHistory := fun _ _ => 0
  line := fun _ => 0
  linePosition := 0
  lineCurpos := 0
  executed := []

/-! ## History -/

/-- `memcmp` of two buffers finds no difference. -/
def SameBytes (a b : ℕ → UInt8) : Prop := ∀ i < finshCmdSize, a i = b i

/-- Whether two buffers are the same is decidable. -/
instance (a b : ℕ → UInt8) : Decidable (SameBytes a b) := by
  unfold SameBytes
  infer_instance

/-- A row of the history that is cleared and gets the first bytes of the line. -/
def savedRow (s : Shell) : ℕ → UInt8 := fun i => if i < s.linePosition then s.line i else 0

def movedRows (s : Shell) : ℕ → ℕ → UInt8 := fun row =>
  if row < finshHistoryLines - 1 then s.cmdHistory (row + 1)
  else if row = finshHistoryLines - 1 then savedRow s
  else s.cmdHistory row

/-- `shell_push_history` for a line that is not empty. -/
def pushLine (s : Shell) : Shell :=
  if s.historyCount ≥ finshHistoryLines then
    -- if current cmd is same as last cmd, don't push
    if SameBytes (s.cmdHistory (finshHistoryLines - 1)) s.line then s
    else { s with cmdHistory := movedRows s, historyCount := finshHistoryLines }
  else if s.historyCount = 0 ∨ ¬ SameBytes (s.cmdHistory (s.historyCount - 1)) s.line then
    { s with
      cmdHistory := update s.cmdHistory s.historyCount (savedRow s)
      historyCount := s.historyCount + 1 }
  else s

/-- The end of `shell_push_history`. -/
def endHistory (s : Shell) : Shell := { s with currentHistory := s.historyCount }

def shellPushHistory (s : Shell) : Shell :=
  endHistory (if s.linePosition ≠ 0 then pushLine s else s)

/-- The line is a copy of a row of the history, with the cursor at the end. -/
def recallRow (s : Shell) (row : ℕ) : Except Fault Shell :=
  match strlen finshCmdSize (s.cmdHistory row) with
  | none => .error .badIndex
  | some length => .ok { s with
      currentHistory := row
      line := s.cmdHistory row
      linePosition := length
      lineCurpos := length }

/-! ## Loop -/

def upKey (s : Shell) : Except Fault Shell :=
  if s.currentHistory > 0 then recallRow s (s.currentHistory - 1) else .ok s

def downKey (s : Shell) : Except Fault Shell :=
  if s.currentHistory + 1 < s.historyCount then recallRow s (s.currentHistory + 1)
  -- set to the end of history
  else if s.historyCount ≠ 0 then recallRow s (s.historyCount - 1)
  else .ok s

def leftKey (s : Shell) : Shell :=
  if s.lineCurpos ≠ 0 then { s with lineCurpos := s.lineCurpos - 1 } else s

def rightKey (s : Shell) : Shell :=
  if s.lineCurpos < s.linePosition then { s with lineCurpos := s.lineCurpos + 1 } else s

def tabKey (table : SyscallTable) (s : Shell) : Except Fault Shell :=
  mshAutoComplete finshCmdSize table s.line >>= fun line =>
    match strlen finshCmdSize line with
    | none => .error .badIndex
    | some length => .ok { s with line, linePosition := length, lineCurpos := length }

/-- The line without the character before the cursor. -/
def erasedLine (s : Shell) : ℕ → UInt8 :=
  let position := s.linePosition - 1
  let curpos := s.lineCurpos - 1
  if position > curpos then
    update (fun i => if curpos ≤ i ∧ i < position then s.line (i + 1) else s.line i) position 0
  else update s.line position 0

def backspaceKey (s : Shell) : Shell :=
  if s.lineCurpos = 0 then s
  else { s with
    line := erasedLine s
    linePosition := s.linePosition - 1
    lineCurpos := s.lineCurpos - 1 }

def execLine (s : Shell) : Shell :=
  { s with
    executed := s.executed ++ [mshCall s.line s.linePosition]
    line := fun _ => 0
    linePosition := 0
    lineCurpos := 0 }

def enterKey (s : Shell) : Shell := execLine (shellPushHistory s)

def insertedLine (s : Shell) (position : ℕ) (ch : UInt8) : ℕ → UInt8 :=
  if s.lineCurpos < position then
    update (fun i => if s.lineCurpos < i ∧ i ≤ position then s.line (i - 1) else s.line i)
      s.lineCurpos ch
  else update s.line position ch

/-- A character is inserted in a line of `position` characters. -/
def insertKey (s : Shell) (position : ℕ) (ch : UInt8) : Shell :=
  if position + 1 ≥ finshCmdSize then
    -- clear command line
    { s with line := insertedLine s position ch, linePosition := 0, lineCurpos := 0 }
  else { s with
    line := insertedLine s position ch
    linePosition := position + 1
    lineCurpos := s.lineCurpos + 1 }

def normalKey (s : Shell) (ch : UInt8) : Shell :=
  -- it's a large line, discard it
  insertKey s (if s.linePosition ≥ finshCmdSize then 0 else s.linePosition) ch

/-- A character that is not part of a control key. -/
def inputKey (table : SyscallTable) (s : Shell) (ch : UInt8) : Except Fault Shell :=
  -- received null or error
  if ch = 0 ∨ ch = 0xff then .ok s
  else if ch = 0x09 then tabKey table s
  else if ch = 0x7f ∨ ch = 0x08 then .ok (backspaceKey s)
  else if IsEnter ch then .ok (enterKey s)
  else .ok (normalKey s ch)

def Shell.setStat (s : Shell) (stat : InputStat) : Shell := { s with stat }

/-- The last character of a control key. -/
def funcKey (table : SyscallTable) (s : Shell) (ch : UInt8) : Except Fault Shell :=
  if ch = 0x41 then upKey s
  else if ch = 0x42 then downKey s
  else if ch = 0x44 then .ok (leftKey s)
  else if ch = 0x43 then .ok (rightKey s)
  else inputKey table s ch

def threadRound (table : SyscallTable) (s : Shell) (ch : UInt8) : Except Fault Shell :=
  if ch = 0x1b then .ok (s.setStat .waitSpecKey)
  else
    match s.stat with
    | .waitSpecKey =>
      if ch = 0x5b then .ok (s.setStat .waitFuncKey)
      else inputKey table (s.setStat .waitNormal) ch
    | .waitFuncKey => funcKey table (s.setStat .waitNormal) ch
    | .waitNormal => inputKey table s ch

/-- `finsh_thread_entry` on the characters that `finsh_getchar` returns. -/
def finshThreadEntry (table : SyscallTable) (input : List UInt8) : Except Fault Shell :=
  input.foldlM (threadRound table) .init

/-! ## Keys -/

/-- The character has no special meaning for the loop. -/
def Plain (ch : UInt8) : Prop :=
  ch ≠ 0 ∧ ch ≠ 0xff ∧ ch ≠ 0x09 ∧ ch ≠ 0x7f ∧ ch ≠ 0x08 ∧ ¬ IsEnter ch ∧ ch ≠ 0x1b

/-- Whether a character is plain is decidable. -/
instance (ch : UInt8) : Decidable (Plain ch) := by
  unfold Plain
  infer_instance

/-- The keys of a terminal. -/
inductive Key
  | char (ch : {ch // Plain ch})
  | up
  | down
  | left
  | right
  | backspace (ch : {ch : UInt8 // ch = 0x7f ∨ ch = 0x08})
  | tab
  | enter (ch : {ch // IsEnter ch})

def Key.bytes : Key → List UInt8
  | char ch => [ch.1]
  | up => [0x1b, 0x5b, 0x41]
  | down => [0x1b, 0x5b, 0x42]
  | left => [0x1b, 0x5b, 0x44]
  | right => [0x1b, 0x5b, 0x43]
  | backspace ch => [ch.1]
  | tab => [0x09]
  | enter ch => [ch.1]

def keyEffect (table : SyscallTable) (s : Shell) : Key → Except Fault Shell
  | .char ch => .ok (normalKey s ch.1)
  | .up => upKey s
  | .down => downKey s
  | .left => .ok (leftKey s)
  | .right => .ok (rightKey s)
  | .backspace _ => .ok (backspaceKey s)
  | .tab => tabKey table s
  | .enter _ => .ok (enterKey s)

end Finsh
