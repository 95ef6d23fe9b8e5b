import TempSns.Lib.CString
import TempSns.Lib.Exec
import TempSns.Lib.Words

/-!
# Paths of the device file system

Embedding of `dfs_normalize_path` of `components/dfs/src/dfs.c`, in the configuration
`DFS_USING_WORKDIR`. The function rewrites the string in place: the source cursor reads the buffer ahead
of the destination cursor, which writes it. The joined path is the text that `rt_snprintf` writes for
`"%s/%s"`.

`Walk` is what the function is for: the components of the path are folded with a stack. A `..` on an
empty stack is an escape from the root.
-/

namespace Dfs

open CString Words Function

def slash : UInt8 := 0x2f

def dot : UInt8 := 0x2e

/-- A C string. -/
structure PathText where
  chars : List UInt8
  nonzero : 0 ∉ chars

structure AbsolutePath extends PathText where
  absolute : chars.head? = some slash

/-- The buffer `fullpath` and the cursors `src` and `dst`. -/
structure Cursors where
  /-- The block. -/
  fullpath : ℕ → UInt8
  /-- Where the next character is read. -/
  src : ℕ
  /-- Where it is written. -/
  dst : ℕ

/-- The loop over slashes. `left` is the number of bytes from the cursor to the end of the block. -/
def skipSlashes (fullpath : ℕ → UInt8) : ℕ → ℕ → Except Fault ℕ
  | 0, _ => .error .badIndex
  | left + 1, src => if fullpath src = slash then skipSlashes fullpath left (src + 1) else .ok src

/-- The loop that copies up to the next `/`, and the character that ended it. -/
def copyName : ℕ → Cursors → Except Fault (Cursors × UInt8)
  | 0, _ => .error .badIndex
  | left + 1, k =>
    if k.fullpath k.src = 0 ∨ k.fullpath k.src = slash then
      .ok ({ k with src := k.src + 1 }, k.fullpath k.src)
    else copyName left
      ⟨update k.fullpath k.dst (k.fullpath k.src), k.src + 1, k.dst + 1⟩

/-- The loop that moves the destination back behind the previous `/`. -/
def backUp (fullpath : ℕ → UInt8) : ℕ → ℕ
  | 0 => 0
  | dst + 1 => if fullpath dst = slash then dst + 1 else backUp fullpath dst

/-- How a round of the loop ends. -/
inductive Round
  /-- The loop continues. -/
  | next (k : Cursors)
  /-- The end of the string is reached. -/
  | finish (k : Cursors)
  /-- The function returns `NULL`. -/
  | null

/-- The code behind the label `up_one`. -/
def upOne (k : Cursors) : Round :=
  match k.dst with
  | 0 => .null
  | dst + 1 => .next { k with dst := backUp k.fullpath dst }

/-- The end of a copied name: a `/` is written and all further ones are erased. -/
def endName (size : ℕ) (k : Cursors) (c : UInt8) : Except Fault Round :=
  if c = slash then
    (skipSlashes (update k.fullpath k.dst slash) (size - k.src) k.src).map fun src =>
      .next ⟨update k.fullpath k.dst slash, src, k.dst + 1⟩
  else .ok (.finish k)

def copyRound (size : ℕ) (k : Cursors) : Except Fault Round :=
  copyName (size - k.src) k >>= fun r => endName size r.1 r.2

/-- A round of the loop, in a block of `size` bytes. -/
def round (size : ℕ) (k : Cursors) : Except Fault Round :=
  if k.fullpath k.src = dot then
    -- '.' and ends
    if k.fullpath (k.src + 1) = 0 then copyRound size { k with src := k.src + 1 }
    -- './' case
    else if k.fullpath (k.src + 1) = slash then
      (skipSlashes k.fullpath (size - (k.src + 2)) (k.src + 2)).map fun src => .next { k with src }
    else if k.fullpath (k.src + 1) = dot then
      -- '..' and ends case
      if k.fullpath (k.src + 2) = 0 then .ok (upOne { k with src := k.src + 2 })
      -- '../' case
      else if k.fullpath (k.src + 2) = slash then
        (skipSlashes k.fullpath (size - (k.src + 3)) (k.src + 3)).map fun src => upOne { k with src }
      else copyRound size k
    else copyRound size k
  else copyRound size k

def normalizeLoop (size : ℕ) : ℕ → Cursors → Except Fault (Option Cursors)
  | 0, _ => .error .diverges
  | fuel + 1, k => round size k >>= fun
    | .next k => normalizeLoop size fuel k
    | .finish k => .ok (some k)
    | .null => .ok none

/-- Remove `/` in the end of the path if it exists. A destination at the start of the buffer is moved in
front of it, to the byte `below` the block. -/
def trimSlash (below : UInt8) (fullpath : ℕ → UInt8) : ℕ → Except Fault (ℕ → UInt8)
  | 0 => if below = slash then .error .badIndex else .ok fullpath
  | dst + 1 =>
    if dst ≠ 0 ∧ fullpath dst = slash then .ok (update fullpath dst 0) else .ok fullpath

/-- Final check that the path is not empty. -/
def rootIfEmpty (fullpath : ℕ → UInt8) : ℕ → UInt8 :=
  if fullpath 0 = 0 then update (update fullpath 0 slash) 1 0 else fullpath

/-- The text that a buffer of `size` bytes holds. -/
def textOf (size : ℕ) (s : ℕ → UInt8) : List UInt8 :=
  ((List.range size).map s).takeWhile (· ≠ 0)

/-- The end of `dfs_normalize_path` on the text in `fullpath`. -/
def normalizeText (below : UInt8) (text : List UInt8) : Except Fault (Option (List UInt8)) :=
  normalizeLoop (text.length + 1) (text.length + 1) ⟨cstr text, 0, 0⟩ >>= fun
    | none => .ok none
    | some k =>
      (trimSlash below (update k.fullpath k.dst 0) k.dst).map fun fullpath =>
        some (textOf (text.length + 1) (rootIfEmpty fullpath))

def fullText (directory : AbsolutePath) (filename : PathText) : List UInt8 :=
  if filename.chars.head? ≠ some slash then directory.chars ++ slash :: filename.chars
  else filename.chars

/-- `alloc` says whether the allocation succeeds and `below` is the byte in front
of the allocated block. The result `none` is `NULL`. -/
def dfsNormalizePath (alloc : Bool) (below : UInt8) (workingDirectory : AbsolutePath)
    (directory : Option AbsolutePath) (filename : PathText) : Except Fault (Option (List UInt8)) :=
  if alloc then normalizeText below (fullText (directory.getD workingDirectory) filename)
  else .ok none

/-! ## Components of a path -/

/-- The state of a walk along the components. -/
structure Walk where
  stack : List (List UInt8)
  /-- The number of times that `..` met an empty stack. -/
  escapes : ℕ

/-- The effect of a component. -/
def Walk.step (w : Walk) (c : List UInt8) : Walk :=
  if c = [dot] then w
  else if c = [dot, dot] then
    ⟨w.stack.dropLast, if w.stack = [] then w.escapes + 1 else w.escapes⟩
  else ⟨w.stack ++ [c], w.escapes⟩

def walk (path : List UInt8) : Walk := (words slash path).foldl Walk.step ⟨[], 0⟩

def render (stack : List (List UInt8)) : List UInt8 :=
  if stack = [] then [slash] else join slash stack

/-- A canonical absolute path. -/
structure Canonical (path : List UInt8) : Prop where
  absolute : path.head? = some slash
  noTrailing : path ≠ [slash] → path.getLast? ≠ some slash
  components : path ≠ [slash] → ∀ c ∈ path.tail.splitOn slash, c ≠ [] ∧ c ≠ [dot] ∧ c ≠ [dot, dot]

/-- The call returns `NULL` or the canonical path of the folded components, which is left unchanged when
it is normalized again. -/
def NormalizeOk (alloc : Bool) (below : UInt8) (workingDirectory : AbsolutePath)
    (directory : Option AbsolutePath) (filename : PathText) : Prop :=
  ∃ result, dfsNormalizePath alloc below workingDirectory directory filename = .ok result ∧
    ∀ path, result = some path → Canonical path ∧
      path = render (walk (fullText (directory.getD workingDirectory) filename)).stack ∧
      ∀ (below' : UInt8) (workingDirectory' : AbsolutePath) (directory' : Option AbsolutePath)
        (filename' : PathText), filename'.chars = path →
        dfsNormalizePath true below' workingDirectory' directory' filename' = .ok (some path)

end Dfs
