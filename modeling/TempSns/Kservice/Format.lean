import TempSns.Lib.Exec
import TempSns.Lib.Sink

/-!
# Formatted output

Embedding of `rt_vsnprintf` with `print_number`, `divide` and `skip_atoi` of `src/kservice.c`, in the
configuration of the source: `RT_PRINTF_PRECISION` is defined, `RT_PRINTF_LONGLONG` and
`RT_PRINTF_SPECIAL` are not. Pointers are 32-bit addresses and wrap. The widths and the precision are of
type `int`; they are integers here, as a format whose numbers leave the range of `int` has no defined
behaviour.

The format is the list of its characters before the NUL. An argument is a word of the argument list, and
`strings` gives the text at an address. The buffer does not overlap the format and the strings.
-/

namespace Kservice

open Sink

/-- The flags of a conversion. -/
structure Flags where
  zeropad : Bool
  sign : Bool
  plus : Bool
  space : Bool
  left : Bool
  special : Bool
  large : Bool

def Flags.none : Flags := ⟨false, false, false, false, false, false, false⟩

/-- The loop `while (a < b--)`: the number of rounds and the value of `b` after it. -/
def postLoop (a b : ℤ) : ℕ × ℤ := if a < b then ((b - a).toNat, a - 1) else (0, b - 1)

def preLoop (b : ℤ) : ℕ × ℤ := if 0 < b - 1 then ((b - 1).toNat, 0) else (0, b - 1)

/-- A character is put out several times. -/
def pad (last : UInt32) (k : Sink) (c : UInt8) (n : ℕ) : Sink := puts last k (List.replicate n c)

/-! ## Numbers -/

def divideBase (base : ℕ) : ℕ := if base = 10 then 10 else 16

/-- The loop over `divide`, as often as there is room in `tmp`. -/
def digitLoop (b : ℕ) : ℕ → ℕ → List ℕ
  | 0, _ => []
  | room + 1, num => if num = 0 then [] else num % b :: digitLoop b room (num / b)

/-- A character of `small_digits` or `large_digits`. -/
def digitChar (large : Bool) (d : ℕ) : UInt8 :=
  if d < 10 then 0x30 + UInt8.ofNat d
  else if large then 0x37 + UInt8.ofNat d
  else 0x57 + UInt8.ofNat d

/-- The array `tmp`: the digits of the number, the last one first. -/
def tmpDigits (large : Bool) (base : ℕ) (num : UInt32) : List UInt8 :=
  if num = 0 then [0x30] else (digitLoop (divideBase base) 16 num.toNat).map (digitChar large)

/-- The variable `sign`, with `none` for zero. -/
def signChar (flags : Flags) (num : Int32) : Option UInt8 :=
  if flags.sign then
    if num < 0 then some 0x2d
    else if flags.plus then some 0x2b
    else if flags.space then some 0x20
    else none
  else none

/-- The number without its sign. -/
def magnitude (flags : Flags) (num : Int32) : UInt32 :=
  if flags.sign ∧ num < 0 then (-num).toUInt32 else num.toUInt32

/-- The variables of `print_number` that do not depend on the buffer. -/
structure NumberSpec where
  sign : Option UInt8
  /-- The digits, the last one first. -/
  tmp : List UInt8
  /-- The least number of digits. -/
  precision : ℤ
  precisionBak : ℤ
  /-- The padding is on the left, before the sign. -/
  padFirst : Bool
  left : Bool
  /-- The padding character behind the sign. -/
  c : UInt8

/-- The start of `print_number`. -/
def numberSpec (num : Int32) (base : ℕ) (precision : ℤ) (flags : Flags) : NumberSpec :=
  let tmp := tmpDigits flags.large base (magnitude flags num)
  let zeropad := flags.zeropad && !flags.left
  { sign := signChar flags num
    tmp
    precision := if (tmp.length : ℤ) > precision then tmp.length else precision
    precisionBak := precision
    padFirst := !(zeropad || flags.left)
    left := flags.left
    c := if zeropad then 0x30 else 0x20 }

/-- The padding before the sign: its length and the value of `size` after it. -/
def padBefore (n : NumberSpec) (size : ℤ) : ℕ × ℤ :=
  if n.padFirst then postLoop 0 (if n.sign.isSome ∧ size > 0 then size - 1 else size) else (0, size)

def padBehind (n : NumberSpec) (size : ℤ) : ℕ × ℤ := if n.left then (0, size) else postLoop 0 size

/-- The digits that are put out: none for a precision of zero. -/
def shownDigits (n : NumberSpec) : List UInt8 := if n.precisionBak ≠ 0 then n.tmp.reverse else []

/-- `print_number` behind the sign. -/
def printDigits (last : UInt32) (k : Sink) (n : NumberSpec) (size : ℤ) : Sink :=
  -- no align to the left
  let k := pad last k n.c (padBehind n size).1
  let k := pad last k 0x30 (postLoop n.tmp.length n.precision).1
  -- put number in the temporary buffer
  let k := puts last k (shownDigits n)
  pad last k 0x20 (postLoop 0 (padBehind n size).2).1

/-- `print_number` from the sign on. The size is decremented only if the sign fits. -/
def printSign (last : UInt32) (k : Sink) (n : NumberSpec) (size : ℤ) : Sink :=
  match n.sign with
  | none => printDigits last k n size
  | some c => printDigits last (put last k c) n (if k.str ≤ last then size - 1 else size)

def printNumber (last : UInt32) (k : Sink) (num : Int32) (base : ℕ) (s precision : ℤ)
    (flags : Flags) : Sink :=
  let n := numberSpec num base precision flags
  let size := s - n.precision
  printSign last (pad last k 0x20 (padBefore n size).1) n (padBefore n size).2

/-! ## Format -/

/-- A position in the format and in the argument list. -/
structure Cursor where
  fmt : List UInt8
  arg : ℕ

def IsDigit (c : UInt8) : Prop := 0x30 ≤ c ∧ c ≤ 0x39

/-- Whether a character is a digit is decidable. -/
instance (c : UInt8) : Decidable (IsDigit c) := by
  unfold IsDigit
  infer_instance

/-- `skip_atoi`, with the value so far. -/
def skipAtoi : ℤ → List UInt8 → ℤ × List UInt8
  | i, c :: s => if IsDigit c then skipAtoi (i * 10 + c.toNat - 0x30) s else (i, c :: s)
  | i, [] => (i, [])

def parseFlags : Flags → List UInt8 → Flags × List UInt8
  | flags, c :: fmt =>
    if c = 0x2d then parseFlags { flags with left := true } fmt
    else if c = 0x2b then parseFlags { flags with plus := true } fmt
    else if c = 0x20 then parseFlags { flags with space := true } fmt
    else if c = 0x23 then parseFlags { flags with special := true } fmt
    else if c = 0x30 then parseFlags { flags with zeropad := true } fmt
    else (flags, c :: fmt)
  | flags, [] => (flags, [])

def intArg (args : ℕ → UInt32) (i : ℕ) : ℤ := (args i).toInt32.toInt

/-- Get field width. A negative width of the argument list sets the flag `LEFT`. -/
def parseWidth (args : ℕ → UInt32) (k : Cursor) : Bool × ℤ × Cursor :=
  match k.fmt with
  | [] => (false, -1, k)
  | c :: fmt =>
    if IsDigit c then (false, (skipAtoi 0 k.fmt).1, ⟨(skipAtoi 0 k.fmt).2, k.arg⟩)
    else if c = 0x2a then
      if intArg args k.arg < 0 then (true, -intArg args k.arg, ⟨fmt, k.arg + 1⟩)
      else (false, intArg args k.arg, ⟨fmt, k.arg + 1⟩)
    else (false, -1, k)

/-- The number behind the point. -/
def parsePrecisionValue (args : ℕ → UInt32) (k : Cursor) : ℤ × Cursor :=
  match k.fmt with
  | [] => (-1, k)
  | c :: fmt =>
    if IsDigit c then ((skipAtoi 0 k.fmt).1, ⟨(skipAtoi 0 k.fmt).2, k.arg⟩)
    else if c = 0x2a then (intArg args k.arg, ⟨fmt, k.arg + 1⟩)
    else (-1, k)

def parsePrecision (args : ℕ → UInt32) (k : Cursor) : ℤ × Cursor :=
  match k.fmt with
  | [] => (-1, k)
  | c :: fmt =>
    if c = 0x2e then
      let r := parsePrecisionValue args ⟨fmt, k.arg⟩
      (if r.1 < 0 then 0 else r.1, r.2)
    else (-1, k)

/-- Get the conversion qualifier, with zero for none. -/
def parseQualifier (k : Cursor) : UInt8 × Cursor :=
  match k.fmt with
  | [] => (0, k)
  | c :: fmt => if c = 0x68 ∨ c = 0x6c then (c, ⟨fmt, k.arg⟩) else (0, k)

/-- What stands between `%` and the conversion character. -/
structure ConvSpec where
  flags : Flags
  fieldWidth : ℤ
  precision : ℤ
  qualifier : UInt8

/-- The format behind a `%`, up to the conversion character. -/
def parseSpec (args : ℕ → UInt32) (k : Cursor) : ConvSpec × Cursor :=
  let f := parseFlags .none k.fmt
  let w := parseWidth args ⟨f.2, k.arg⟩
  let p := parsePrecision args w.2.2
  let q := parseQualifier p.2
  (⟨{ f.1 with left := f.1.left || w.1 }, w.2.1, p.1, q.1⟩, q.2)

/-! ## Conversions -/

/-- The texts that the string arguments point to. -/
structure Strings where
  text : UInt32 → List UInt8

def nullText : List UInt8 := [0x28, 0x4e, 0x55, 0x4c, 0x4c, 0x29]

def stringArg (strings : Strings) (word : UInt32) : List UInt8 :=
  if word = 0 then nullText else strings.text word

/-- The number of characters of a string that are put out. -/
def stringLen (s : List UInt8) (precision : ℤ) : ℤ :=
  if precision > 0 ∧ (s.length : ℤ) > precision then precision else s.length

/-- The value of an integer argument. -/
def numberArg (signed : Bool) (qualifier : UInt8) (word : UInt32) : Int32 :=
  if qualifier = 0x68 then
    if signed then word.toUInt16.toInt16.toInt32 else word.toUInt16.toUInt32.toInt32
  else word.toInt32

def putChar (last : UInt32) (k : Sink) (left : Bool) (fieldWidth : ℤ) (c : UInt8) : Sink :=
  let before := if left then (0, fieldWidth) else preLoop fieldWidth
  let k := pad last k 0x20 before.1
  let k := put last k c
  -- put width
  pad last k 0x20 (preLoop before.2).1

def putString (last : UInt32) (k : Sink) (left : Bool) (fieldWidth precision : ℤ) (s : List UInt8) :
    Sink :=
  let len := stringLen s precision
  let before := if left then (0, fieldWidth) else postLoop len fieldWidth
  let k := pad last k 0x20 before.1
  let k := puts last k (s.take len.toNat)
  pad last k 0x20 (postLoop len before.2).1

def numberConv (ch : UInt8) (flags : Flags) : Option (Flags × ℕ) :=
  if ch = 0x6f then some (flags, 8)
  else if ch = 0x58 then some ({ flags with large := true }, 16)
  else if ch = 0x78 then some (flags, 16)
  else if ch = 0x64 ∨ ch = 0x69 then some ({ flags with sign := true }, 10)
  else if ch = 0x75 then some (flags, 10)
  else none

def putPointer (last : UInt32) (k : Sink) (spec : ConvSpec) (word : UInt32) : Sink :=
  if spec.fieldWidth = -1 then
    printNumber last k word.toInt32 16 8 spec.precision { spec.flags with zeropad := true }
  else printNumber last k word.toInt32 16 spec.fieldWidth spec.precision spec.flags

def convert (strings : Strings) (args : ℕ → UInt32) (last : UInt32) (spec : ConvSpec) (k : Sink)
    (cur : Cursor) : Sink × Cursor :=
  match cur.fmt with
  | [] => (put last k 0x25, cur)
  | ch :: fmt =>
    if ch = 0x63 then
      (putChar last k spec.flags.left spec.fieldWidth (args cur.arg).toUInt8, ⟨fmt, cur.arg + 1⟩)
    else if ch = 0x73 then
      (putString last k spec.flags.left spec.fieldWidth spec.precision
        (stringArg strings (args cur.arg)), ⟨fmt, cur.arg + 1⟩)
    else if ch = 0x70 then (putPointer last k spec (args cur.arg), ⟨fmt, cur.arg + 1⟩)
    else if ch = 0x25 then (put last k 0x25, ⟨fmt, cur.arg⟩)
    else
      match numberConv ch spec.flags with
      | some (flags, base) =>
        (printNumber last k (numberArg flags.sign spec.qualifier (args cur.arg)) base
          spec.fieldWidth spec.precision flags, ⟨fmt, cur.arg + 1⟩)
      | none => (put last (put last k 0x25) ch, ⟨fmt, cur.arg⟩)

def formatLoop (strings : Strings) (args : ℕ → UInt32) (last : UInt32) :
    ℕ → Sink → Cursor → Except Fault Sink
  | 0, _, _ => .error .diverges
  | fuel + 1, k, cur =>
    match cur.fmt with
    | [] => .ok k
    | c :: fmt =>
      if c ≠ 0x25 then formatLoop strings args last fuel (put last k c) ⟨fmt, cur.arg⟩
      else
        let parsed := parseSpec args ⟨fmt, cur.arg⟩
        let r := convert strings args last parsed.1 k parsed.2
        formatLoop strings args last fuel r.1 r.2

def endPointer (buf size : UInt32) : UInt32 :=
  -- Make sure end is always >= buf
  if buf + size - 1 < buf then 0xffffffff else buf + size - 1

def terminate (last : UInt32) (k : Sink) : UInt32 → UInt8 :=
  if k.str ≤ last then Function.update k.mem k.str 0 else Function.update k.mem last 0

/-- The memory after the call and the returned length. -/
def rtVsnprintf (strings : Strings) (mem : UInt32 → UInt8) (buf size : UInt32) (fmt : List UInt8)
    (args : ℕ → UInt32) : Except Fault ((UInt32 → UInt8) × Int32) :=
  (formatLoop strings args (endPointer buf size) (fmt.length + 1) ⟨buf, mem⟩ ⟨fmt, 0⟩).map fun k =>
    (terminate (endPointer buf size) k, (k.str - buf).toInt32)

end Kservice
