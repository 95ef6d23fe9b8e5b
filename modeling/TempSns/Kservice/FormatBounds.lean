import TempSns.Kservice.Format
import TempSns.Lib.CString

/-!
# The bounds of formatted output

The output is a list of pieces, one for each literal character and each conversion. A piece depends on
the size of the buffer in one way only: `print_number` takes the sign off the width only if the sign fits
in the buffer. So a sign that does not fit makes the padding behind it one character longer.
-/

namespace Kservice

open Sink CString Function List Except Nat UInt32

variable {strings : Strings} {args : ℕ → UInt32} {last : UInt32} {k : Sink} {n : NumberSpec} {size : ℤ}
  {p : Piece}

/-! ## Pieces of output -/

/-- The output for a part of the format. -/
structure Piece where
  /-- What stands before the sign. -/
  head : List UInt8
  sign : Option UInt8
  /-- What stands behind the sign, if the sign fits and if not. -/
  tail : Bool → List UInt8
  /-- A sign that does not fit changes nothing, or makes the output longer. -/
  tail_cases : tail false = tail true ∨ sign.isSome ∧ (tail true).length < (tail false).length

def Piece.plain (l : List UInt8) : Piece := ⟨l, none, fun _ => [], .inl rfl⟩

/-- The text of a piece in a buffer that is large enough. -/
def Piece.text (p : Piece) : List UInt8 := p.head ++ p.sign.toList ++ p.tail true

/-- The sign is followed by padding that depends on it. -/
def Piece.Padded (p : Piece) : Prop := p.tail false ≠ p.tail true

def Piece.textAt (last str : UInt32) (p : Piece) : List UInt8 :=
  p.head ++ p.sign.toList ++ p.tail (decide (str + ofNat p.head.length ≤ last))

/-- The text of some pieces in a buffer that is large enough. -/
def textOf (ps : List Piece) : List UInt8 := ps.flatMap Piece.text

/-- The text of some pieces from an address on. -/
def charsAt (last : UInt32) : UInt32 → List Piece → List UInt8
  | _, [] => []
  | str, p :: ps =>
    p.textAt last str ++ charsAt last (str + ofNat (p.textAt last str).length) ps

/-- What `print_number` puts out behind the sign. -/
def digitsText (n : NumberSpec) (size : ℤ) : List UInt8 :=
  replicate (padBehind n size).1 n.c ++
    (replicate (postLoop n.tmp.length n.precision).1 0x30 ++
      (shownDigits n ++ replicate (postLoop 0 (padBehind n size).2).1 0x20))

lemma printDigits_eq : printDigits last k n size = puts last k (digitsText n size) := by
  rw [printDigits, digitsText, puts_append, puts_append, puts_append]
  rfl

lemma postLoop_zero_of_nonpos (hsize : size ≤ 0) : postLoop 0 size = (0, size - 1) := by
  rw [postLoop, if_neg (not_lt.mpr hsize)]

lemma postLoop_zero_of_pos (hsize : 0 < size) : postLoop 0 size = (size.toNat, -1) := by
  rw [postLoop, if_pos hsize, sub_zero, zero_sub]

lemma digitsText_of_nonpos (hsize : size ≤ 0) : digitsText n size = digitsText n 0 := by
  rw [digitsText, digitsText, padBehind, padBehind]
  cases n.left with
  | true => simp [postLoop_zero_of_nonpos hsize, postLoop_zero_of_nonpos le_rfl]
  | false =>
    simp [postLoop_zero_of_nonpos hsize, postLoop_zero_of_nonpos le_rfl,
      postLoop_zero_of_nonpos (show size - 1 ≤ 0 by omega),
      postLoop_zero_of_nonpos (show (-1 : ℤ) ≤ 0 by omega)]

lemma length_digitsText_of_pos (hsize : 0 < size) :
    (digitsText n size).length = size.toNat + (digitsText n 0).length := by
  rw [digitsText, digitsText, padBehind, padBehind]
  cases n.left with
  | true =>
    simp [postLoop_zero_of_pos hsize, postLoop_zero_of_nonpos le_rfl]
    omega
  | false =>
    simp [postLoop_zero_of_pos hsize, postLoop_zero_of_nonpos le_rfl,
      postLoop_zero_of_nonpos (show (-1 : ℤ) ≤ 0 by omega)]

def sizeBehind (n : NumberSpec) (size : ℤ) (fits : Bool) : ℤ :=
  if n.sign.isSome ∧ fits = true then size - 1 else size

lemma digitsText_cases (n : NumberSpec) (size : ℤ) :
    digitsText n (sizeBehind n size false) = digitsText n (sizeBehind n size true) ∨
      n.sign.isSome ∧ (digitsText n (sizeBehind n size true)).length <
        (digitsText n (sizeBehind n size false)).length := by
  rw [sizeBehind, sizeBehind]
  by_cases hsign : n.sign.isSome
  · rw [if_neg (by simp), if_pos ⟨hsign, rfl⟩]
    rcases le_or_gt size 0 with hle | hpos
    · exact .inl ((digitsText_of_nonpos hle).trans (digitsText_of_nonpos (by omega)).symm)
    · -- one more character of padding
      refine .inr ⟨hsign, ?_⟩
      rw [length_digitsText_of_pos hpos]
      rcases le_or_gt (size - 1) 0 with hle | hpos'
      · rw [digitsText_of_nonpos hle]
        omega
      · rw [length_digitsText_of_pos hpos']
        omega
  · rw [if_neg (by simp), if_neg fun hand => hsign hand.1]
    exact .inl rfl

/-- The piece that `print_number` puts out. -/
def numberPiece (num : Int32) (base : ℕ) (s precision : ℤ) (flags : Flags) : Piece :=
  let n := numberSpec num base precision flags
  let before := padBefore n (s - n.precision)
  { head := replicate before.1 0x20
    sign := n.sign
    tail := fun fits => digitsText n (sizeBehind n before.2 fits)
    tail_cases := digitsText_cases n before.2 }

lemma printSign_eq : printSign last k n size = puts last k
    (n.sign.toList ++ digitsText n (sizeBehind n size (decide (k.str ≤ last)))) := by
  rw [printSign, puts_append, sizeBehind]
  cases n.sign with
  | none =>
    have hsize : (if (none : Option UInt8).isSome ∧ decide (k.str ≤ last) = true then size - 1
        else size) = size := if_neg (by simp)
    rw [Option.toList_none, puts_nil, hsize]
    exact printDigits_eq
  | some c =>
    rw [Option.toList_some, puts_singleton]
    simp only [Option.isSome_some, decide_eq_true_eq, true_and]
    exact printDigits_eq

lemma printNumber_eq (num : Int32) (base : ℕ) (s precision : ℤ) (flags : Flags) :
    printNumber last k num base s precision flags =
      puts last k ((numberPiece num base s precision flags).textAt last k.str) := by
  rw [printNumber, printSign_eq, pad, str_puts, ← puts_append, ← append_assoc]
  rfl

/-! ## Pieces of a format -/

def charPiece (left : Bool) (fieldWidth : ℤ) (c : UInt8) : Piece :=
  let before := if left then (0, fieldWidth) else preLoop fieldWidth
  .plain (replicate before.1 0x20 ++ ([c] ++ replicate (preLoop before.2).1 0x20))

def stringPiece (left : Bool) (fieldWidth precision : ℤ) (s : List UInt8) : Piece :=
  let len := stringLen s precision
  let before := if left then (0, fieldWidth) else postLoop len fieldWidth
  .plain (replicate before.1 0x20 ++
    (s.take len.toNat ++ replicate (postLoop len before.2).1 0x20))

def pointerPiece (spec : ConvSpec) (word : UInt32) : Piece :=
  if spec.fieldWidth = -1 then
    numberPiece word.toInt32 16 8 spec.precision { spec.flags with zeropad := true }
  else numberPiece word.toInt32 16 spec.fieldWidth spec.precision spec.flags

def convPiece (strings : Strings) (args : ℕ → UInt32) (spec : ConvSpec) (cur : Cursor) :
    Piece × Cursor :=
  match cur.fmt with
  | [] => (.plain [0x25], cur)
  | ch :: fmt =>
    if ch = 0x63 then
      (charPiece spec.flags.left spec.fieldWidth (args cur.arg).toUInt8, ⟨fmt, cur.arg + 1⟩)
    else if ch = 0x73 then
      (stringPiece spec.flags.left spec.fieldWidth spec.precision
        (stringArg strings (args cur.arg)), ⟨fmt, cur.arg + 1⟩)
    else if ch = 0x70 then (pointerPiece spec (args cur.arg), ⟨fmt, cur.arg + 1⟩)
    else if ch = 0x25 then (.plain [0x25], ⟨fmt, cur.arg⟩)
    else
      match numberConv ch spec.flags with
      | some (flags, base) =>
        (numberPiece (numberArg flags.sign spec.qualifier (args cur.arg)) base
          spec.fieldWidth spec.precision flags, ⟨fmt, cur.arg + 1⟩)
      | none => (.plain [0x25, ch], ⟨fmt, cur.arg⟩)

/-- The pieces of a format of at most `fuel` characters. -/
def piecesFrom (strings : Strings) (args : ℕ → UInt32) : ℕ → Cursor → List Piece
  | 0, _ => []
  | fuel + 1, cur =>
    match cur.fmt with
    | [] => []
    | c :: fmt =>
      if c ≠ 0x25 then .plain [c] :: piecesFrom strings args fuel ⟨fmt, cur.arg⟩
      else
        let parsed := parseSpec args ⟨fmt, cur.arg⟩
        let r := convPiece strings args parsed.1 parsed.2
        r.1 :: piecesFrom strings args fuel r.2

def formatPieces (strings : Strings) (fmt : List UInt8) (args : ℕ → UInt32) : List Piece :=
  piecesFrom strings args fmt.length ⟨fmt, 0⟩

lemma textAt_plain (str : UInt32) (l : List UInt8) : (Piece.plain l).textAt last str = l := by
  simp [Piece.plain, Piece.textAt]

lemma putChar_eq (left : Bool) (fieldWidth : ℤ) (c : UInt8) : putChar last k left fieldWidth c =
      puts last k ((charPiece left fieldWidth c).textAt last k.str) := by
  rw [charPiece, textAt_plain, puts_append, puts_append, puts_singleton]
  rfl

lemma putString_eq (left : Bool) (fieldWidth precision : ℤ) (s : List UInt8) :
    putString last k left fieldWidth precision s =
      puts last k ((stringPiece left fieldWidth precision s).textAt last k.str) := by
  rw [stringPiece, textAt_plain, puts_append, puts_append]
  rfl

lemma putPointer_eq (spec : ConvSpec) (word : UInt32) :
    putPointer last k spec word = puts last k ((pointerPiece spec word).textAt last k.str) := by
  rw [putPointer, pointerPiece]
  split
  case isTrue => exact printNumber_eq ..
  case isFalse => exact printNumber_eq ..

lemma convert_eq (spec : ConvSpec) (cur : Cursor) : convert strings args last spec k cur =
      (puts last k ((convPiece strings args spec cur).1.textAt last k.str),
        (convPiece strings args spec cur).2) := by
  rw [convert, convPiece]
  cases cur.fmt with
  | nil => exact congrArg (·, cur) (by rw [textAt_plain]; rfl)
  | cons ch fmt =>
    dsimp only
    split_ifs
    · exact congrArg (·, _) (putChar_eq ..)
    · exact congrArg (·, _) (putString_eq ..)
    · exact congrArg (·, _) (putPointer_eq ..)
    · exact congrArg (·, _) (by rw [textAt_plain]; rfl)
    · cases numberConv ch spec.flags with
      | some conv => exact congrArg (·, _) (printNumber_eq ..)
      | none => exact congrArg (·, _) (by rw [textAt_plain]; rfl)

/-! ## Format gets shorter -/

lemma length_skipAtoi (i : ℤ) (fmt : List UInt8) : (skipAtoi i fmt).2.length ≤ fmt.length := by
  induction fmt generalizing i with
  | nil => exact le_rfl
  | cons c fmt ih =>
    rw [skipAtoi]
    split
    case isTrue => exact (ih _).trans (le_succ _)
    case isFalse => exact le_rfl

lemma length_parseFlags (flags : Flags) (fmt : List UInt8) :
    (parseFlags flags fmt).2.length ≤ fmt.length := by
  induction fmt generalizing flags with
  | nil => exact le_rfl
  | cons c fmt ih =>
    rw [parseFlags]
    split_ifs
    all_goals first | exact le_rfl | exact (ih _).trans (le_succ _)

lemma length_parseWidth (args : ℕ → UInt32) (cur : Cursor) :
    (parseWidth args cur).2.2.fmt.length ≤ cur.fmt.length := by
  obtain ⟨fmt, arg⟩ := cur
  cases fmt with
  | nil => exact le_rfl
  | cons c fmt =>
    rw [parseWidth]
    dsimp only
    split_ifs
    · exact length_skipAtoi 0 (c :: fmt)
    · exact le_succ _
    · exact le_succ _
    · exact le_rfl

lemma length_parsePrecisionValue (args : ℕ → UInt32) (cur : Cursor) :
    (parsePrecisionValue args cur).2.fmt.length ≤ cur.fmt.length := by
  obtain ⟨fmt, arg⟩ := cur
  cases fmt with
  | nil => exact le_rfl
  | cons c fmt =>
    rw [parsePrecisionValue]
    dsimp only
    split_ifs
    · exact length_skipAtoi 0 (c :: fmt)
    · exact le_succ _
    · exact le_rfl

lemma length_parsePrecision (args : ℕ → UInt32) (cur : Cursor) :
    (parsePrecision args cur).2.fmt.length ≤ cur.fmt.length := by
  obtain ⟨fmt, arg⟩ := cur
  cases fmt with
  | nil => exact le_rfl
  | cons c fmt =>
    rw [parsePrecision]
    by_cases hc : c = 0x2e
    · dsimp only
      rw [if_pos hc]
      exact (length_parsePrecisionValue args ⟨fmt, arg⟩).trans (le_succ _)
    · dsimp only
      rw [if_neg hc]

lemma length_parseQualifier (cur : Cursor) :
    (parseQualifier cur).2.fmt.length ≤ cur.fmt.length := by
  obtain ⟨fmt, arg⟩ := cur
  cases fmt with
  | nil => exact le_rfl
  | cons c fmt =>
    rw [parseQualifier]
    dsimp only
    split_ifs
    · exact le_succ _
    · exact le_rfl

lemma length_parseSpec (args : ℕ → UInt32) (cur : Cursor) :
    (parseSpec args cur).2.fmt.length ≤ cur.fmt.length :=
  calc (parseSpec args cur).2.fmt.length
      ≤ (parsePrecision args (parseWidth args ⟨(parseFlags .none cur.fmt).2, cur.arg⟩).2.2).2.fmt.length :=
        length_parseQualifier _
    _ ≤ (parseWidth args ⟨(parseFlags .none cur.fmt).2, cur.arg⟩).2.2.fmt.length :=
        length_parsePrecision args _
    _ ≤ (parseFlags .none cur.fmt).2.length := length_parseWidth args _
    _ ≤ cur.fmt.length := length_parseFlags _ _

lemma length_convPiece (strings : Strings) (args : ℕ → UInt32) (spec : ConvSpec) (cur : Cursor) :
    (convPiece strings args spec cur).2.fmt.length ≤ cur.fmt.length := by
  obtain ⟨fmt, arg⟩ := cur
  cases fmt with
  | nil => exact le_rfl
  | cons ch fmt =>
    rw [convPiece]
    dsimp only
    split_ifs
    · exact le_succ _
    · exact le_succ _
    · exact le_succ _
    · exact le_succ _
    · cases numberConv ch spec.flags with
      | some conv => exact le_succ _
      | none => exact le_succ _

lemma formatLoop_eq {fuel : ℕ} {cur : Cursor} (hfuel : cur.fmt.length ≤ fuel) :
    formatLoop strings args last (fuel + 1) k cur =
      .ok (puts last k (charsAt last k.str (piecesFrom strings args fuel cur))) := by
  induction fuel generalizing k cur with
  | zero =>
    have hnil : cur.fmt = [] := length_eq_zero_iff.mp (le_zero.mp hfuel)
    rw [formatLoop, hnil]
    rfl
  | succ fuel ih =>
    rw [formatLoop, piecesFrom]
    cases hfmt : cur.fmt with
    | nil => rfl
    | cons c fmt =>
      rw [hfmt, length_cons] at hfuel
      dsimp only
      split
      case isTrue =>
        rw [ih (by dsimp only; omega), charsAt, textAt_plain, puts_append]
        rfl
      case isFalse =>
        have hspec := length_parseSpec args ⟨fmt, cur.arg⟩
        have hconv := length_convPiece strings args
          (parseSpec args ⟨fmt, cur.arg⟩).1 (parseSpec args ⟨fmt, cur.arg⟩).2
        dsimp only at hspec
        rw [convert_eq]
        dsimp only
        rw [ih (by omega), charsAt, puts_append, str_puts]

/-! ## Signs that fit -/

variable {ps : List Piece} {str : UInt32}

/-- Every sign with padding behind it is before the offset `size`, for pieces that begin at `offset`. -/
def SignsFit (size offset : ℕ) (ps : List Piece) : Prop :=
  ∀ ps₁ p ps₂, ps = ps₁ ++ p :: ps₂ → p.Padded →
    offset + (textOf ps₁).length + p.head.length < size

lemma textOf_cons (p : Piece) (ps : List Piece) : textOf (p :: ps) = p.text ++ textOf ps :=
  flatMap_cons

lemma signsFit_cons {size offset : ℕ} : SignsFit size offset (p :: ps) ↔
    (p.Padded → offset + p.head.length < size) ∧ SignsFit size (offset + p.text.length) ps := by
  constructor
  · intro h
    refine ⟨fun hpadded => h [] p ps rfl hpadded, ?_⟩
    rintro ps₁ q ps₂ rfl hpadded
    have hlt := h (p :: ps₁) q ps₂ rfl hpadded
    rw [textOf_cons, length_append] at hlt
    omega
  · rintro ⟨hfirst, hrest⟩ ps₁ q ps₂ hps hpadded
    cases ps₁ with
    | nil =>
      obtain ⟨rfl, -⟩ := cons.inj hps
      exact hfirst hpadded
    | cons p' ps₁ =>
      obtain ⟨rfl, rfl⟩ := cons.inj hps
      have hlt := hrest ps₁ q ps₂ rfl hpadded
      rw [textOf_cons, length_append]
      omega

lemma Piece.textAt_eq (h : p.Padded → str + ofNat p.head.length ≤ last) :
    p.textAt last str = p.text := by
  rw [Piece.textAt, Piece.text]
  by_cases hpadded : p.Padded
  · rw [decide_eq_true (h hpadded)]
  · have heq : p.tail false = p.tail true := not_not.mp hpadded
    cases decide (str + ofNat p.head.length ≤ last) with
    | true => rfl
    | false => rw [heq]

/-- A sign with padding behind it that does not fit makes the text longer. -/
lemma Piece.length_text_lt (hpadded : p.Padded) (hout : ¬ str + ofNat p.head.length ≤ last) :
    p.text.length < (p.textAt last str).length := by
  obtain ⟨-, hlt⟩ := p.tail_cases.resolve_left hpadded
  rw [Piece.textAt, Piece.text, decide_eq_false hout]
  simp only [length_append]
  omega

lemma Piece.length_text_le (p : Piece) (last str : UInt32) :
    p.text.length ≤ (p.textAt last str).length := by
  by_cases h : p.Padded → str + ofNat p.head.length ≤ last
  · rw [Piece.textAt_eq h]
  · obtain ⟨hpadded, hout⟩ := Classical.not_imp.mp h
    exact (Piece.length_text_lt hpadded hout).le

lemma length_textOf_le (last str : UInt32) (ps : List Piece) :
    (textOf ps).length ≤ (charsAt last str ps).length := by
  induction ps generalizing str with
  | nil => exact le_rfl
  | cons p ps ih =>
    rw [textOf_cons, charsAt, length_append, length_append]
    exact Nat.add_le_add (p.length_text_le last str) (ih _)

lemma Piece.length_head_le (p : Piece) : p.head.length ≤ p.text.length := by
  rw [Piece.text, length_append, length_append]
  omega

lemma toNat_add_ofNat {m : ℕ} (hwrap : str.toNat + m < 2 ^ 32) :
    (str + UInt32.ofNat m).toNat = str.toNat + m := by
  rw [UInt32.toNat_add, UInt32.toNat_ofNat', add_mod_mod, mod_eq_of_lt hwrap]

/-- If every sign fits, the pieces are put out as in a buffer that is large enough. -/
lemma charsAt_eq {base size offset : ℕ} (hlast : last.toNat + 1 = base + size)
    (hstr : str.toNat = base + offset) (hwrap : str.toNat + (textOf ps).length < 2 ^ 32)
    (hfit : SignsFit size offset ps) : charsAt last str ps = textOf ps := by
  induction ps generalizing str offset with
  | nil => rfl
  | cons p ps ih =>
    obtain ⟨hfirst, hrest⟩ := signsFit_cons.mp hfit
    rw [textOf_cons, length_append] at hwrap
    have hhead := p.length_head_le
    have htext : p.textAt last str = p.text := by
      refine Piece.textAt_eq fun hpadded => ?_
      have hlt := hfirst hpadded
      rw [le_iff_toNat_le, toNat_add_ofNat (by omega)]
      omega
    have hnext := toNat_add_ofNat (show str.toNat + p.text.length < 2 ^ 32 by omega)
    rw [charsAt, htext, textOf_cons, ih (by omega) (by omega) hrest]

lemma signsFit_of_length {base size offset : ℕ} (hlast : last.toNat + 1 = base + size)
    (hstr : str.toNat = base + offset) (hwrap : str.toNat + (charsAt last str ps).length < 2 ^ 32)
    (hlen : (charsAt last str ps).length = (textOf ps).length) : SignsFit size offset ps := by
  induction ps generalizing str offset with
  | nil => exact fun _ _ _ hnil => by simp at hnil
  | cons p ps ih =>
    rw [charsAt, length_append] at hwrap hlen
    rw [textOf_cons, length_append] at hlen
    have hle := p.length_text_le last str
    have hle' := length_textOf_le last (str + ofNat (p.textAt last str).length) ps
    have hhead := p.length_head_le
    have hnext := toNat_add_ofNat (show str.toNat + (p.textAt last str).length < 2 ^ 32 by omega)
    have hrest := ih (hnext.trans (show _ = base + (offset + p.text.length) by omega)) (by omega)
      (by omega)
    refine signsFit_cons.mpr ⟨fun hpadded => ?_, hrest⟩
    have hin : str + ofNat p.head.length ≤ last := by
      by_contra hout
      have hlt := Piece.length_text_lt hpadded hout
      omega
    rw [le_iff_toNat_le, toNat_add_ofNat (by omega)] at hin
    omega

/-! ## Buffer -/

/-- A buffer of `size` bytes at the address `buf`. -/
structure Buffer where
  buf : UInt32
  size : UInt32
  /-- The buffer is not at the address `NULL`. -/
  buf_pos : 0 < buf.toNat
  /-- The buffer lies in the address space. -/
  in_space : buf.toNat + size.toNat ≤ 2 ^ 32

/-- The address is one of the first `size` bytes. -/
def Buffer.Inside (b : Buffer) (a : UInt32) : Prop :=
  b.buf.toNat ≤ a.toNat ∧ a.toNat < b.buf.toNat + b.size.toNat

def formatText (strings : Strings) (fmt : List UInt8) (args : ℕ → UInt32) : List UInt8 :=
  textOf (formatPieces strings fmt args)

/-- A call changes the buffer only, leaves the first characters of the whole output and a NUL in it, and
returns the length of the whole output. -/
def VsnprintfOk (strings : Strings) (b : Buffer) (fmt : List UInt8) (args : ℕ → UInt32) : Prop :=
  ∀ mem, ∃ mem' length,
    rtVsnprintf strings mem b.buf b.size fmt args = .ok (mem', length) ∧
      (∀ a, ¬ b.Inside a → mem' a = mem a) ∧
      (0 < b.size.toNat → ∀ i ≤ ((formatText strings fmt args).take (b.size.toNat - 1)).length,
        mem' (b.buf + ofNat i) = cstr ((formatText strings fmt args).take (b.size.toNat - 1)) i) ∧
      length = Int32.ofNat (formatText strings fmt args).length

variable {b : Buffer} {fmt : List UInt8}

def callChars (strings : Strings) (b : Buffer) (fmt : List UInt8) (args : ℕ → UInt32) : List UInt8 :=
  charsAt (endPointer b.buf b.size) b.buf (formatPieces strings fmt args)

lemma rtVsnprintf_eq (mem : UInt32 → UInt8) : rtVsnprintf strings mem b.buf b.size fmt args =
      .ok (terminate (endPointer b.buf b.size)
          (puts (endPointer b.buf b.size) ⟨b.buf, mem⟩ (callChars strings b fmt args)),
        (ofNat (callChars strings b fmt args).length).toInt32) := by
  rw [rtVsnprintf, formatLoop_eq (show (Cursor.mk fmt 0).fmt.length ≤ fmt.length from le_rfl)]
  change ok (terminate _ (puts _ _ (callChars strings b fmt args)),
    ((puts _ _ (callChars strings b fmt args)).str - b.buf).toInt32) = _
  rw [str_puts, UInt32.add_comm, UInt32.add_sub_cancel]

/-- The pointer to the last byte of a buffer that is not empty. -/
lemma toNat_endPointer (hsize : 0 < b.size.toNat) :
    (endPointer b.buf b.size).toNat + 1 = b.buf.toNat + b.size.toNat := by
  have hspace := b.in_space
  have hend : (b.buf + b.size - 1).toNat + 1 = b.buf.toNat + b.size.toNat := by
    rw [UInt32.toNat_sub, UInt32.toNat_add, UInt32.toNat_one]
    omega
  rw [endPointer, if_neg, hend]
  rw [lt_iff_toNat_lt]
  omega

lemma endPointer_zero (hsize : b.size.toNat = 0) : endPointer b.buf b.size = 0xffffffff := by
  have hpos := b.buf_pos
  have hzero : b.size = 0 := UInt32.toNat_inj.mp hsize
  rw [endPointer, if_pos]
  rw [hzero, UInt32.add_zero, UInt32.lt_iff_toNat_lt, UInt32.toNat_sub, UInt32.toNat_one]
  omega

/-- A call on an empty buffer writes to memory. -/
lemma not_vsnprintfOk_of_empty (hsize : b.size.toNat = 0) : ¬ VsnprintfOk strings b fmt args := by
  intro hok
  obtain ⟨mem', length, hcall, houtside, -⟩ := hok fun _ => 1
  rw [rtVsnprintf_eq, endPointer_zero hsize] at hcall
  obtain ⟨rfl, -⟩ := Prod.mk.inj (ok.inj hcall)
  -- the NUL
  generalize puts 0xffffffff ⟨b.buf, fun _ => 1⟩ (callChars strings b fmt args) = k at houtside
  have hle : k.str ≤ 0xffffffff := by
    rw [le_iff_toNat_le]
    exact le_of_lt_succ k.str.toNat_lt
  have hzero := houtside k.str fun hin => by
    have := hin.1
    have := hin.2
    omega
  rw [terminate, if_pos hle, update_self] at hzero
  exact absurd hzero (by decide)

lemma terminate_congr {k₁ k₂ : Sink} {a : UInt32} (hstr : k₁.str = k₂.str)
    (hmem : k₁.mem a = k₂.mem a) : terminate last k₁ a = terminate last k₂ a := by
  rw [terminate, terminate, hstr]
  split
  case isTrue => rw [update_apply, update_apply, hmem]
  case isFalse => rw [update_apply, update_apply, hmem]

/-- A call whose output reaches the end of the address space writes to the address zero. -/
lemma not_vsnprintfOk_of_wrap
    (hwrap : 2 ^ 32 ≤ b.buf.toNat + (callChars strings b fmt args).length) :
    ¬ VsnprintfOk strings b fmt args := by
  intro hok
  have hpos := b.buf_pos
  have houtside : ¬ b.Inside 0 := fun hin => absurd hin.1 (not_le.mpr hpos)
  obtain ⟨mem₁, _, hcall₁, hout₁, -⟩ := hok fun _ => 1
  obtain ⟨mem₂, _, hcall₂, hout₂, -⟩ := hok fun _ => 2
  rw [rtVsnprintf_eq] at hcall₁ hcall₂
  obtain ⟨rfl, -⟩ := Prod.mk.inj (ok.inj hcall₁)
  obtain ⟨rfl, -⟩ := Prod.mk.inj (ok.inj hcall₂)
  have hone := hout₁ 0 houtside
  have htwo := hout₂ 0 houtside
  generalize callChars strings b fmt args = l at hwrap hone htwo
  generalize endPointer b.buf b.size = last at hone htwo
  have hstr : (puts last ⟨b.buf, fun _ => 1⟩ l).str = (puts last ⟨b.buf, fun _ => 2⟩ l).str := by
    rw [str_puts, str_puts]
  have hle : (0 : UInt32) ≤ last := by
    rw [le_iff_toNat_le]
    exact zero_le _
  rcases hwrap.eq_or_lt with heq | hlt
  · -- the NUL is written to the address zero
    have hzero : (puts last ⟨b.buf, fun _ => 1⟩ l).str = 0 := by
      rw [str_puts, ← UInt32.toNat_inj, UInt32.toNat_add, UInt32.toNat_ofNat', add_mod_mod, ← heq]
      rfl
    rw [terminate, hzero, if_pos hle, update_self] at hone
    exact absurd hone (by decide)
  · have hmem : (puts last ⟨b.buf, fun _ => 1⟩ l).mem 0 = (puts last ⟨b.buf, fun _ => 2⟩ l).mem 0 :=
      mem_puts_zero rfl hpos hlt
    have hsame := hone.symm.trans ((terminate_congr hstr hmem).trans htwo)
    exact absurd hsame (by decide)

/-- The terminating NUL behind output that does not wrap, in a buffer that is not empty. -/
lemma terminate_puts (hsize : 0 < b.size.toNat) (mem : UInt32 → UInt8) {text : List UInt8}
    (hwrap : b.buf.toNat + text.length < 2 ^ 32) (a : UInt32) :
    terminate (endPointer b.buf b.size) (puts (endPointer b.buf b.size) ⟨b.buf, mem⟩ text) a =
      if a.toNat = b.buf.toNat + min text.length (b.size.toNat - 1) then 0
      else if b.buf.toNat ≤ a.toNat ∧ a.toNat < b.buf.toNat + min text.length (b.size.toNat - 1) then
        text.getD (a.toNat - b.buf.toNat) 0
      else mem a := by
  have hlast := toNat_endPointer hsize
  have hstr : (puts (endPointer b.buf b.size) ⟨b.buf, mem⟩ text).str.toNat =
      b.buf.toNat + text.length := toNat_str_puts hwrap
  generalize endPointer b.buf b.size = last at hlast hstr ⊢
  have hmem : (puts last ⟨b.buf, mem⟩ text).mem a =
      if b.buf.toNat ≤ a.toNat ∧ a.toNat < b.buf.toNat + text.length ∧ a ≤ last then
        text.getD (a.toNat - b.buf.toNat) 0
      else mem a := mem_puts hwrap
  generalize puts last ⟨b.buf, mem⟩ text = k at hstr hmem ⊢
  simp only [le_iff_toNat_le] at hmem
  -- the address of the NUL
  obtain ⟨t, ht, hterm⟩ : ∃ t : UInt32, t.toNat = b.buf.toNat + min text.length (b.size.toNat - 1) ∧
      terminate last k = update k.mem t 0 := by
    rw [terminate]
    by_cases hle : k.str ≤ last
    · rw [if_pos hle]
      rw [le_iff_toNat_le] at hle
      exact ⟨k.str, by omega, rfl⟩
    · rw [if_neg hle]
      rw [le_iff_toNat_le] at hle
      exact ⟨last, by omega, rfl⟩
  rw [hterm, ← ht]
  by_cases ha : a.toNat = t.toNat
  · rw [if_pos ha, UInt32.toNat_inj.mp ha, update_self]
  · rw [if_neg ha, update_of_ne fun heq => ha (congrArg toNat heq), hmem]
    by_cases hin : b.buf.toNat ≤ a.toNat ∧ a.toNat < t.toNat
    · rw [if_pos hin, if_pos ⟨hin.1, by omega, by omega⟩]
    · rw [if_neg hin, if_neg]
      rintro ⟨hle, hlt, hlast'⟩
      exact hin ⟨hle, by omega⟩

/-- A call works iff the buffer is not empty, the output does not reach the end of the address
space, and every sign with padding behind it fits in the buffer. -/
theorem vsnprintfOk_iff (strings : Strings) (b : Buffer) (fmt : List UInt8) (args : ℕ → UInt32) :
    VsnprintfOk strings b fmt args ↔
      0 < b.size.toNat ∧ b.buf.toNat + (formatText strings fmt args).length < 2 ^ 32 ∧
        SignsFit b.size.toNat 0 (formatPieces strings fmt args) := by
  constructor
  · intro hok
    have hsize : 0 < b.size.toNat := by
      by_contra hzero
      exact not_vsnprintfOk_of_empty (Nat.eq_zero_of_not_pos hzero) hok
    have hwrap : b.buf.toNat + (callChars strings b fmt args).length < 2 ^ 32 := by
      by_contra hwrap
      exact not_vsnprintfOk_of_wrap (not_lt.mp hwrap) hok
    obtain ⟨mem', length, hcall, -, -, hlength⟩ := hok fun _ => 0
    rw [rtVsnprintf_eq] at hcall
    obtain ⟨-, rfl⟩ := Prod.mk.inj (ok.inj hcall)
    have hle : (formatText strings fmt args).length ≤ (callChars strings b fmt args).length :=
      length_textOf_le _ _ _
    have hlen : (callChars strings b fmt args).length = (formatText strings fmt args).length := by
      have hword : ofNat (callChars strings b fmt args).length =
          ofNat (formatText strings fmt args).length := congrArg Int32.toUInt32 hlength
      have hnat := congrArg toNat hword
      rwa [toNat_ofNat', toNat_ofNat', mod_eq_of_lt (by omega), mod_eq_of_lt (by omega)] at hnat
    exact ⟨hsize, by omega, signsFit_of_length (toNat_endPointer hsize) rfl hwrap hlen⟩
  · rintro ⟨hsize, hwrap, hfit⟩ mem
    have hlast := toNat_endPointer hsize
    have hchars : callChars strings b fmt args = formatText strings fmt args :=
      charsAt_eq hlast rfl hwrap hfit
    rw [rtVsnprintf_eq, hchars]
    refine ⟨_, _, rfl, ?_, ?_, rfl⟩
    · intro a houtside
      rw [terminate_puts hsize mem hwrap, if_neg, if_neg]
      · rintro ⟨hle, hlt⟩
        exact houtside ⟨hle, by omega⟩
      · intro ha
        exact houtside ⟨by omega, by omega⟩
    · intro _ i hi
      rw [length_take] at hi
      have ha := toNat_add_ofNat (show b.buf.toNat + i < 2 ^ 32 by omega)
      rw [terminate_puts hsize mem hwrap, ha]
      rcases eq_or_ne i (min (b.size.toNat - 1) (formatText strings fmt args).length) with heq | hne
      · rw [if_pos (by omega), cstr_of_ge (by rw [length_take, heq])]
      · rw [if_neg (by omega), if_pos (by omega), Nat.add_sub_cancel_left, cstr_take (by omega)]
        rfl

def fourBytes : Buffer := ⟨0x20000000, 4, by decide, by decide⟩

def noBytes : Buffer := ⟨0x20000000, 0, by decide, by decide⟩

def minusOne : ℕ → UInt32 := fun _ => 0xffffffff

/-- The character `a` is written to an empty buffer, and `abcd%05d` with the argument `-1` returns the
length 10 in a buffer of four bytes, although the whole output has nine characters. -/
theorem not_vsnprintfOk_short : ¬ VsnprintfOk ⟨fun _ => []⟩ noBytes [0x61] minusOne ∧
      ¬ VsnprintfOk ⟨fun _ => []⟩ fourBytes [0x61, 0x62, 0x63, 0x64, 0x25, 0x30, 0x35, 0x64] minusOne := by
  constructor
  · intro hok
    obtain ⟨mem', length, hcall, houtside, -⟩ := hok fun _ => 1
    obtain ⟨rfl, -⟩ := Prod.mk.inj (ok.inj hcall)
    have hbyte := houtside 0x20000000 (by rintro ⟨-, hlt⟩; exact absurd hlt (by decide))
    exact absurd hbyte (by decide +kernel)
  · intro hok
    obtain ⟨mem', length, hcall, -, -, hlength⟩ := hok fun _ => 1
    obtain ⟨-, rfl⟩ := Prod.mk.inj (ok.inj hcall)
    exact absurd hlength (by decide +kernel)

end Kservice
