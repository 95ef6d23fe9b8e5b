import TempSns.Kservice.FormatBounds

/-!
# The numerals of formatted output

The text that `print_number` puts out for `%d`, `%i`, `%u`, `%x`, `%X` and `%o`: padding, sign, zeros,
the digits of the value and padding again (`numberPiece_layout`). The digits are those of the value in
the base that `divide` works with. This is 16 for every base but 10, and it is wrong for `%o`. With a
precision of zero no digit is put out for any value, although room is kept for the digits.
-/

namespace Kservice

open Sink List Nat

/-! ## What should be shown -/

/-- The integer conversions. -/
inductive IntConv where
  | d
  | i
  | u
  | x
  | X
  | o
  deriving DecidableEq, Repr

def IntConv.char : IntConv → UInt8
  | d => 0x64
  | i => 0x69
  | u => 0x75
  | x => 0x78
  | X => 0x58
  | o => 0x6f

def IntConv.base : IntConv → ℕ
  | d | i | u => 10
  | x | X => 16
  | o => 8

def IntConv.signed : IntConv → Bool
  | d | i => true
  | _ => false

/-- The digits above 9 are large letters. -/
def IntConv.large : IntConv → Bool
  | X => true
  | _ => false

/-- The value of an argument: `h` stands for the types of 16 bits. -/
def IntConv.value (c : IntConv) (qualifier : UInt8) (word : UInt32) : ℤ :=
  if c.signed then
    if qualifier = 0x68 then word.toUInt16.toInt16.toInt else word.toInt32.toInt
  else if qualifier = 0x68 then word.toUInt16.toNat else word.toNat

def numeral (large : Bool) (base v : ℕ) : List UInt8 :=
  if v = 0 then [0x30] else (digits base v).reverse.map (digitChar large)

def IsSign (sign : List UInt8) : Prop :=
  sign = [] ∨ sign = [0x2d] ∨ sign = [0x2b] ∨ sign = [0x20]

/-- The text is the numeral of the value with padding and a sign, as long as the width and with as many
digits as the precision says. -/
def ShowsNumber (c : IntConv) (value width precision : ℤ) (text : List UInt8) : Prop :=
  ∃ before sign zeros after,
    text = replicate before 0x20 ++ sign ++ (replicate zeros 0x30 ++
      (numeral c.large c.base value.natAbs ++ replicate after 0x20)) ∧
    IsSign sign ∧ (sign = [0x2d] ↔ value < 0) ∧ width ≤ text.length ∧
    precision ≤ zeros + (numeral c.large c.base value.natAbs).length

/-! ## Digits -/

lemma digitLoop_eq_digits {b room v : ℕ} (hb : 1 < b) (hv : v < b ^ room) :
    digitLoop b room v = digits b v := by
  induction room generalizing v with
  | zero =>
    obtain rfl : v = 0 := by simpa using hv
    rw [digitLoop, digits_zero]
  | succ room ih =>
    rw [digitLoop]
    split
    · rename_i hzero
      rw [hzero, digits_zero]
    · rename_i hne
      have hdiv : v / b < b ^ room := by
        rw [div_lt_iff_lt_mul (by omega), ← pow_succ]
        exact hv
      rw [ih hdiv, ← digits_def' hb (pos_of_ne_zero hne)]

lemma reverse_tmpDigits (large : Bool) (base : ℕ) (num : UInt32) :
    (tmpDigits large base num).reverse = numeral large (divideBase base) num.toNat := by
  rw [tmpDigits, numeral]
  have hzero : num = 0 ↔ num.toNat = 0 := UInt32.toNat_inj.symm
  by_cases h : num = 0
  · rw [if_pos h, if_pos (hzero.mp h)]
    rfl
  · have hlt := num.toNat_lt
    have hbase : divideBase base = 10 ∨ divideBase base = 16 := by
      rw [divideBase]
      split
      · exact .inl rfl
      · exact .inr rfl
    have hdigits : digitLoop (divideBase base) 16 num.toNat = digits (divideBase base) num.toNat := by
      rcases hbase with hb | hb
      · rw [hb]
        exact digitLoop_eq_digits (by decide) (hlt.trans (by decide))
      · rw [hb]
        exact digitLoop_eq_digits (by decide) (hlt.trans (by decide))
    rw [if_neg h, if_neg fun hn => h (hzero.mpr hn), hdigits, map_reverse]

lemma length_numeral_pos (large : Bool) (base v : ℕ) : 0 < (numeral large base v).length := by
  rw [numeral]
  split
  · decide
  · rename_i hne
    rw [length_map, length_reverse]
    exact length_pos_iff.mpr (digits_ne_nil_iff_ne_zero.mpr hne)

/-! ## Layout -/

variable {num : Int32} {base : ℕ} {s precision : ℤ} {flags : Flags} {n : NumberSpec} {size : ℤ}
  {v : ℕ} {large : Bool} {x : Int32}

def precisionZeros (n : NumberSpec) : ℕ := (n.precision - n.tmp.length).toNat

def widthPad (n : NumberSpec) (size : ℤ) : ℕ := (size - n.sign.toList.length).toNat

lemma postLoop_zero_fst (size : ℤ) : (postLoop 0 size).1 = size.toNat := by
  rcases le_or_gt size 0 with hle | hpos
  · rw [postLoop_zero_of_nonpos hle, Int.toNat_of_nonpos hle]
  · rw [postLoop_zero_of_pos hpos]

lemma postLoop_zero_snd (size : ℤ) : (postLoop 0 size).2 < 0 := by
  rcases le_or_gt size 0 with hle | hpos
  · rw [postLoop_zero_of_nonpos hle]
    change size - 1 < 0
    omega
  · rw [postLoop_zero_of_pos hpos]
    exact neg_one_lt_zero

lemma postLoop_fst {a b : ℤ} : (postLoop a b).1 = (b - a).toNat := by
  rw [postLoop]
  split
  · rfl
  · change 0 = _
    omega

lemma sizeBehind_true : sizeBehind n size true = size - n.sign.toList.length := by
  rw [sizeBehind]
  cases n.sign with
  | none => simp
  | some c => simp

lemma padBefore_of_padFirst (size : ℤ) (hpad : n.padFirst = true) :
    (padBefore n size).1 = widthPad n size ∧ (padBefore n size).2 < 0 := by
  rw [padBefore, if_pos hpad, postLoop_zero_fst, widthPad]
  refine ⟨?_, postLoop_zero_snd _⟩
  cases n.sign with
  | none => simp
  | some c =>
    simp only [Option.isSome_some, true_and, Option.toList_some, length_singleton]
    split <;> omega

/-- Behind the sign: all padding is on one side of the digits. -/
lemma digitsText_layout (n : NumberSpec) (size : ℤ) (hc : n.left = false → n.c = 0x30 ∨ size ≤ 0) :
    ∃ zeros after, digitsText n size = replicate zeros 0x30 ++
        (shownDigits n ++ replicate after 0x20) ∧
      precisionZeros n ≤ zeros ∧ zeros + after = size.toNat + precisionZeros n := by
  rw [digitsText, padBehind, postLoop_fst]
  cases hleft : n.left with
  | true =>
    refine ⟨precisionZeros n, size.toNat, ?_, le_rfl, add_comm _ _⟩
    simp only [if_true, replicate_zero, nil_append, postLoop_zero_fst]
    rfl
  | false =>
    refine ⟨size.toNat + precisionZeros n, 0, ?_, le_add_left _ _, rfl⟩
    simp only [Bool.false_eq_true, if_false, postLoop_zero_fst, replicate_zero, append_nil]
    rw [Int.toNat_of_nonpos (postLoop_zero_snd size).le, replicate_zero, append_nil,
      replicate_add, append_assoc]
    rcases hc hleft with hc | hle
    · rw [hc]
      rfl
    · rw [Int.toNat_of_nonpos hle]
      rfl

lemma numberPiece_layout (num : Int32) (base : ℕ) (s precision : ℤ) (flags : Flags) :
    ∃ before zeros after, (numberPiece num base s precision flags).text =
        replicate before 0x20 ++ (signChar flags num).toList ++ (replicate zeros 0x30 ++
          (shownDigits (numberSpec num base precision flags) ++ replicate after 0x20)) ∧
      precisionZeros (numberSpec num base precision flags) ≤ zeros ∧
      before + zeros + after = widthPad (numberSpec num base precision flags)
        (s - (numberSpec num base precision flags).precision) +
          precisionZeros (numberSpec num base precision flags) := by
  generalize hn : numberSpec num base precision flags = n
  have hsign : n.sign = signChar flags num := by rw [← hn]; rfl
  have hfirst : n.padFirst = !(n.c == 0x30 || n.left) := by
    rw [← hn]
    cases hz : (flags.zeropad && !flags.left) <;> simp [numberSpec, hz]
  have hpiece : (numberPiece num base s precision flags).text =
      replicate (padBefore n (s - n.precision)).1 0x20 ++ n.sign.toList ++
        digitsText n (sizeBehind n (padBefore n (s - n.precision)).2 true) := by
    rw [← hn]
    rfl
  rw [hpiece, sizeBehind_true, ← hsign]
  generalize s - n.precision = size
  by_cases hpad : n.padFirst = true
  · -- all padding of the width stands before the sign
    obtain ⟨hbefore, hneg⟩ := padBefore_of_padFirst size hpad
    obtain ⟨zeros, after, htext, hle, hsum⟩ := digitsText_layout n
      ((padBefore n size).2 - n.sign.toList.length) fun _ => .inr (by omega)
    refine ⟨widthPad n size, zeros, after, by rw [htext, hbefore], hle, ?_⟩
    omega
  · have hbefore : padBefore n size = (0, size) := if_neg hpad
    have hc : n.left = false → n.c = 0x30 ∨ size - n.sign.toList.length ≤ 0 := by
      intro hleft
      rw [hfirst, hleft] at hpad
      exact .inl (by simpa using hpad)
    obtain ⟨zeros, after, htext, hle, hsum⟩ := digitsText_layout n _ hc
    refine ⟨0, zeros, after, by rw [hbefore, htext], hle, ?_⟩
    rw [zero_add]
    exact hsum

/-! ## Conversion -/

lemma parseFlags_frame (flags : Flags) (fmt : List UInt8) :
    (parseFlags flags fmt).1.sign = flags.sign ∧ (parseFlags flags fmt).1.large = flags.large := by
  induction fmt generalizing flags with
  | nil => exact ⟨rfl, rfl⟩
  | cons c fmt ih =>
    rw [parseFlags]
    split_ifs
    all_goals first | exact ⟨rfl, rfl⟩ | exact ih _

lemma numberConv_char (c : IntConv) (flags : Flags) : numberConv c.char flags =
      some ({ flags with sign := flags.sign || c.signed, large := flags.large || c.large }, c.base) := by
  cases c <;> simp [numberConv, IntConv.char, IntConv.signed, IntConv.large, IntConv.base]

lemma convPiece_char (strings : Strings) (args : ℕ → UInt32) (spec : ConvSpec) (c : IntConv)
    (rest : List UInt8) (arg : ℕ) (hsign : spec.flags.sign = false) (hlarge : spec.flags.large = false) :
    (convPiece strings args spec ⟨c.char :: rest, arg⟩).1 =
      numberPiece (numberArg c.signed spec.qualifier (args arg)) c.base spec.fieldWidth
        spec.precision { spec.flags with sign := c.signed, large := c.large } := by
  have hconv := numberConv_char c spec.flags
  rw [hsign, hlarge, Bool.false_or, Bool.false_or] at hconv
  have hother : c.char ≠ 0x63 ∧ c.char ≠ 0x73 ∧ c.char ≠ 0x70 ∧ c.char ≠ 0x25 := by
    cases c <;> decide
  rw [convPiece]
  dsimp only
  rw [if_neg hother.1, if_neg hother.2.1, if_neg hother.2.2.1, if_neg hother.2.2.2, hconv]

lemma toNat_neg_int32 (hx : x < 0) : (-x).toUInt32.toNat = x.toInt.natAbs := by
  have hint : x.toInt = x.toBitVec.toInt := rfl
  have hneg : (-x).toUInt32.toNat = (-x.toBitVec).toNat := rfl
  rw [Int32.lt_iff_toInt_lt] at hx
  change x.toInt < 0 at hx
  rw [hint, BitVec.toInt_eq_toNat_cond] at hx ⊢
  rw [hneg, BitVec.toNat_neg]
  split at hx <;> omega

lemma toNat_nonneg_int32 (hx : ¬ x < 0) : x.toUInt32.toNat = x.toInt.natAbs := by
  have hint : x.toInt = x.toBitVec.toInt := rfl
  have hnat : x.toUInt32.toNat = x.toBitVec.toNat := rfl
  rw [Int32.lt_iff_toInt_lt] at hx
  change ¬ x.toInt < 0 at hx
  rw [hint, BitVec.toInt_eq_toNat_cond] at hx ⊢
  rw [hnat]
  split at hx <;> omega

lemma toNat_magnitude (c : IntConv) (qualifier : UInt8) (word : UInt32)
    (hsign : flags.sign = c.signed) :
    (magnitude flags (numberArg c.signed qualifier word)).toNat = (c.value qualifier word).natAbs := by
  rw [magnitude, hsign, IntConv.value]
  cases c.signed with
  | false =>
    rw [if_neg (by simp), numberArg]
    split <;> rfl
  | true =>
    have hvalue : (numberArg true qualifier word).toInt =
        if qualifier = 0x68 then word.toUInt16.toInt16.toInt else word.toInt32.toInt := by
      rw [numberArg]
      split
      · exact Int16.toInt_toInt32 _
      · rfl
    rw [if_pos rfl, ← hvalue]
    by_cases hneg : numberArg true qualifier word < 0
    · rw [if_pos ⟨rfl, hneg⟩, toNat_neg_int32 hneg]
    · rw [if_neg fun h => hneg h.2, toNat_nonneg_int32 hneg]

lemma signChar_spec (c : IntConv) (qualifier : UInt8) (word : UInt32)
    (hsign : flags.sign = c.signed) :
    IsSign (signChar flags (numberArg c.signed qualifier word)).toList ∧
      ((signChar flags (numberArg c.signed qualifier word)).toList = [0x2d] ↔
        c.value qualifier word < 0) := by
  rw [signChar, hsign, IntConv.value]
  cases c.signed with
  | false =>
    refine ⟨.inl rfl, ?_⟩
    simp only [Bool.false_eq_true, if_false, Option.toList_none]
    refine ⟨nofun, fun hneg => ?_⟩
    split at hneg <;> omega
  | true =>
    have hvalue : (if qualifier = 0x68 then word.toUInt16.toInt16.toInt else word.toInt32.toInt) < 0 ↔
        numberArg true qualifier word < 0 := by
      rw [Int32.lt_iff_toInt_lt, numberArg]
      split
      · rw [if_pos rfl, Int16.toInt_toInt32]
        rfl
      · rfl
    rw [if_pos rfl, if_pos rfl, hvalue]
    by_cases hneg : numberArg true qualifier word < 0
    · rw [if_pos hneg]
      exact ⟨.inr (.inl rfl), fun _ => hneg, fun _ => rfl⟩
    · rw [if_neg hneg]
      split_ifs
      · exact ⟨.inr (.inr (.inl rfl)), fun h => absurd h (by decide), fun h => absurd h hneg⟩
      · exact ⟨.inr (.inr (.inr rfl)), fun h => absurd h (by decide), fun h => absurd h hneg⟩
      · exact ⟨.inl rfl, fun h => absurd h (by decide), fun h => absurd h hneg⟩

lemma numberSpec_spec (num : Int32) (base : ℕ) (precision : ℤ) (flags : Flags) :
    (numberSpec num base precision flags).tmp.reverse =
        numeral flags.large (divideBase base) (magnitude flags num).toNat ∧
      (numberSpec num base precision flags).precision =
        max ((numberSpec num base precision flags).tmp.length : ℤ) precision := by
  refine ⟨reverse_tmpDigits _ _ _, ?_⟩
  rw [numberSpec]
  dsimp only
  split <;> omega

/-! ## Texts that are the same up to padding -/

/-- A character that is neither a space nor a sign. -/
def isDigitChar (c : UInt8) : Bool := c != 0x20 && c != 0x2b && c != 0x2d

lemma isDigitChar_digitChar (large : Bool) {d : ℕ} (hd : d < 16) :
    isDigitChar (digitChar large d) = true := by
  have hall : ∀ (large : Bool) (d : Fin 16), isDigitChar (digitChar large d) = true := by decide
  exact hall large ⟨d, hd⟩

lemma isDigitChar_of_mem_numeral {base v : ℕ} (hbase : 1 < base) (hle : base ≤ 16)
    {c : UInt8} (hc : c ∈ numeral large base v) : isDigitChar c = true := by
  rw [numeral] at hc
  split at hc
  · obtain rfl := mem_singleton.mp hc
    decide
  · obtain ⟨d, hd, rfl⟩ := mem_map.mp hc
    have hlt := digits_lt_base hbase (mem_reverse.mp hd)
    exact isDigitChar_digitChar large (hlt.trans_le hle)

lemma filter_layout {before zeros after : ℕ} {sign digits : List UInt8} (hsign : IsSign sign)
    (hdigits : ∀ c ∈ digits, isDigitChar c = true) :
    (replicate before 0x20 ++ sign ++ (replicate zeros 0x30 ++
      (digits ++ replicate after 0x20))).filter isDigitChar = replicate zeros 0x30 ++ digits := by
  have hspaces : ∀ k, (replicate k (0x20 : UInt8)).filter isDigitChar = [] := fun k =>
    filter_eq_nil_iff.mpr fun c hc => by
      rw [eq_of_mem_replicate hc]
      decide
  have hzeros : (replicate zeros (0x30 : UInt8)).filter isDigitChar = replicate zeros 0x30 :=
    filter_eq_self.mpr fun c hc => by
      rw [eq_of_mem_replicate hc]
      decide
  have hsigns : sign.filter isDigitChar = [] := by
    rcases hsign with rfl | rfl | rfl | rfl <;> decide
  simp only [filter_append, hspaces, hsigns, hzeros, filter_eq_self.mpr hdigits,
    nil_append, append_nil]

lemma dropWhile_numeral {base v zeros : ℕ} (hbase : 1 < base) (hle : base ≤ 16)
    (hv : v ≠ 0) : (replicate zeros 0x30 ++ numeral large base v).dropWhile (· == 0x30) =
      numeral large base v := by
  have hne : digits base v ≠ [] := digits_ne_nil_iff_ne_zero.mpr hv
  have hlast := getLast_digit_ne_zero base hv
  have hhead : numeral large base v = digitChar large ((digits base v).getLast hne) ::
      ((digits base v).dropLast.reverse).map (digitChar large) := by
    rw [numeral, if_neg hv]
    conv_lhs => rw [← dropLast_append_getLast hne, reverse_append]
    rfl
  have hlt := digits_lt_base hbase (getLast_mem hne)
  have hchar : ∀ (large : Bool) (d : Fin 16), d.val ≠ 0 → (digitChar large d == 0x30) = false := by
    decide
  have hfirst := hchar large ⟨_, hlt.trans_le hle⟩ hlast
  induction zeros with
  | zero =>
    rw [replicate_zero, nil_append, hhead]
    exact dropWhile_cons_of_neg (by simpa using hfirst)
  | succ k ih =>
    rw [replicate_succ, cons_append, dropWhile_cons_of_pos (by decide), ih]

lemma numeral_of_lt (large : Bool) (hv : v < 8) : numeral large 16 v = numeral large 8 v := by
  rw [numeral, numeral]
  split
  · rfl
  · rename_i hne
    rw [digits_of_lt 16 v hne (by omega), digits_of_lt 8 v hne hv]

lemma digits_ne_of_le (hv : 8 ≤ v) : digits 16 v ≠ digits 8 v := by
  intro heq
  have hvalue := ofDigits_digits 16 v
  have hmono := ofDigits_monotone (digits 8 (v / 8)) (show 8 ≤ 16 by decide)
  rw [ofDigits_digits] at hmono
  rw [heq, digits_def' (by decide) (by omega), ofDigits_cons] at hvalue
  change v % 8 + _ = v at hvalue
  omega

lemma map_digitChar_inj (large : Bool) {l l' : List ℕ} (hl : ∀ d ∈ l, d < 16)
    (hl' : ∀ d ∈ l', d < 16) (h : l.map (digitChar large) = l'.map (digitChar large)) : l = l' := by
  have hinj : ∀ (large : Bool) (d e : Fin 16), digitChar large d = digitChar large e → d = e := by
    decide
  induction l generalizing l' with
  | nil => exact (map_eq_nil_iff.mp h.symm).symm
  | cons d l ih =>
    cases l' with
    | nil => cases h
    | cons e l' =>
      obtain ⟨hhead, htail⟩ := cons.inj h
      have hde := hinj large ⟨d, hl d mem_cons_self⟩ ⟨e, hl' e mem_cons_self⟩ hhead
      rw [Fin.mk.inj hde, ih (fun x hx => hl x (mem_cons_of_mem _ hx))
        (fun x hx => hl' x (mem_cons_of_mem _ hx)) htail]

lemma numeral_ne_of_le (large : Bool) (hv : 8 ≤ v) : numeral large 16 v ≠ numeral large 8 v := by
  intro heq
  have hne : v ≠ 0 := by omega
  rw [numeral, numeral, if_neg hne, if_neg hne] at heq
  have hdigits := map_digitChar_inj large
    (fun d hd => digits_lt_base (by decide) (mem_reverse.mp hd))
    (fun d hd => (digits_lt_base (by decide) (mem_reverse.mp hd)).trans (by decide)) heq
  exact digits_ne_of_le hv (reverse_injective hdigits)

lemma dropWhile_zeros (zeros : ℕ) :
    (replicate zeros (0x30 : UInt8)).dropWhile (· == 0x30) = [] := by
  simp

/-! ## Text of a conversion -/

def printedNumeral (c : IntConv) (value : ℤ) : List UInt8 :=
  numeral c.large (divideBase c.base) value.natAbs

def places (c : IntConv) (value precision : ℤ) : ℤ := max ((printedNumeral c value).length : ℤ) precision

/-- The text that `print_number` puts out for a value. -/
structure Printed (c : IntConv) (value width precision : ℤ) (text sign : List UInt8)
    (before zeros after : ℕ) : Prop where
  eq : text = replicate before 0x20 ++ sign ++ (replicate zeros 0x30 ++
    ((if precision ≠ 0 then printedNumeral c value else []) ++ replicate after 0x20))
  isSign : IsSign sign
  minus : sign = [0x2d] ↔ value < 0
  le_zeros : places c value precision - (printedNumeral c value).length ≤ zeros
  sum : before + zeros + after = (width - places c value precision - sign.length).toNat +
    (places c value precision - (printedNumeral c value).length).toNat

variable {c : IntConv} {value width : ℤ} {text sign : List UInt8} {before zeros after : ℕ}

lemma exists_printed (c : IntConv) (qualifier : UInt8) (word : UInt32) (width precision : ℤ)
    (flags : Flags) (hsign : flags.sign = c.signed) (hlarge : flags.large = c.large) :
    ∃ sign before zeros after, Printed c (c.value qualifier word) width precision
      (numberPiece (numberArg c.signed qualifier word) c.base width precision flags).text sign before
        zeros after := by
  obtain ⟨before, zeros, after, htext, hle, hsum⟩ :=
    numberPiece_layout (numberArg c.signed qualifier word) c.base width precision flags
  obtain ⟨htmp, hprec⟩ := numberSpec_spec (numberArg c.signed qualifier word) c.base precision flags
  obtain ⟨hsigns, hneg⟩ := signChar_spec c qualifier word hsign
  rw [toNat_magnitude c qualifier word hsign, hlarge] at htmp
  have hlen := congrArg length htmp
  rw [length_reverse] at hlen
  have hbak : (numberSpec (numberArg c.signed qualifier word) c.base precision flags).precisionBak =
    precision := rfl
  have hsignof : (numberSpec (numberArg c.signed qualifier word) c.base precision flags).sign =
    signChar flags (numberArg c.signed qualifier word) := rfl
  rw [shownDigits, hbak, htmp] at htext
  rw [hlen] at hprec
  rw [widthPad, precisionZeros, hsignof, hlen, hprec] at hsum
  rw [precisionZeros, hlen, hprec] at hle
  exact ⟨_, before, zeros, after, htext, hsigns, hneg, Int.toNat_le.mp hle, hsum⟩

lemma one_lt_divideBase (c : IntConv) : 1 < divideBase c.base ∧ divideBase c.base ≤ 16 := by
  cases c <;> decide

lemma one_lt_base (c : IntConv) : 1 < c.base ∧ c.base ≤ 16 := by
  cases c <;> decide

section

variable (h : Printed c value width precision text sign before zeros after)

include h

lemma Printed.filter_eq (hshows : ShowsNumber c value width precision text) :
    ∃ zeros', replicate zeros' 0x30 ++ numeral c.large c.base value.natAbs =
      replicate zeros 0x30 ++ if precision ≠ 0 then printedNumeral c value else [] := by
  obtain ⟨before', sign', zeros', after', htext, hsign, -⟩ := hshows
  have hshown : ∀ ch ∈ if precision ≠ 0 then printedNumeral c value else [],
      isDigitChar ch = true := by
    intro ch hch
    split at hch
    · exact isDigitChar_of_mem_numeral (one_lt_divideBase c).1 (one_lt_divideBase c).2 hch
    · cases hch
  have hright := congrArg (filter isDigitChar) h.eq
  have hleft := congrArg (filter isDigitChar) htext
  rw [filter_layout h.isSign hshown] at hright
  rw [filter_layout hsign fun ch hch =>
    isDigitChar_of_mem_numeral (one_lt_base c).1 (one_lt_base c).2 hch] at hleft
  exact ⟨zeros', hleft.symm.trans hright⟩

lemma Printed.precision_ne_zero
    (hshows : ShowsNumber c value width precision text) : precision ≠ 0 := by
  rintro rfl
  obtain ⟨zeros', heq⟩ := h.filter_eq hshows
  rw [if_neg (by simp), append_nil] at heq
  have hdrop := congrArg (dropWhile (· == 0x30)) heq
  rw [dropWhile_zeros] at hdrop
  have hzero : value.natAbs = 0 := by
    by_contra hne
    rw [dropWhile_numeral (one_lt_base c).1 (one_lt_base c).2 hne] at hdrop
    have hpos := length_numeral_pos c.large c.base value.natAbs
    rw [hdrop] at hpos
    exact absurd hpos (by decide)
  -- a zero of the padding may stand for the value, but then the text is too short
  have hone : (printedNumeral c value).length = 1 := by
    rw [printedNumeral, hzero]
    rfl
  have hzeros := congrArg length heq
  have hpos := length_numeral_pos c.large c.base value.natAbs
  have hlen := congrArg length h.eq
  have hsum := h.sum
  obtain ⟨-, -, -, -, -, -, -, hwidth, -⟩ := hshows
  rw [places, hone] at hsum
  simp only [length_append, length_replicate, ne_eq, not_true_eq_false, if_false,
    length_nil] at hzeros hlen
  omega

end

/-- The digits of `%o` are those of the base 16. -/
lemma Printed.octal (h : Printed .o value width precision text sign before zeros after)
    (hshows : ShowsNumber .o value width precision text) : value.natAbs < 8 := by
  by_contra hge
  have hne : value.natAbs ≠ 0 := by omega
  obtain ⟨zeros', heq⟩ := h.filter_eq hshows
  rw [if_pos (h.precision_ne_zero hshows)] at heq
  have hdrop := congrArg (dropWhile (· == 0x30)) heq
  rw [dropWhile_numeral (by decide) (by decide) hne, printedNumeral,
    dropWhile_numeral (by decide) (by decide) hne] at hdrop
  exact numeral_ne_of_le _ (not_lt.mp hge) hdrop.symm

lemma Printed.showsNumber (h : Printed c value width precision text sign before zeros after)
    (hprec : precision ≠ 0) (hoctal : c = .o → value.natAbs < 8) :
    ShowsNumber c value width precision text := by
  have hnumeral : printedNumeral c value = numeral c.large c.base value.natAbs := by
    by_cases hc : c = .o
    · subst hc
      exact numeral_of_lt _ (hoctal rfl)
    · cases c with
      | o => exact absurd rfl hc
      | _ => rfl
  have heq := h.eq
  have hlen := congrArg length h.eq
  have hsum := h.sum
  have hle := h.le_zeros
  rw [if_pos hprec] at heq hlen
  simp only [length_append, length_replicate] at hlen
  rw [hnumeral] at heq
  rw [places] at hsum hle
  refine ⟨before, sign, zeros, after, heq, h.isSign, h.minus, ?_, ?_⟩
  · omega
  · rw [← hnumeral]
    omega

lemma showsNumber_spec_iff (strings : Strings) (args : ℕ → UInt32) (spec : ConvSpec) (c : IntConv)
    (rest : List UInt8) (arg : ℕ) (hsign : spec.flags.sign = false)
    (hlarge : spec.flags.large = false) :
    ShowsNumber c (c.value spec.qualifier (args arg)) spec.fieldWidth spec.precision
        (convPiece strings args spec ⟨c.char :: rest, arg⟩).1.text ↔
      spec.precision ≠ 0 ∧ (c = .o → c.value spec.qualifier (args arg) < 8) := by
  rw [convPiece_char strings args spec c rest arg hsign hlarge]
  obtain ⟨sign, before, zeros, after, h⟩ := exists_printed c spec.qualifier
    (args arg) spec.fieldWidth spec.precision
    { spec.flags with sign := c.signed, large := c.large } rfl rfl
  have hoctal : c = .o → (c.value spec.qualifier (args arg) < 8 ↔
      (c.value spec.qualifier (args arg)).natAbs < 8) := by
    rintro rfl
    have hpos : 0 ≤ IntConv.value .o spec.qualifier (args arg) := by
      rw [IntConv.value, if_neg (by decide)]
      split <;> omega
    omega
  constructor
  · intro hshows
    refine ⟨h.precision_ne_zero hshows, fun hc => (hoctal hc).mpr ?_⟩
    subst hc
    exact h.octal hshows
  · rintro ⟨hprec, ho⟩
    exact h.showsNumber hprec fun hc => (hoctal hc).mp (ho hc)

/-- For every conversion of a format and every argument: the text is the numeral of the value, as long
as the width and the precision say, exactly if the precision is not zero and `%o` is only used for
values below 8. -/
theorem showsNumber_iff (strings : Strings) (args : ℕ → UInt32) (cur : Cursor) (c : IntConv)
    (rest : List UInt8) (hconv : (parseSpec args cur).2.fmt = c.char :: rest) :
    ShowsNumber c (c.value (parseSpec args cur).1.qualifier (args (parseSpec args cur).2.arg))
        (parseSpec args cur).1.fieldWidth (parseSpec args cur).1.precision
        (convPiece strings args (parseSpec args cur).1 (parseSpec args cur).2).1.text ↔
      (parseSpec args cur).1.precision ≠ 0 ∧
        (c = .o → c.value (parseSpec args cur).1.qualifier (args (parseSpec args cur).2.arg) < 8) := by
  obtain ⟨hsign, hlarge⟩ : (parseSpec args cur).1.flags.sign = false ∧
      (parseSpec args cur).1.flags.large = false := parseFlags_frame .none cur.fmt
  generalize parseSpec args cur = parsed at hconv hsign hlarge
  obtain ⟨spec, fmt, arg⟩ := parsed
  obtain rfl : fmt = c.char :: rest := hconv
  exact showsNumber_spec_iff strings args spec c rest arg hsign hlarge

/-- `%05d` with the argument -1. -/
theorem showsNumber_minus : (parseSpec minusOne ⟨[0x30, 0x35, 0x64], 0⟩).2.fmt = [IntConv.d.char] ∧
      (convPiece ⟨fun _ => []⟩ minusOne (parseSpec minusOne ⟨[0x30, 0x35, 0x64], 0⟩).1
        (parseSpec minusOne ⟨[0x30, 0x35, 0x64], 0⟩).2).1.text = [0x2d, 0x30, 0x30, 0x30, 0x31] ∧
      ShowsNumber .d (-1) 5 (-1) (convPiece ⟨fun _ => []⟩ minusOne
        (parseSpec minusOne ⟨[0x30, 0x35, 0x64], 0⟩).1
        (parseSpec minusOne ⟨[0x30, 0x35, 0x64], 0⟩).2).1.text :=
  ⟨by decide +kernel, by decide +kernel, (showsNumber_iff ⟨fun _ => []⟩ minusOne
    ⟨[0x30, 0x35, 0x64], 0⟩ .d [] (by decide +kernel)).mpr ⟨by decide +kernel, nofun⟩⟩

/-- `%o` with the argument 8 gives the text `8`, and `%.0u` with the argument 8 gives none. -/
theorem not_showsNumber_eight :
    ((convPiece ⟨fun _ => []⟩ (fun _ => 8) ⟨.none, -1, -1, 0⟩ ⟨[IntConv.o.char], 0⟩).1.text = [0x38] ∧
      ¬ ShowsNumber .o 8 (-1) (-1) (convPiece ⟨fun _ => []⟩ (fun _ => 8) ⟨.none, -1, -1, 0⟩
        ⟨[IntConv.o.char], 0⟩).1.text) ∧
    (convPiece ⟨fun _ => []⟩ (fun _ => 8) ⟨.none, -1, 0, 0⟩ ⟨[IntConv.u.char], 0⟩).1.text = [] ∧
      ¬ ShowsNumber .u 8 (-1) 0 (convPiece ⟨fun _ => []⟩ (fun _ => 8) ⟨.none, -1, 0, 0⟩
        ⟨[IntConv.u.char], 0⟩).1.text := by
  have hoctal := showsNumber_spec_iff ⟨fun _ => []⟩ (fun _ => 8) ⟨.none, -1, -1, 0⟩ .o [] 0 rfl rfl
  have hprec := showsNumber_spec_iff ⟨fun _ => []⟩ (fun _ => 8) ⟨.none, -1, 0, 0⟩ .u [] 0 rfl rfl
  refine ⟨⟨by decide +kernel, fun h => ?_⟩, by decide +kernel, fun h => ?_⟩
  · exact absurd ((hoctal.mp h).2 rfl) (by decide +kernel)
  · exact (hprec.mp h).1 rfl

end Kservice
