import TempSns.Finsh.Machine

/-!
# Integer statements

Statements over variables of type `int` and `long`: their meaning in C, their syntax trees as the parser
builds them, and the code the compiler makes of them. The meaning is undefined where a result does not
fit 32 bits, a divisor is zero or a shift is not by 0 to 31 places.

A variable is one of finsh, which lies in its own record, or a system variable, whose record has a
pointer to it. `finsh_compile` takes the record of every variable that is incremented or decremented
for one of finsh. `exec` is what the code computes then; it is the meaning in C if each variable under
`++` or `--` lies where the value of a finsh variable lies in its record.
-/

namespace Finsh

open Option

/-! ## C -/

/-- A result of type `int` or `long`. -/
def inRange (n : ℤ) : Option Int32 := if -2 ^ 31 ≤ n ∧ n < 2 ^ 31 then some (.ofInt n) else none

/-- The operators of C where they are defined. -/
def BinOp.cValue (op : BinOp) (a b : Int32) : Option Int32 :=
  match op with
  | add => inRange (a.toInt + b.toInt)
  | sub => inRange (a.toInt - b.toInt)
  | mul => inRange (a.toInt * b.toInt)
  | div => if b = 0 then none else inRange (a.toInt.tdiv b.toInt)
  | mod =>
    -- a remainder is defined if the quotient is
    if b = 0 then none else (inRange (a.toInt.tdiv b.toInt)).bind fun _ => inRange (a.toInt.tmod b.toInt)
  | and => some (a &&& b)
  | or => some (a ||| b)
  | xor => some (a ^^^ b)
  | shl => if 0 ≤ b.toInt ∧ b.toInt < 32 then inRange (a.toInt * 2 ^ b.toInt.toNat) else none
  | shr => if 0 ≤ b.toInt ∧ b.toInt < 32 then inRange (a.toInt / 2 ^ b.toInt.toNat) else none

/-- A variable of type `int`, or `long`. -/
inductive IntVar
  /-- A variable of finsh. -/
  | var (record : UInt32) (long : Bool)
  /-- A system variable. -/
  | sysvar (record : UInt32) (long : Bool) (addr : UInt32)

/-- The operators `++` and `--`. -/
inductive StepOp
  | inc
  | dec

/-- An expression over variables of type `int` and `long`. -/
inductive IntExpr
  | var (x : IntVar)
  | lit (long : Bool) (n : Int32)
  | bin (op : BinOp) (a b : IntExpr)
  | neg (a : IntExpr)
  | compl (a : IntExpr)
  | assign (x : IntVar) (a : IntExpr)
  | pre (step : StepOp) (x : IntVar)
  | post (step : StepOp) (x : IntVar)

namespace IntVar

def type (long : Bool) : FinshType := if long then .long else .int

def symbol : IntVar → FinshSymbol
  | var record long => .var record (type long)
  | sysvar record long addr => .sysvar record (type long) addr

def address : IntVar → UInt32
  | x@(var _ _) => x.symbol.value
  | sysvar _ _ addr => addr

/-- The value of the variable in a memory. -/
def read (x : IntVar) (m : ByteMem.Mem) : UInt32 := .ofNat (ByteMem.load m x.address.toNat 4)

def write (x : IntVar) (m : ByteMem.Mem) (v : Int32) : ByteMem.Mem :=
  ByteMem.store m x.address.toNat 4 v.toUInt32.toNat

/-- The value of a finsh variable with the record of the variable. -/
def recorded (x : IntVar) (m : ByteMem.Mem) : UInt32 :=
  .ofNat (ByteMem.load m x.symbol.value.toNat 4)

def record (x : IntVar) (m : ByteMem.Mem) (v : Int32) : ByteMem.Mem :=
  ByteMem.store m x.symbol.value.toNat 4 v.toUInt32.toNat

end IntVar

def StepOp.binOp : StepOp → BinOp
  | inc => .add
  | dec => .sub

namespace IntExpr

/-- The variables under `++` and `--`. -/
def stepped : IntExpr → List IntVar
  | var _ | lit _ _ => []
  | bin _ a b => a.stepped ++ b.stepped
  | neg a | compl a | assign _ a => a.stepped
  | pre _ x | post _ x => [x]

/-- The value of an expression in C, and the memory after it, where they are defined. -/
def eval : IntExpr → ByteMem.Mem → Option (Int32 × ByteMem.Mem)
  | var x, m => some ((x.read m).toInt32, m)
  | lit _ n, m => some (n, m)
  | bin op a b, m => do
    let (v, m) ← a.eval m
    let (w, m) ← b.eval m
    let r ← op.cValue v w
    return (r, m)
  | neg a, m => do
    let (v, m) ← a.eval m
    let r ← inRange (-v.toInt)
    return (r, m)
  | compl a, m => do
    let (v, m) ← a.eval m
    return (~~~ v, m)
  | assign x a, m => do
    let (v, m) ← a.eval m
    return (v, x.write m v)
  | pre step x, m => do
    let r ← step.binOp.cValue (x.read m).toInt32 1
    return (r, x.write m r)
  | post step x, m => do
    let r ← step.binOp.cValue (x.read m).toInt32 1
    return ((x.read m).toInt32, x.write m r)

/-- The value of the last of some statements, and the memory after them. -/
def evalAll : IntExpr → List IntExpr → ByteMem.Mem → Option (Int32 × ByteMem.Mem)
  | e, [], m => e.eval m
  | e, e' :: es, m => (e.eval m).bind fun (_, m) => evalAll e' es m

end IntExpr

/-! ## Trees and code -/

def BinOp.nodeType : BinOp → NodeType
  | add => .sysAdd
  | sub => .sysSub
  | div => .sysDiv
  | mod => .sysMod
  | mul => .sysMul
  | and => .sysAnd
  | or => .sysOr
  | xor => .sysXor
  | shl => .sysShl
  | shr => .sysShr

def StepOp.preType : StepOp → NodeType
  | inc => .sysPreinc
  | dec => .sysPredec

def StepOp.postType : StepOp → NodeType
  | inc => .sysInc
  | dec => .sysDec

/-- The node of a variable. -/
def IntVar.tree (x : IntVar) (sibling : Tree) : Tree :=
  .node { nodeType := .id, id := some x.symbol } .null sibling

namespace IntExpr

/-- The syntax tree of an expression, in front of a sibling. -/
def tree : IntExpr → Tree → Tree
  | var x, sibling => x.tree sibling
  | lit long n, sibling =>
    .node { nodeType := if long then .valueLong else .valueInt, value := n.toUInt32 } .null sibling
  | bin op a b, sibling => .node { nodeType := op.nodeType } (a.tree (b.tree .null)) sibling
  | neg a, sibling =>
    .node { nodeType := .sysSub } (.node { nodeType := .valueLong } .null (a.tree .null)) sibling
  | compl a, sibling => .node { nodeType := .sysBitwise } (a.tree .null) sibling
  | assign x a, sibling => .node { nodeType := .sysAssign } (x.tree (a.tree .null)) sibling
  | pre step x, sibling => .node { nodeType := step.preType } (x.tree .null) sibling
  | post step x, sibling => .node { nodeType := step.postType } (x.tree .null) sibling

def treeAll (es : List IntExpr) : Tree := es.foldr tree .null

end IntExpr

/-- A constant or an address is loaded. -/
def ldCode (x : UInt32) : List UInt8 := (Op.ld .dword).code :: codeDword x

def ldValueCode (x : UInt32) : List UInt8 := (Op.ldValue .dword).code :: codeDword x

namespace IntExpr

def code : IntExpr → List UInt8
  | var x => ldValueCode x.address
  | lit _ n => ldCode n.toUInt32
  | bin op a b => a.code ++ (b.code ++ [(Op.bin op .dword).code])
  | neg a => ldCode 0 ++ (a.code ++ [(Op.bin .sub .dword).code])
  | compl a => a.code ++ [(Op.bitwise .dword).code]
  | assign x a =>
    ldCode x.address ++ (a.code ++ ([(Op.st .dword).code] ++ [(Op.ldValueStack .dword).code]))
  | pre step x =>
    ldCode x.address ++ (ldValueCode x.symbol.value ++ (ldCode 1 ++ ([(Op.bin step.binOp .dword).code] ++
      ([(Op.st .dword).code] ++ [(Op.ldValueStack .dword).code]))))
  | post step x =>
    ldValueCode x.address ++ (ldCode x.symbol.value ++ (ldValueCode x.symbol.value ++ (ldCode 1 ++
      ([(Op.bin step.binOp .dword).code] ++ ([(Op.st .dword).code] ++ [Op.pop.code])))))

def codeAll : IntExpr → List IntExpr → List UInt8
  | e, [] => e.code
  | e, e' :: es => e.code ++ ([Op.pop.code] ++ codeAll e' es)

/-- What the code of an expression computes. It is as in C, but the operators wrap, and `++` and `--`
use the value in the record of the variable, which the postfix ones change. -/
def exec : IntExpr → ByteMem.Mem → Int32 × ByteMem.Mem
  | var x, m => ((x.read m).toInt32, m)
  | lit _ n, m => (n, m)
  | bin op a b, m =>
    (op.eval (a.exec m).1 (b.exec (a.exec m).2).1, (b.exec (a.exec m).2).2)
  | neg a, m => (BinOp.sub.eval 0 (a.exec m).1, (a.exec m).2)
  | compl a, m => (~~~ (a.exec m).1, (a.exec m).2)
  | assign x a, m => ((a.exec m).1, x.write (a.exec m).2 (a.exec m).1)
  | pre step x, m =>
    let r := step.binOp.eval (x.recorded m).toInt32 1
    (r, x.write m r)
  | post step x, m =>
    ((x.read m).toInt32, x.record m (step.binOp.eval (x.recorded m).toInt32 1))

def execAll : IntExpr → List IntExpr → ByteMem.Mem → Int32 × ByteMem.Mem
  | e, [], m => e.exec m
  | e, e' :: es, m => execAll e' es (e.exec m).2

end IntExpr

/-- The compiler and the machine are right for some statements. If the code fits the text segment and
the value in C is defined, the compiler sets no error, and a run of the machine, whatever was on the
stack, leaves one entry there, which is that value, and every variable as C does. -/
def CompilerOk (e : IntExpr) (es : List IntExpr) : Prop :=
  ∀ (callee : Callee) (stack : ℕ → UInt32) (m m' : ByteMem.Mem) (v : Int32),
    (compilerCode (IntExpr.treeAll (e :: es))).1.length ≤ finshTextMax →
    IntExpr.evalAll e es m = some (v, m') →
    ∃ text s, finshCompilerRun (IntExpr.treeAll (e :: es)) = .ok (text, none) ∧
      finshVmRun callee text stack m = .ok s ∧ s.sp = 1 ∧ s.stack 0 = v.toUInt32 ∧
      ∀ x : IntVar, x.read s.mem = x.read m'

/-! ## Operators -/

lemma eq_of_inRange {n : ℤ} {r : Int32} (h : inRange n = some r) : .ofInt n = r := by
  rw [inRange, ite_none_right_eq_some] at h
  exact some.inj h.2

lemma toInt_bounds (a : Int32) : Int32.minValue.toInt ≤ a.toInt ∧ a.toInt ≤ Int32.maxValue.toInt :=
  ⟨a.minValue_le_toInt, a.toInt_le⟩

lemma shift_amount {b : Int32} (h : 0 ≤ b.toInt ∧ b.toInt < 32) :
    b.toInt.toNat < 32 ∧ b.toBitVec.smod 32 = .ofNat 32 b.toInt.toNat := by
  have hlt : b.toInt.toNat < 32 := by omega
  have hb : b = Int32.ofInt (b.toInt.toNat : ℤ) := by
    rw [Int.toNat_of_nonneg h.1, Int32.ofInt_toInt]
  have hall : ∀ k : Fin 32, (Int32.ofInt ((k : ℕ) : ℤ)).toBitVec.smod 32 = .ofNat 32 k := by decide
  refine ⟨hlt, ?_⟩
  conv_lhs => rw [hb]
  exact hall ⟨_, hlt⟩

lemma shl_eq {a b : Int32} (h : 0 ≤ b.toInt ∧ b.toInt < 32) :
    Int32.ofInt (a.toInt * 2 ^ b.toInt.toNat) = a <<< b := by
  obtain ⟨hlt, hamount⟩ := shift_amount h
  have htwo : ∀ k : Fin 32, (Int32.ofInt (2 ^ (k : ℕ))).toBitVec = .twoPow 32 k := by decide
  rw [← Int32.toBitVec_inj, Int32.toBitVec_shiftLeft, hamount, Int32.ofInt_mul, Int32.ofInt_toInt,
    Int32.toBitVec_mul, htwo ⟨_, hlt⟩, BitVec.shiftLeft_eq', ← BitVec.shiftLeft_eq_mul_twoPow,
    BitVec.toNat_ofNat, Nat.mod_eq_of_lt (by omega)]

lemma shr_eq {a b : Int32} (h : 0 ≤ b.toInt ∧ b.toInt < 32) :
    Int32.ofInt (a.toInt / 2 ^ b.toInt.toNat) = a >>> b := by
  obtain ⟨hlt, hamount⟩ := shift_amount h
  have hint : (a >>> b).toInt = a.toInt / 2 ^ b.toInt.toNat := by
    change (a >>> b).toBitVec.toInt = _
    rw [Int32.toBitVec_shiftRight, hamount, BitVec.sshiftRight', BitVec.toInt_sshiftRight,
      BitVec.toNat_ofNat, Nat.mod_eq_of_lt (by omega), Int.shiftRight_eq_div_pow]
    norm_cast
  rw [← hint, Int32.ofInt_toInt]

/-- The machine computes the operators of C where they are defined. -/
lemma BinOp.eval_eq {op : BinOp} {a b r : Int32} (h : op.cValue a b = some r) : op.eval a b = r := by
  have ha := toInt_bounds a
  have hb := toInt_bounds b
  cases op with
  | add =>
    rw [← eq_of_inRange h, Int32.ofInt_add, Int32.ofInt_toInt, Int32.ofInt_toInt, eval]
  | sub =>
    rw [← eq_of_inRange h, Int32.ofInt_sub, Int32.ofInt_toInt, Int32.ofInt_toInt, eval]
  | mul =>
    rw [← eq_of_inRange h, Int32.ofInt_mul, Int32.ofInt_toInt, Int32.ofInt_toInt, eval]
  | div =>
    rw [cValue, ite_none_left_eq_some] at h
    rw [← eq_of_inRange h.2, Int32.ofInt_tdiv ha.1 ha.2 hb.1 hb.2, Int32.ofInt_toInt, Int32.ofInt_toInt,
      eval]
  | mod =>
    rw [cValue, ite_none_left_eq_some, bind_eq_some_iff] at h
    obtain ⟨-, -, -, h⟩ := h
    rw [← eq_of_inRange h, Int32.ofInt_tmod ha.1 ha.2 hb.1 hb.2, Int32.ofInt_toInt, Int32.ofInt_toInt,
      eval]
  | and => exact some.inj h
  | or => exact some.inj h
  | xor => exact some.inj h
  | shl =>
    rw [cValue, ite_none_right_eq_some] at h
    rw [← eq_of_inRange h.2, shl_eq h.1, eval]
  | shr =>
    rw [cValue, ite_none_right_eq_some] at h
    rw [← eq_of_inRange h.2, shr_eq h.1, eval]

end Finsh
