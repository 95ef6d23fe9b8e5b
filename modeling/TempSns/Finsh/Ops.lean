import TempSns.Lib.ByteMem
import TempSns.Lib.Exec

/-!
# The virtual machine of finsh

Embedding of `finsh_ops.c`, `finsh_ops.h` and `finsh_vm_run`. A cell of the stack is a union of 32 bits:
an operation on bytes or words changes the low bytes of a cell only. The type `char` is unsigned. The
operators of C on `int` and `long` wrap; a division by zero gives 0, and a shift takes its amount
modulo 32.

Reading or writing outside the stack or the text segment, and an operation code without an entry in
`op_table`, is a fault.
-/

namespace Finsh

open Function

/-- The width of an operation. -/
inductive Width
  | byte
  | word
  | dword
  deriving DecidableEq, Repr

/-- The operators of `OP_BIN_BYTE`, `OP_BIN_WORD` and `OP_BIN_DWORD`. -/
inductive BinOp
  | add
  | sub
  | div
  | mod
  | mul
  | and
  | or
  | xor
  | shl
  | shr
  deriving DecidableEq, Repr

/-- The operations of `finsh_ops.h`. -/
inductive Op
  | noop
  | bin (op : BinOp) (w : Width)
  | bitwise (w : Width)
  | ld (w : Width)
  | ldValue (w : Width)
  | st (w : Width)
  | pop
  | syscall
  | ldValueStack (w : Width)
  deriving DecidableEq, Repr

/-- The three codes of an operation follow one another. -/
def Width.index : Width → UInt8
  | byte => 0
  | word => 1
  | dword => 2

/-- The number of bytes. -/
def Width.size : Width → ℕ
  | byte => 1
  | word => 2
  | dword => 4

/-- The macros `FINSH_OP_...`. -/
def Op.code : Op → UInt8
  | noop => 0x00
  | bin .add w => 0x01 + w.index
  | bin .sub w => 0x04 + w.index
  | bin .div w => 0x07 + w.index
  | bin .mod w => 0x0A + w.index
  | bin .mul w => 0x0D + w.index
  | bin .and w => 0x10 + w.index
  | bin .or w => 0x13 + w.index
  | bin .xor w => 0x16 + w.index
  | bitwise w => 0x19 + w.index
  | bin .shl w => 0x1C + w.index
  | bin .shr w => 0x1F + w.index
  | ld w => 0x22 + w.index
  | ldValue w => 0x25 + w.index
  | st w => 0x28 + w.index
  | pop => 0x2B
  | syscall => 0x2C
  | ldValueStack w => 0x2D + w.index

/-- The array `op_table`. -/
def opTable : List Op :=
  [.noop,
    .bin .add .byte, .bin .add .word, .bin .add .dword,
    .bin .sub .byte, .bin .sub .word, .bin .sub .dword,
    .bin .div .byte, .bin .div .word, .bin .div .dword,
    .bin .mod .byte, .bin .mod .word, .bin .mod .dword,
    .bin .mul .byte, .bin .mul .word, .bin .mul .dword,
    .bin .and .byte, .bin .and .word, .bin .and .dword,
    .bin .or .byte, .bin .or .word, .bin .or .dword,
    .bin .xor .byte, .bin .xor .word, .bin .xor .dword,
    .bitwise .byte, .bitwise .word, .bitwise .dword,
    .bin .shl .byte, .bin .shl .word, .bin .shl .dword,
    .bin .shr .byte, .bin .shr .word, .bin .shr .dword,
    .ld .byte, .ld .word, .ld .dword,
    .ldValue .byte, .ldValue .word, .ldValue .dword,
    .st .byte, .st .word, .st .dword,
    .pop,
    .syscall,
    .ldValueStack .byte, .ldValueStack .word, .ldValueStack .dword]

lemma opTable_code (op : Op) : opTable[op.code.toNat]? = some op := by
  rcases op with _ | ⟨b, w⟩ | w | w | w | w | _ | _ | w
  case bin => cases b <;> cases w <;> rfl
  all_goals first | rfl | (cases w <;> rfl)

/-! ## Cells -/

namespace Width

/-- The value of `char_value`, `short_value` or `long_value`, as an operand of type `int` or `long`. -/
def value : Width → UInt32 → Int32
  | byte, x => (x &&& 0xff).toInt32
  | word, x => x.toUInt16.toInt16.toInt32
  | dword, x => x.toInt32

/-- The cell `x` after an assignment of `y` to `char_value`, `short_value` or `long_value`. -/
def assign : Width → UInt32 → UInt32 → UInt32
  | byte, x, y => (x &&& 0xffffff00) ||| (y &&& 0xff)
  | word, x, y => (x &&& 0xffff0000) ||| (y &&& 0xffff)
  | dword, _, y => y

end Width

def BinOp.eval : BinOp → Int32 → Int32 → Int32
  | add, a, b => a + b
  | sub, a, b => a - b
  | div, a, b => a / b
  | mod, a, b => a % b
  | mul, a, b => a * b
  | and, a, b => a &&& b
  | or, a, b => a ||| b
  | xor, a, b => a ^^^ b
  | shl, a, b => a <<< b
  | shr, a, b => a >>> b

/-! ## Machine -/

def finshStackMax : ℕ := 64
def finshTextMax : ℕ := 128

/-- The state of the machine: `finsh_pc` and `finsh_sp` as indices, the stack, and the memory that the
addresses in the code point to. -/
structure Vm where
  /-- The next byte of the code. -/
  pc : ℕ
  /-- The number of stack entries. -/
  sp : ℕ
  stack : ℕ → UInt32
  mem : ByteMem.Mem

/-- What a call of the function at an address returns, and the memory after it. -/
abbrev Callee := UInt32 → List UInt32 → ByteMem.Mem → UInt32 × ByteMem.Mem

section Machine

variable (callee : Callee) (text : List UInt8)

/-- The operand of `n` bytes at `finsh_pc`, in little-endian order: `FINSH_GET16`, `FINSH_GET32`. -/
def operand (pc : ℕ) : ℕ → Except Fault ℕ
  | 0 => .ok 0
  | n + 1 =>
    match text[pc]? with
    | none => .error .badIndex
    | some b => (operand (pc + 1) n).map fun hi => b.toNat + 256 * hi

/-- A value is assigned to the cell at `finsh_sp`, which moves up. -/
def Vm.push (s : Vm) (w : Width) (y : UInt32) : Except Fault Vm :=
  if s.sp < finshStackMax then
    .ok { s with sp := s.sp + 1, stack := update s.stack s.sp (w.assign (s.stack s.sp) y) }
  else .error .badIndex

def opCall (s : Vm) : Except Fault Vm := do
  let parameters ← operand text s.pc 1
  -- the array `parameterv` has 16 entries
  if 16 < parameters ∨ s.sp < parameters + 1 then .error .badIndex
  else
    let sp := s.sp - 1 - parameters
    let args := (List.range parameters).map fun i => s.stack (sp + 1 + i)
    match callee (s.stack sp) args s.mem with
    | (r, mem) => .ok ⟨s.pc + 1, sp + 1, update s.stack sp r, mem⟩

/-- The functions of `op_table`, after `finsh_pc` has moved over the code. -/
def runOp (s : Vm) : Op → Except Fault Vm
  | .noop => .ok s
  | .bin op w =>
    if s.sp < 2 then .error .badIndex
    else
      let x := s.stack (s.sp - 2)
      let r := op.eval (w.value x) (w.value (s.stack (s.sp - 1)))
      .ok { s with sp := s.sp - 1, stack := update s.stack (s.sp - 2) (w.assign x r.toUInt32) }
  | .bitwise w =>
    if s.sp < 1 then .error .badIndex
    else
      let x := s.stack (s.sp - 1)
      let r := ~~~ w.value x
      .ok { s with stack := update s.stack (s.sp - 1) (w.assign x r.toUInt32) }
  | .ld w => do
    let x ← operand text s.pc w.size
    Vm.push { s with pc := s.pc + w.size } w (.ofNat x)
  | .ldValue w => do
    let a ← operand text s.pc 4
    Vm.push { s with pc := s.pc + 4 } w (.ofNat (ByteMem.load s.mem a w.size))
  | .ldValueStack w =>
    if s.sp < 1 then .error .badIndex
    else
      let x := s.stack (s.sp - 1)
      let y := UInt32.ofNat (ByteMem.load s.mem x.toNat w.size)
      .ok { s with stack := update s.stack (s.sp - 1) (w.assign x y) }
  | .st w =>
    if s.sp < 2 then .error .badIndex
    else
      let a := (s.stack (s.sp - 2)).toNat
      .ok { s with sp := s.sp - 1,
                   mem := ByteMem.store s.mem a w.size (s.stack (s.sp - 1)).toNat }
  | .pop => if s.sp < 1 then .error .badIndex else .ok { s with sp := s.sp - 1 }
  | .syscall => opCall callee text s

/-- A round of the loop of `finsh_vm_run`. -/
def vmStep (s : Vm) : Except Fault Vm :=
  match text[s.pc]? with
  | none => .error .badIndex
  | some op =>
    match opTable[op.toNat]? with
    | none => .error .badPointer
    | some op => runOp callee text { s with pc := s.pc + 1 } op

/-- The loop of `finsh_vm_run`. -/
def vmLoop : ℕ → Vm → Except Fault Vm
  | 0, s => if s.pc < finshTextMax then .error .diverges else .ok s
  | fuel + 1, s => if s.pc < finshTextMax then (vmStep callee text s).bind (vmLoop fuel) else .ok s

/-- There are no jumps: every round moves `finsh_pc` up, so there are at most
`FINSH_TEXT_MAX` rounds. -/
def finshVmRun (stack : ℕ → UInt32) (mem : ByteMem.Mem) : Except Fault Vm :=
  vmLoop callee text finshTextMax ⟨0, 0, stack, mem⟩

end Machine

end Finsh
