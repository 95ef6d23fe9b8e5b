import Mathlib.Tactic

/-!
# Syntax trees of finsh

The types of `finsh.h`, `finsh_node.h` and `finsh_var.h` that the parser, the compiler and the virtual
machine of finsh share. A pointer to a node is a tree: `NULL`, or a node with its `child` and its
`sibling`.
-/

namespace Finsh

inductive FinshType
  | unknown
  | void
  | voidp
  | char
  | uchar
  | charp
  | short
  | ushort
  | shortp
  | int
  | uint
  | intp
  | long
  | ulong
  | longp
  deriving DecidableEq, Repr

inductive NodeType
  | unknown
  | id
  | valueChar
  | valueInt
  | valueLong
  | valueString
  | valueNull
  | sysAdd
  | sysSub
  | sysMul
  | sysDiv
  | sysMod
  | sysAnd
  | sysOr
  | sysXor
  | sysBitwise
  | sysShl
  | sysShr
  | sysFunc
  | sysAssign
  | sysCast
  | sysPreinc
  | sysPredec
  | sysInc
  | sysDec
  | sysGetvalue
  | sysGetaddr
  | sysNull
  deriving DecidableEq, Repr

/-- `FINSH_DATA_TYPE_VOID`. -/
def dataTypeVoid : UInt8 := 0x00
/-- `FINSH_DATA_TYPE_BYTE`. -/
def dataTypeByte : UInt8 := 0x01
/-- `FINSH_DATA_TYPE_WORD`. -/
def dataTypeWord : UInt8 := 0x02
/-- `FINSH_DATA_TYPE_DWORD`. -/
def dataTypeDword : UInt8 := 0x03

/-- The error codes of `finsh.h` other than `FINSH_ERROR_OK`. -/
inductive FinshError
  | invalidToken
  | expectType
  | unknownType
  | variableExist
  | expectOperator
  | memoryFull
  | unknownOp
  | unknownNode
  | expectChar
  | unexpectEnd
  | unknownToken
  | noFloat
  | unknownSymbol
  | nullNode
  deriving DecidableEq, Repr

/-- `global_errno`: the last error that was set. -/
abbrev Errno := Option FinshError

/-- The error code after a second piece of work. -/
def Errno.andThen (e e' : Errno) : Errno := e'.orElse fun _ => e

/-- What an identifier points to: the address of its record and the fields that are read. -/
inductive FinshSymbol
  | var (record : UInt32) (type : FinshType)
  /-- `struct finsh_sysvar`, with the address `var` of the variable. -/
  | sysvar (record : UInt32) (type : FinshType) (var : UInt32)
  /-- `struct finsh_syscall`, with the address of the function. -/
  | syscall (record : UInt32) (func : UInt32)
  deriving DecidableEq, Repr

namespace FinshSymbol

/-- The pointer in the union `id` of a node. -/
def record : FinshSymbol → UInt32
  | var record _ | sysvar record _ _ | syscall record _ => record

/-- `&(((struct finsh_var *)id)->value)`: the name takes 17 bytes, the type one, and the union is
aligned to 4. -/
def value (symbol : FinshSymbol) : UInt32 := symbol.record + 20

/-- `FINSH_IDTYPE_SYSCALL`. -/
def isSyscall : FinshSymbol → Bool
  | syscall _ _ => true
  | _ => false

def type? : FinshSymbol → Option FinshType
  | var _ type | sysvar _ type _ => some type
  | syscall _ _ => none

end FinshSymbol

/-- The fields of `struct finsh_node` but the pointers to other nodes. -/
structure NodeData where
  nodeType : NodeType
  dataType : UInt8 := dataTypeVoid
  /-- `FINSH_IDTYPE_ADDRESS` of `idtype`. The other bits say what `id` points to. -/
  address : Bool := false
  value : UInt32 := 0
  /-- The union `id`. -/
  id : Option FinshSymbol := none
  deriving DecidableEq, Repr

/-- `struct finsh_node *`. -/
inductive Tree
  | null
  | node (data : NodeData) (child sibling : Tree)
  deriving DecidableEq, Repr

namespace Tree

def isNode : Tree → Bool
  | null => false
  | node _ _ _ => true

/-- The number of nodes that are reached over `sibling`. -/
def chainLength : Tree → ℕ
  | null => 0
  | node _ _ sibling => chainLength sibling + 1

end Tree

end Finsh
