import TempSns.Finsh.Node
import TempSns.Finsh.Ops

/-!
# The compiler of finsh

Embedding of `finsh_compiler.c`. `finsh_type_check` marks the nodes whose address is wanted and gives
every node a data type: that of its first child, or that of its variable or literal. `finsh_compile`
emits the code of the child, of the node and of the sibling.

An assignment node without a child dereferences `NULL` in the source; the parser makes one only together
with an error, and then nothing is compiled. Here it has no code.
-/

namespace Finsh

open Op

/-! ## Types -/

/-- The data type of a variable in `finsh_type_check`. -/
def FinshType.dataType? : FinshType → Option UInt8
  | unknown => none
  | void => some dataTypeVoid
  | char | uchar => some dataTypeByte
  | short | ushort => some dataTypeWord
  | int | uint | long | ulong => some dataTypeDword
  | charp | voidp | shortp | intp | longp => some dataTypeDword

/-- `node->data_type` of a node without a child. -/
def leafDataType (d : NodeData) : UInt8 × Errno :=
  match d.nodeType with
  | .id =>
    match d.id.bind FinshSymbol.type? with
    | none => (d.dataType, none)
    | some type =>
      match type.dataType? with
      | none => (d.dataType, some .unknownType)
      | some dataType => (dataType, none)
  | .valueChar => (dataTypeByte, none)
  | .valueInt | .valueLong | .valueString | .valueNull => (dataTypeDword, none)
  | _ => (d.dataType, none)

/-- The attribute `is_addr` of the child of a node. -/
def childIsAddr (nodeType : NodeType) (isAddr : Bool) : Bool :=
  match nodeType with
  | .sysAssign | .sysPreinc | .sysPredec | .sysGetaddr => true
  | .sysGetvalue => false
  | _ => isAddr

/-- `node->idtype |= is_addr`, which leaves a system call alone. -/
def markAddress (d : NodeData) (isAddr : Bool) : NodeData :=
  if d.id.any FinshSymbol.isSyscall then d else { d with address := d.address || isAddr }

def finshTypeCheck : Tree → Bool → Tree × Errno
  | .null, _ => (.null, none)
  | .node d child sibling, isAddr =>
    match finshTypeCheck child (childIsAddr d.nodeType isAddr), finshTypeCheck sibling false with
    | (child, e), (sibling, e') =>
      let d := markAddress d isAddr
      match child with
      | .node c _ _ => (.node { d with dataType := c.dataType } child sibling, e.andThen e')
      | .null =>
        match leafDataType d with
        | (dataType, e'') =>
          (.node { d with dataType := dataType } child sibling, (e.andThen e').andThen e'')

/-! ## Code -/

/-- `finsh_code_dword`. -/
def codeDword (x : UInt32) : List UInt8 :=
  [x.toUInt8, (x >>> 8).toUInt8, (x >>> 16).toUInt8, (x >>> 24).toUInt8]

def codeOp (dataType : UInt8) (op : Width → List UInt8) : List UInt8 :=
  if dataType = dataTypeByte then op .byte
  else if dataType = dataTypeWord then op .word
  else if dataType = dataTypeDword then op .dword
  else []

def FinshType.loadWidth? : FinshType → Option Width
  | char | uchar => some .byte
  | short | ushort => some .word
  | int | uint | long | ulong | charp | shortp | intp | longp => some .dword
  | unknown | void | voidp => none

def codeLoad (address : Bool) (type : FinshType) (a : UInt32) : List UInt8 :=
  match type.loadWidth? with
  | none => []
  | some w => (if address then ld .dword else ldValue w).code :: codeDword a

/-- The case `FINSH_NODE_ID`. -/
def codeId (d : NodeData) : List UInt8 :=
  match d.id with
  | some (.syscall _ func) => (ld .dword).code :: codeDword func
  | some (.sysvar _ type var) => codeLoad d.address type var
  | some symbol@(.var _ type) => codeLoad d.address type symbol.value
  | none => []

/-- The constant 1 is loaded. -/
def codeOne : Width → List UInt8
  | .byte => [(ld .byte).code, 1]
  | .word => [(ld .word).code, 1, 0]
  | .dword => (ld .dword).code :: codeDword 1

/-- The cases `FINSH_NODE_SYS_PREINC` and `FINSH_NODE_SYS_PREDEC`, after the address of the
variable. The pointer of the child is taken for a `struct finsh_var *`. -/
def codePre (op : BinOp) (dataType : UInt8) : Tree → List UInt8
  | .node { nodeType := .id, id := some symbol, .. } _ _ =>
    codeOp dataType fun w =>
      (ldValue w).code :: codeDword symbol.value ++ codeOne w ++
        [(bin op w).code, (st w).code, (ldValueStack .dword).code]
  | _ => []

/-- The cases `FINSH_NODE_SYS_INC` and `FINSH_NODE_SYS_DEC`, after the value of the variable. -/
def codePost (op : BinOp) (dataType : UInt8) : Tree → List UInt8
  | .node { nodeType := .id, id := some symbol, .. } _ _ =>
    codeOp dataType fun w =>
      (ld .dword).code :: codeDword symbol.value ++ (ldValue w).code :: codeDword symbol.value ++
        codeOne w ++ [(bin op w).code, (st w).code, pop.code]
  | _ => []

def codeStore (dataType : UInt8) : List UInt8 × Errno :=
  match codeOp dataType fun w => [(st w).code, (ldValueStack w).code] with
  | [] => ([], some .unknownType)
  | code => (code, none)

/-- The case `FINSH_NODE_SYS_ASSIGN`. -/
def codeAssign : Tree → List UInt8 × Errno
  | .node { nodeType := .id, dataType, .. } _ _ => codeStore dataType
  | .node { nodeType := .sysGetvalue, dataType, .. } _ _ => codeStore (dataType &&& 0x0F)
  | _ => ([], none)

/-- The code of a node itself, and the error that is set. -/
def codeNode (d : NodeData) (child : Tree) : List UInt8 × Errno :=
  let bin (op : BinOp) := (codeOp d.dataType fun w => [(bin op w).code], none)
  match d.nodeType with
  | .id => (codeId d, none)
  | .valueChar => ([(ld .byte).code, d.value.toUInt8], none)
  | .valueInt | .valueLong | .valueNull | .valueString =>
    ((ld .dword).code :: codeDword d.value, none)
  | .sysAdd => bin .add
  | .sysSub => bin .sub
  | .sysMul => bin .mul
  | .sysDiv => bin .div
  | .sysMod => bin .mod
  | .sysAnd => bin .and
  | .sysOr => bin .or
  | .sysXor => bin .xor
  | .sysBitwise => (codeOp d.dataType fun w => [(bitwise w).code], none)
  | .sysShl => bin .shl
  | .sysShr => bin .shr
  | .sysFunc =>
    match child with
    | .null => ([], none)
    | .node _ _ sibling => ([syscall.code, .ofNat sibling.chainLength], none)
  | .sysAssign => codeAssign child
  | .sysPreinc => (codePre .add d.dataType child, none)
  | .sysPredec => (codePre .sub d.dataType child, none)
  | .sysInc => (codePost .add d.dataType child, none)
  | .sysDec => (codePost .sub d.dataType child, none)
  | .sysNull => (codeDword 0, none)
  | .sysGetvalue =>
    if d.address then ([], none)
    else (codeOp d.dataType fun w => [(ldValueStack w).code], none)
  | .sysGetaddr => ([], none)
  | .unknown | .sysCast => ([], some .unknownNode)

def finshCompile : Tree → List UInt8 × Errno
  | .null => ([], none)
  | .node d child sibling =>
    match finshCompile child, codeNode d child, finshCompile sibling with
    | (c, e), (c', e'), (c'', e'') => (c ++ c' ++ c'', (e.andThen e').andThen e'')

/-- The loop of `finsh_compiler_run` over the statements. -/
def compileStatements : Tree → List UInt8 × Errno
  | .null => ([], none)
  | .node d child sibling =>
    match finshCompile (.node d child .null), compileStatements sibling with
    | (c, e), (c', e') =>
      (c ++ (if sibling.isNode then [pop.code] else []) ++ c', e.andThen e')

/-- The code of `finsh_compiler_run`, and the error it sets. -/
def compilerCode (root : Tree) : List UInt8 × Errno :=
  match finshTypeCheck root false with
  | (root, e) =>
    match compileStatements root with
    | (code, e') => (code, e.andThen e')

/-- The text segment. Code that does not fit is written outside of it. -/
def finshCompilerRun (root : Tree) : Except Fault (List UInt8 × Errno) :=
  match compilerCode root with
  | (code, e) =>
    if code.length ≤ finshTextMax then
      .ok (code ++ List.replicate (finshTextMax - code.length) 0, e)
    else .error .badIndex

end Finsh
