import TempSns.Finsh.IntExpr

/-!
# The compiler on integer statements

The compiler makes `IntExpr.code` of the syntax tree of a statement, and the machine computes
`IntExpr.exec` with it. A statement never has more than a fifth of the length of its code on the stack,
so code that fits the text segment does not overflow the stack. So compiler and machine are right just
for the statements with the same meaning in `exec` as in C, and these include all statements whose
variables under `++` and `--` are variables of finsh.
-/

namespace Finsh

open ByteMem IntExpr List Option Int32 Nat UInt32 Op

@[simp] lemma Errno.none_andThen (e : Errno) : Errno.andThen none e = e := by cases e <;> rfl

@[simp] lemma Errno.andThen_none (e : Errno) : e.andThen none = e := rfl

/-! ## Code -/

namespace IntVar

/-- The node of a variable after the type check. -/
def data (x : IntVar) (address : Bool) : NodeData :=
  { nodeType := .id, dataType := dataTypeDword, address := address, id := some x.symbol }

lemma type_dataType? (long : Bool) : (type long).dataType? = some dataTypeDword := by
  cases long <;> rfl

lemma type_loadWidth? (long : Bool) : (type long).loadWidth? = some .dword := by cases long <;> rfl

lemma finshTypeCheck_tree (x : IntVar) (isAddr : Bool) (s : Tree) :
    finshTypeCheck (x.tree s) isAddr =
      (.node (x.data isAddr) .null (finshTypeCheck s false).1, (finshTypeCheck s false).2) := by
  cases x with
  | var record long =>
    simp [tree, finshTypeCheck, markAddress, symbol, FinshSymbol.isSyscall, leafDataType,
      FinshSymbol.type?, type_dataType?, data]
  | sysvar record long addr =>
    simp [tree, finshTypeCheck, markAddress, symbol, FinshSymbol.isSyscall, leafDataType,
      FinshSymbol.type?, type_dataType?, data]

lemma codeNode_data (x : IntVar) (isAddr : Bool) (child : Tree) : codeNode (x.data isAddr) child =
      (if isAddr then ldCode x.address else ldValueCode x.address, none) := by
  cases x with
  | var record long => cases isAddr <;> simp [codeNode, data, codeId, symbol, codeLoad, type_loadWidth?,
      ldCode, ldValueCode, address]
  | sysvar record long addr => cases isAddr <;> simp [codeNode, data, codeId, symbol, codeLoad,
      type_loadWidth?, ldCode, ldValueCode, address]

lemma finshCompile_data (x : IntVar) (isAddr : Bool) (s : Tree) :
    finshCompile (.node (x.data isAddr) .null s) =
      ((if isAddr then ldCode x.address else ldValueCode x.address) ++ (finshCompile s).1,
        (finshCompile s).2) := by
  simp [finshCompile, codeNode_data]

end IntVar

def opData (nodeType : NodeType) : NodeData := { nodeType := nodeType, dataType := dataTypeDword }

lemma finshTypeCheck_op {nodeType : NodeType} {isAddr : Bool} {child sibling c₁ c₂ : Tree}
    {c : NodeData} (ha : childIsAddr nodeType false = isAddr) (hc : c.dataType = dataTypeDword)
    (h : finshTypeCheck child isAddr = (.node c c₁ c₂, none)) :
    finshTypeCheck (.node { nodeType := nodeType } child sibling) false =
      (.node (opData nodeType) (.node c c₁ c₂) (finshTypeCheck sibling false).1,
        (finshTypeCheck sibling false).2) := by
  simp [finshTypeCheck, ha, h, markAddress, opData, hc]

lemma finshCompile_op {nodeType : NodeType} {child sibling : Tree} {code code' : List UInt8}
    (h : finshCompile child = (code, none))
    (hnode : codeNode (opData nodeType) child = (code', none)) :
    finshCompile (.node (opData nodeType) child sibling) =
      (code ++ code' ++ (finshCompile sibling).1, (finshCompile sibling).2) := by
  simp [finshCompile, h, hnode]

lemma BinOp.codeNode_eq (op : BinOp) (child : Tree) :
    codeNode (opData op.nodeType) child = ([(bin op .dword).code], none) := by
  cases op <;> rfl

lemma BinOp.childIsAddr_eq (op : BinOp) : childIsAddr op.nodeType false = false := by cases op <;> rfl

lemma StepOp.codeNode_pre (step : StepOp) (x : IntVar) (c s : Tree) :
    codeNode (opData step.preType) (.node (x.data true) c s) =
      (ldValueCode x.symbol.value ++ (ldCode 1 ++ ([(bin step.binOp .dword).code] ++
        ([(st .dword).code] ++ [(ldValueStack .dword).code]))), none) := by
  cases step <;> rfl

lemma StepOp.codeNode_post (step : StepOp) (x : IntVar) (c s : Tree) :
    codeNode (opData step.postType) (.node (x.data false) c s) =
      (ldCode x.symbol.value ++ (ldValueCode x.symbol.value ++ (ldCode 1 ++
        ([(bin step.binOp .dword).code] ++ ([(st .dword).code] ++ [pop.code])))), none) := by
  cases step <;> rfl

lemma StepOp.childIsAddr_pre (step : StepOp) : childIsAddr step.preType false = true := by
  cases step <;> rfl

lemma StepOp.childIsAddr_post (step : StepOp) : childIsAddr step.postType false = false := by
  cases step <;> rfl

namespace IntExpr

/-- The node of a literal after the type check. -/
def litData (long : Bool) (n : Int32) : NodeData :=
  { nodeType := if long then .valueLong else .valueInt, dataType := dataTypeDword, value := n.toUInt32 }

lemma finshTypeCheck_lit (long : Bool) (n : Int32) (s : Tree) :
    finshTypeCheck ((lit long n).tree s) false =
      (.node (litData long n) .null (finshTypeCheck s false).1, (finshTypeCheck s false).2) := by
  cases long <;> simp [tree, finshTypeCheck, markAddress, leafDataType, litData]

lemma finshCompile_lit (long : Bool) (n : Int32) (s : Tree) :
    finshCompile (.node (litData long n) .null s) =
      (ldCode n.toUInt32 ++ (finshCompile s).1, (finshCompile s).2) := by
  cases long <;> simp [finshCompile, codeNode, litData, ldCode]

lemma compile_tree (e : IntExpr) : ∃ d child, d.dataType = dataTypeDword ∧
    (∀ s, finshTypeCheck (e.tree s) false =
      (.node d child (finshTypeCheck s false).1, (finshTypeCheck s false).2)) ∧
    ∀ s, finshCompile (.node d child s) = (e.code ++ (finshCompile s).1, (finshCompile s).2) := by
  induction e with
  | var x =>
    exact ⟨x.data false, .null, rfl, x.finshTypeCheck_tree false, x.finshCompile_data false⟩
  | lit long n =>
    exact ⟨litData long n, .null, rfl, finshTypeCheck_lit long n, finshCompile_lit long n⟩
  | bin op a b iha ihb =>
    obtain ⟨da, ca, hda, hta, hca⟩ := iha
    obtain ⟨db, cb, hdb, htb, hcb⟩ := ihb
    refine ⟨opData op.nodeType, .node da ca (.node db cb .null), rfl, fun s => ?_, fun s => ?_⟩
    · have hchild := hta (b.tree .null)
      rw [htb] at hchild
      exact finshTypeCheck_op op.childIsAddr_eq hda hchild
    · have hchild := hca (.node db cb .null)
      rw [hcb] at hchild
      rw [finshCompile_op hchild (op.codeNode_eq _)]
      simp [finshCompile, code]
  | neg a ih =>
    -- the parser subtracts the operand from the literal 0
    obtain ⟨d, c, hd, ht, hc⟩ := ih
    refine ⟨opData BinOp.sub.nodeType, .node (litData true 0) .null (.node d c .null), rfl,
      fun s => ?_, fun s => ?_⟩
    · have hchild := finshTypeCheck_lit true 0 (a.tree .null)
      rw [ht] at hchild
      exact finshTypeCheck_op rfl rfl hchild
    · have hchild := finshCompile_lit true 0 (.node d c .null)
      rw [hc] at hchild
      rw [finshCompile_op hchild (BinOp.sub.codeNode_eq _)]
      simp only [finshCompile, code, append_nil, append_assoc]
      rfl
  | compl a ih =>
    obtain ⟨d, c, hd, ht, hc⟩ := ih
    refine ⟨opData .sysBitwise, .node d c .null, rfl, fun s => ?_, fun s => ?_⟩
    · exact finshTypeCheck_op rfl hd (ht .null)
    · have hnode : codeNode (opData .sysBitwise) (.node d c .null) =
        ([(bitwise .dword).code], none) := rfl
      rw [finshCompile_op (hc .null) hnode]
      simp [finshCompile, code]
  | assign x a ih =>
    obtain ⟨d, c, hd, ht, hc⟩ := ih
    refine ⟨opData .sysAssign, .node (x.data true) .null (.node d c .null), rfl,
      fun s => ?_, fun s => ?_⟩
    · have hchild := x.finshTypeCheck_tree true (a.tree .null)
      rw [ht] at hchild
      exact finshTypeCheck_op rfl rfl hchild
    · have hchild := x.finshCompile_data true (.node d c .null)
      rw [hc] at hchild
      have hnode : codeNode (opData .sysAssign) (.node (x.data true) .null (.node d c .null)) =
        ([(st .dword).code] ++ [(ldValueStack .dword).code], none) := rfl
      rw [finshCompile_op hchild hnode]
      simp [finshCompile, code]
  | pre step x =>
    refine ⟨opData step.preType, .node (x.data true) .null .null, rfl, fun s => ?_, fun s => ?_⟩
    · exact finshTypeCheck_op step.childIsAddr_pre rfl (x.finshTypeCheck_tree true .null)
    · rw [finshCompile_op (x.finshCompile_data true .null) (step.codeNode_pre x _ _)]
      simp [finshCompile, code]
  | post step x =>
    refine ⟨opData step.postType, .node (x.data false) .null .null, rfl, fun s => ?_, fun s => ?_⟩
    · exact finshTypeCheck_op step.childIsAddr_post rfl (x.finshTypeCheck_tree false .null)
    · rw [finshCompile_op (x.finshCompile_data false .null) (step.codeNode_post x _ _)]
      simp [finshCompile, code]

lemma compile_treeAll (e : IntExpr) (es : List IntExpr) :
    ∃ d child sibling, finshTypeCheck (treeAll (e :: es)) false = (.node d child sibling, none) ∧
      compileStatements (.node d child sibling) = (codeAll e es, none) := by
  induction es generalizing e with
  | nil =>
    obtain ⟨d, child, -, htree, hcode⟩ := e.compile_tree
    refine ⟨d, child, .null, htree .null, ?_⟩
    rw [compileStatements, hcode]
    simp [compileStatements, finshCompile, Tree.isNode, codeAll]
  | cons e' es ih =>
    obtain ⟨d', child', sibling', htree', hcode'⟩ := ih e'
    obtain ⟨d, child, -, htree, hcode⟩ := e.compile_tree
    refine ⟨d, child, .node d' child' sibling', ?_, ?_⟩
    · have hall := htree (treeAll (e' :: es))
      rwa [htree'] at hall
    · rw [compileStatements, hcode, hcode']
      simp [finshCompile, Tree.isNode, codeAll]

lemma compilerCode_treeAll (e : IntExpr) (es : List IntExpr) :
    compilerCode (treeAll (e :: es)) = (codeAll e es, none) := by
  obtain ⟨d, child, sibling, htree, hcode⟩ := compile_treeAll e es
  simp [compilerCode, htree, hcode]

/-! ## Run -/

lemma le_length_code (e : IntExpr) : 5 ≤ e.code.length := by
  induction e with
  | var x => exact le_rfl
  | lit long n => exact le_rfl
  | bin op a b iha ihb => simp [code]; omega
  | neg a ih => simp [code]; omega
  | compl a ih => simp [code]; omega
  | assign x a ih => simp [code]; omega
  | pre step x => simp [code, ldCode, codeDword]
  | post step x => simp [code, ldValueCode, codeDword]

variable {callee : Callee} {text : List UInt8} {pc : ℕ} {l : List UInt32}
  {m m' : ByteMem.Mem} {v : Int32} {seg : List UInt8} {step : StepOp} {x : UInt32} {r : Int32}

section

variable (hlen : text.length = finshTextMax)

include hlen

/-- The stack is not full while the code of a load is left. -/
lemma length_lt_of_seg (hdepth : 5 * l.length ≤ pc) {b : UInt8}
    (hseg : Seg text pc (b :: seg)) : l.length < finshStackMax := by
  have hle := hseg.le_length (cons_ne_nil _ _)
  rw [hlen, length_cons, finshTextMax] at hle
  rw [finshStackMax]
  omega

lemma computes_ldCode (hdepth : 5 * l.length ≤ pc)
    (hseg : Seg text pc (ldCode x)) : Computes callee text pc l m (pc + 5) (x :: l) m :=
  computes_ld hlen (length_lt_of_seg hlen hdepth hseg) hseg

lemma computes_ldValueCode (hdepth : 5 * l.length ≤ pc) (hseg : Seg text pc (ldValueCode x)) :
    Computes callee text pc l m (pc + 5) (.ofNat (load m x.toNat 4) :: l) m :=
  computes_ldValue hlen (length_lt_of_seg hlen hdepth hseg) hseg

end

lemma depth_cons {y : UInt32} {n : ℕ} (hn : 5 ≤ n) (hdepth : 5 * l.length ≤ pc) :
    5 * (y :: l).length ≤ pc + n := by
  rw [length_cons]
  omega

lemma load_write (x : IntVar) (r : Int32) :
    UInt32.ofNat (load (x.write m r) x.address.toNat 4) = r.toUInt32 := by
  rw [IntVar.write, load_store_same, Nat.mod_eq_of_lt (by simpa using r.toUInt32.toNat_lt),
    UInt32.ofNat_toNat]

section

variable (hlen : text.length = finshTextMax)

include hlen

/-- A value is loaded, incremented or decremented, and stored through the address on the stack. -/
lemma computes_step {f a : UInt32} (hdepth : 5 * (a :: l).length ≤ pc)
    (hr : step.binOp.eval (UInt32.ofNat (load m f.toNat 4)).toInt32 1 = r)
    (hseg : Seg text pc (ldValueCode f ++ (ldCode 1 ++
      ([(Op.bin step.binOp .dword).code] ++ ([(Op.st .dword).code] ++ seg))))) :
    Computes callee text pc (a :: l) m (pc + 12) (a :: l) (store m a.toNat 4 r.toUInt32.toNat) := by
  have hone := hseg.right
  have hbin := hone.right
  have hst := hbin.right
  have h₁ : Computes callee text pc (a :: l) m (pc + 5)
    (.ofNat (load m f.toNat 4) :: a :: l) m := computes_ldValueCode hlen hdepth hseg.left
  have h₂ := h₁.trans (computes_ldCode hlen (depth_cons le_rfl hdepth) hone.left)
  have h₃ := h₂.trans (computes_bin hlen step.binOp hbin.left)
  rw [show (1 : UInt32).toInt32 = 1 from rfl, hr] at h₃
  exact h₃.trans (computes_st hlen hst.left)

/-- The code of an expression leaves on the stack and in the memory what `exec` says. -/
lemma computes_code (e : IntExpr) (hseg : Seg text pc e.code) (hdepth : 5 * l.length ≤ pc) :
    Computes callee text pc l m (pc + e.code.length) ((e.exec m).1.toUInt32 :: l) (e.exec m).2 := by
  induction e generalizing pc l m with
  | var x =>
    rw [exec, toUInt32_toInt32]
    exact computes_ldValueCode hlen hdepth hseg
  | lit long n => exact computes_ldCode hlen hdepth hseg
  | bin op a b iha ihb =>
    have h₁ : Computes callee text pc l m _ _ _ := iha hseg.left hdepth
    have h₂ := h₁.trans (ihb hseg.right.left (depth_cons a.le_length_code hdepth))
    have h₃ := h₂.trans (computes_bin hlen op hseg.right.right)
    rw [toInt32_toUInt32, toInt32_toUInt32] at h₃
    simpa [code, exec, add_assoc] using h₃
  | neg a ih =>
    have h₁ : Computes callee text pc l m (pc + 5) (0 :: l) m := computes_ldCode hlen hdepth hseg.left
    have h₂ := h₁.trans (ih hseg.right.left (depth_cons le_rfl hdepth))
    have h₃ := h₂.trans (computes_bin hlen .sub hseg.right.right)
    rw [toInt32_toUInt32] at h₃
    have hpc : pc + (neg a).code.length = pc + 5 + a.code.length + 1 := by
      simp only [code, ldCode, codeDword, length_append, length_cons, length_nil]
      omega
    rwa [hpc]
  | compl a ih =>
    have h₁ : Computes callee text pc l m _ _ _ := ih hseg.left hdepth
    have h₂ := h₁.trans (computes_bitwise hlen hseg.right)
    rw [toInt32_toUInt32] at h₂
    simpa [code, exec, add_assoc] using h₂
  | assign x a ih =>
    have h₁ : Computes callee text pc l m (pc + 5) (x.address :: l) m :=
      computes_ldCode hlen hdepth hseg.left
    have h₂ := h₁.trans (ih hseg.right.left (depth_cons le_rfl hdepth))
    have h₃ := h₂.trans (computes_st hlen hseg.right.right.left)
    have h₄ := h₃.trans (computes_ldValueStack hlen hseg.right.right.right)
    rw [← IntVar.write, load_write] at h₄
    have hpc : pc + (assign x a).code.length = pc + 5 + a.code.length + 1 + 1 := by
      simp only [code, ldCode, codeDword, length_append, length_cons, length_nil]
      omega
    rwa [hpc]
  | pre step x =>
    have h₁ : Computes callee text pc l m (pc + 5) (x.address :: l) m :=
      computes_ldCode hlen hdepth hseg.left
    have h₂ := h₁.trans (computes_step hlen (depth_cons le_rfl hdepth) rfl hseg.right)
    rw [← IntVar.write] at h₂
    have hlast := hseg.right.right.right.right.right
    have h₃ := h₂.trans (computes_ldValueStack hlen hlast)
    rw [load_write] at h₃
    simpa [code, exec, IntVar.recorded, ldCode, ldValueCode, codeDword, add_assoc] using h₃
  | post step x =>
    -- the value stays on the stack, and the value in the record changes
    have h₁ : Computes callee text pc l m (pc + 5) (x.read m :: l) m :=
      computes_ldValueCode hlen hdepth hseg.left
    have hdepth' := depth_cons (y := x.read m) (n := 5) le_rfl hdepth
    have h₂ := h₁.trans (computes_ldCode hlen hdepth' hseg.right.left)
    have h₃ := h₂.trans (computes_step hlen (depth_cons le_rfl hdepth') rfl hseg.right.right)
    have h₄ := h₃.trans (computes_pop hlen hseg.right.right.right.right.right.right)
    rw [exec, toUInt32_toInt32]
    exact h₄

/-- The code of some statements leaves the value of the last one. -/
lemma computes_codeAll (e : IntExpr) (es : List IntExpr) (hseg : Seg text pc (codeAll e es)) :
    Computes callee text pc [] m (pc + (codeAll e es).length) [(execAll e es m).1.toUInt32]
      (execAll e es m).2 := by
  induction es generalizing e pc m with
  | nil => exact computes_code hlen e hseg (zero_le _)
  | cons e' es ih =>
    have h₁ : Computes callee text pc [] m (pc + e.code.length) _ _ :=
      computes_code hlen e hseg.left (zero_le _)
    have h₂ := h₁.trans (computes_pop hlen hseg.right.left)
    have h₃ := h₂.trans (ih e' hseg.right.right)
    have hpc : pc + (codeAll e (e' :: es)).length = pc + e.code.length + 1 + (codeAll e' es).length := by
      simp only [codeAll, length_append, length_cons, length_nil]
      omega
    rwa [hpc]

end

/-! ## Meaning in C -/

/-- The variables under `++` and `--` lie where the value of a finsh variable lies. -/
def Placed (e : IntExpr) : Prop := ∀ x ∈ e.stepped, x.address = x.symbol.value

/-- Where the value in C is defined, the code computes it. -/
lemma exec_of_placed (e : IntExpr) (hplaced : e.Placed) (heval : e.eval m = some (v, m')) :
    e.exec m = (v, m') := by
  induction e generalizing m m' v with
  | var x => exact some.inj heval
  | lit long n => exact some.inj heval
  | bin op a b iha ihb =>
    simp only [eval, bind_eq_bind, bind_eq_some_iff, Prod.exists] at heval
    obtain ⟨va, m₁, ha, vb, m₂, hb, r, hr, hret⟩ := heval
    have hb' := ihb (fun x hx => hplaced x (mem_append_right _ hx)) hb
    rw [exec, iha (fun x hx => hplaced x (mem_append_left _ hx)) ha, hb', BinOp.eval_eq hr]
    exact some.inj hret
  | neg a ih =>
    simp only [eval, bind_eq_bind, bind_eq_some_iff, Prod.exists] at heval
    obtain ⟨va, m₁, ha, r, hr, hret⟩ := heval
    have hsub : BinOp.sub.eval 0 va = r := by
      rw [← eq_of_inRange hr, ofInt_neg, ofInt_toInt]
      exact Int32.zero_sub va
    rw [exec, ih hplaced ha, hsub]
    exact some.inj hret
  | compl a ih =>
    simp only [eval, bind_eq_bind, bind_eq_some_iff, Prod.exists] at heval
    obtain ⟨va, m₁, ha, hret⟩ := heval
    rw [exec, ih hplaced ha]
    exact some.inj hret
  | assign x a ih =>
    simp only [eval, bind_eq_bind, bind_eq_some_iff, Prod.exists] at heval
    obtain ⟨va, m₁, ha, hret⟩ := heval
    rw [exec, ih hplaced ha]
    exact some.inj hret
  | pre step x =>
    simp only [eval, bind_eq_bind, bind_eq_some_iff] at heval
    obtain ⟨r, hr, hret⟩ := heval
    rw [IntVar.read, hplaced x (mem_singleton_self x)] at hr
    rw [exec, IntVar.recorded, BinOp.eval_eq hr]
    exact some.inj hret
  | post step x =>
    simp only [eval, bind_eq_bind, bind_eq_some_iff] at heval
    obtain ⟨r, hr, hret⟩ := heval
    have hx := hplaced x (mem_singleton_self x)
    rw [IntVar.write, hx] at hret
    rw [IntVar.read, hx] at hr
    rw [exec, IntVar.recorded, BinOp.eval_eq hr]
    exact some.inj hret

lemma execAll_of_placed (e : IntExpr) (es : List IntExpr) (hplaced : ∀ e' ∈ e :: es, e'.Placed)
    (heval : evalAll e es m = some (v, m')) : execAll e es m = (v, m') := by
  induction es generalizing e m with
  | nil => exact exec_of_placed e (hplaced e (mem_cons_self ..)) heval
  | cons e' es ih =>
    rw [evalAll, bind_eq_some_iff] at heval
    obtain ⟨⟨v₁, m₁⟩, he, hrest⟩ := heval
    rw [execAll, exec_of_placed e (hplaced e (mem_cons_self ..)) he]
    exact ih e' (fun e'' h => hplaced e'' (mem_cons_of_mem _ h)) hrest

end IntExpr

/-! ## Compiler -/

lemma finshVmRun_of_computes {callee : Callee} {code : List UInt8} {m m' : ByteMem.Mem}
    {l : List UInt32} (hfits : code.length ≤ finshTextMax)
    (h : ∀ text, text.length = finshTextMax → Seg text 0 code →
      Computes callee text 0 [] m code.length l m') (stack : ℕ → UInt32) :
    ∃ stack', StackHolds stack' l ∧
      finshVmRun callee (code ++ replicate (finshTextMax - code.length) 0) stack m =
        .ok ⟨finshTextMax, l.length, stack', m'⟩ := by
  have hlen : (code ++ replicate (finshTextMax - code.length) 0).length = finshTextMax := by
    rw [length_append, length_replicate, add_sub_of_le hfits]
  have hseg : Seg (code ++ replicate (finshTextMax - code.length) 0) 0
    (code ++ replicate (finshTextMax - code.length) 0) := prefix_rfl
  have hcode := (h _ hlen hseg.left).trans (computes_noops hlen (by simpa using hseg.right))
  rw [add_sub_of_le hfits] at hcode
  exact hcode.finshVmRun_eq stack

lemma finshCompilerRun_treeAll {e : IntExpr} {es : List IntExpr}
    (hfits : (codeAll e es).length ≤ finshTextMax) :
    finshCompilerRun (treeAll (e :: es)) = .ok (codeAll e es ++
      replicate (finshTextMax - (codeAll e es).length) 0, none) := by
  rw [finshCompilerRun, compilerCode_treeAll]
  exact if_pos hfits

/-- The compiler sets no error, and the machine leaves what `execAll` says. -/
lemma finshVmRun_treeAll {e : IntExpr} {es : List IntExpr}
    (hfits : (codeAll e es).length ≤ finshTextMax) (callee : Callee) (stack : ℕ → UInt32)
    (m : ByteMem.Mem) : ∃ text stack', finshCompilerRun (treeAll (e :: es)) = .ok (text, none) ∧
      stack' 0 = (execAll e es m).1.toUInt32 ∧
      finshVmRun callee text stack m = .ok ⟨finshTextMax, 1, stack', (execAll e es m).2⟩ := by
  have hcode (text : List UInt8) (hlen : text.length = finshTextMax)
      (hseg : Seg text 0 (codeAll e es)) :
      Computes callee text 0 [] m (codeAll e es).length [(execAll e es m).1.toUInt32]
        (execAll e es m).2 := by
    simpa using computes_codeAll hlen e es hseg
  obtain ⟨stack', hstack', hrun⟩ := finshVmRun_of_computes hfits hcode stack
  exact ⟨_, stack', finshCompilerRun_treeAll hfits, hstack'.1, hrun⟩

/-- Where the value in C is defined, `execAll` gives the same value and leaves the same variables. -/
def SameInC (e : IntExpr) (es : List IntExpr) : Prop :=
  ∀ m v m', evalAll e es m = some (v, m') →
    (execAll e es m).1 = v ∧ ∀ x : IntVar, x.read (execAll e es m).2 = x.read m'

/-- For statements whose code fits the text segment, compiler and machine are right just if the code
has the meaning in C with the values of the records under `++` and `--`. They are right if each
variable under `++` or `--` lies where the value of a finsh variable lies in its record. -/
theorem compilerOk_iff (e : IntExpr) (es : List IntExpr)
    (hfits : (compilerCode (treeAll (e :: es))).1.length ≤ finshTextMax) :
    (CompilerOk e es ↔ SameInC e es) ∧ ((∀ e' ∈ e :: es, e'.Placed) → CompilerOk e es) := by
  have hlen : (codeAll e es).length ≤ finshTextMax := by rwa [compilerCode_treeAll] at hfits
  have hsame : SameInC e es → CompilerOk e es := by
    intro h callee stack m m' v _ heval
    obtain ⟨hv, hread⟩ := h m v m' heval
    obtain ⟨text, stack', hcomp, htop, hrun⟩ := finshVmRun_treeAll hlen callee stack m
    exact ⟨text, _, hcomp, hrun, rfl, hv ▸ htop, hread⟩
  refine ⟨⟨fun h m v m' heval => ?_, hsame⟩, fun hplaced => hsame fun m v m' heval => ?_⟩
  · -- the run that the compiler is right about is the one that `execAll` describes
    obtain ⟨text, s, hcomp, hrun, -, hv, hread⟩ :=
      h (fun _ _ m => (0, m)) (fun _ => 0) m m' v hfits heval
    obtain ⟨text', stack', hcomp', htop, hrun'⟩ :=
      finshVmRun_treeAll hlen (fun _ _ m => (0, m)) (fun _ => 0) m
    obtain ⟨rfl, -⟩ := Prod.mk.inj (Except.ok.inj (hcomp.symm.trans hcomp'))
    obtain rfl := Except.ok.inj (hrun.symm.trans hrun')
    have hvalue := congrArg UInt32.toInt32 (htop.symm.trans hv)
    rw [toInt32_toUInt32, toInt32_toUInt32] at hvalue
    exact ⟨hvalue, hread⟩
  · rw [execAll_of_placed e es hplaced heval]
    exact ⟨rfl, fun _ => rfl⟩

/-- A system variable of type `int`. -/
def sysvarInt : IntVar := .sysvar 0x08001000 false 0x20000000

/-- A system variable is assigned and read, and a finsh variable is incremented. -/
theorem compilerOk_sysvar_assign : CompilerOk (.assign sysvarInt (.lit false 5))
    [.neg (.var sysvarInt), .post .inc (.var 0x20000100 false)] := by
  refine (compilerOk_iff _ _ (by rw [compilerCode_treeAll]; decide)).2 fun e' he' => ?_
  simp only [mem_cons, not_mem_nil, or_false] at he'
  rcases he' with rfl | rfl | rfl
  · exact fun x hx => by cases hx
  · exact fun x hx => by cases hx
  · intro x hx
    rw [mem_singleton.mp hx]
    rfl

/-- The statement `s++` in a memory of zeros leaves the system variable `s` unchanged. -/
theorem not_compilerOk_sysvar : ¬ CompilerOk (.post .inc sysvarInt) [] := by
  intro h
  obtain ⟨text, s, hcomp, hrun, -, -, hread⟩ := h (fun _ _ m => (0, m)) (fun _ => 0) (fun _ => 0)
    (sysvarInt.write (fun _ => 0) 1) 0 (by decide) rfl
  have hlen : (codeAll (.post .inc sysvarInt) []).length ≤ finshTextMax := by decide
  obtain ⟨text', stack', hcomp', -, hrun'⟩ :=
    finshVmRun_treeAll hlen (fun _ _ m => (0, m)) (fun _ => 0) fun _ => 0
  obtain ⟨rfl, -⟩ := Prod.mk.inj (Except.ok.inj (hcomp.symm.trans hcomp'))
  obtain rfl := Except.ok.inj (hrun.symm.trans hrun')
  have hzero : sysvarInt.read (execAll (.post .inc sysvarInt) [] fun _ => 0).2 = 0 := by decide
  have hone : sysvarInt.read (sysvarInt.write (fun _ => 0) 1) = 1 := by decide
  exact absurd (hzero.symm.trans ((hread sysvarInt).trans hone)) (by decide)

end Finsh
