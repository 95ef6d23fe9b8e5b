import TempSns.Finsh.Compiler

/-!
# Runs of the virtual machine

The operations on 32-bit cells, said over a stack that is a list with its top first. `Seg text pc seg`
says that a piece of code is at `pc` in the text segment, and `Computes` that the machine goes from one
program counter, stack and memory to another. Every operation has one rule for `Computes`.
-/

namespace Finsh

open List Nat Function

variable {callee : Callee} {text : List UInt8} {stack : ℕ → UInt32} {s s' : List UInt8}
  {seg : List UInt8} {m' : ByteMem.Mem} {op : Op}

/-! ## Code in the text segment -/

def Seg (text : List UInt8) (pc : ℕ) (seg : List UInt8) : Prop := seg <+: text.drop pc

lemma Seg.left {pc : ℕ} (h : Seg text pc (s ++ s')) : Seg text pc s :=
  (prefix_append s s').trans h

lemma Seg.right {pc : ℕ} (h : Seg text pc (s ++ s')) : Seg text (pc + s.length) s' := by
  obtain ⟨rest, hrest⟩ := h
  refine ⟨rest, ?_⟩
  rw [← drop_drop, ← hrest, append_assoc, drop_left]

lemma Seg.getElem? {pc : ℕ} {b : UInt8} {s : List UInt8} (h : Seg text pc (b :: s)) :
    text[pc]? = some b := by
  obtain ⟨rest, hrest⟩ := h
  have hhead : (text.drop pc)[0]? = some b := by rw [← hrest]; rfl
  rwa [getElem?_drop, add_zero] at hhead

lemma Seg.tail {pc : ℕ} {b : UInt8} {s : List UInt8} (h : Seg text pc (b :: s)) :
    Seg text (pc + 1) s := Seg.right (s := [b]) h

lemma Seg.le_length {pc : ℕ} {s : List UInt8} (h : Seg text pc s) (hs : s ≠ []) :
    pc + s.length ≤ text.length := by
  have hle := h.length_le
  have hpos := length_pos_iff.mpr hs
  rw [length_drop] at hle
  omega

lemma operand_codeDword {pc : ℕ} {x : UInt32} (h : Seg text pc (codeDword x)) :
    operand text pc 4 = .ok x.toNat := by
  have h1 := h.tail
  have h2 := h1.tail
  have h3 := h2.tail
  have hx := x.toNat_lt
  simp only [operand, h.getElem?, h1.getElem?, h2.getElem?, h3.getElem?, Except.map,
    UInt32.toNat_toUInt8, UInt32.toNat_shiftRight, shiftRight_eq_div_pow, Except.ok.injEq]
  simp only [UInt32.reduceToNat, reduceMod, reducePow]
  omega

/-! ## Executions -/

lemma vmLoop_done {s : Vm} (h : finshTextMax ≤ s.pc) {fuel : ℕ} :
    vmLoop callee text fuel s = .ok s := by
  cases fuel with
  | zero => rw [vmLoop, if_neg (not_lt.mpr h)]
  | succ fuel => rw [vmLoop, if_neg (not_lt.mpr h)]

/-- The loop of `finsh_vm_run` gets from `s` to `s'`, with at least one byte of code for each round. -/
def Executes (callee : Callee) (text : List UInt8) (s s' : Vm) : Prop :=
  ∃ k, k + s.pc ≤ s'.pc ∧ ∀ fuel, vmLoop callee text (k + fuel) s = vmLoop callee text fuel s'

lemma Executes.refl (s : Vm) : Executes callee text s s := ⟨0, by omega, fun _ => by rw [zero_add]⟩

lemma Executes.trans {s s' s'' : Vm} (h : Executes callee text s s')
    (h' : Executes callee text s' s'') : Executes callee text s s'' := by
  obtain ⟨k, hk, heq⟩ := h
  obtain ⟨k', hk', heq'⟩ := h'
  refine ⟨k + k', by omega, fun fuel => ?_⟩
  rw [add_assoc, heq, heq']

lemma Executes.of_runOp (hlen : text.length = finshTextMax) {s s' : Vm}
    (hseg : Seg text s.pc (op.code :: seg)) (hpc : s.pc < s'.pc)
    (hrun : runOp callee text { s with pc := s.pc + 1 } op = .ok s') : Executes callee text s s' := by
  have hlt := hseg.le_length (cons_ne_nil _ _)
  rw [hlen, length_cons] at hlt
  refine ⟨1, by omega, fun fuel => ?_⟩
  have hstep : vmStep callee text s = .ok s' := by
    simp only [vmStep, hseg.getElem?, opTable_code, hrun]
  rw [add_comm, vmLoop, if_pos (by omega), hstep]
  rfl

/-! ## Stack as a list -/

/-- The cells below the stack pointer hold `l`, whose head is on top. -/
def StackHolds (stack : ℕ → UInt32) : List UInt32 → Prop
  | [] => True
  | x :: l => stack l.length = x ∧ StackHolds stack l

lemma StackHolds.update {l : List UInt32} (h : StackHolds stack l) {i : ℕ}
    (hi : l.length ≤ i) (x : UInt32) : StackHolds (update stack i x) l := by
  induction l with
  | nil => trivial
  | cons y l ih =>
    rw [length_cons] at hi
    refine ⟨?_, ih h.2 (by omega)⟩
    rw [update_of_ne (by omega)]
    exact h.1

lemma StackHolds.push {l : List UInt32} (h : StackHolds stack l) (x : UInt32) :
    StackHolds (Function.update stack l.length x) (x :: l) :=
  ⟨update_self .., h.update le_rfl x⟩

/-- With the stack `l` and the memory `m`, the machine gets from `pc` to `pc'`, with the stack `l'` and
the memory `m'`. -/
def Computes (callee : Callee) (text : List UInt8) (pc : ℕ) (l : List UInt32) (m : ByteMem.Mem) (pc' : ℕ)
    (l' : List UInt32) (m' : ByteMem.Mem) : Prop :=
  ∀ stack, StackHolds stack l → ∃ stack', StackHolds stack' l' ∧
    Executes callee text ⟨pc, l.length, stack, m⟩ ⟨pc', l'.length, stack', m'⟩

lemma Computes.trans {pc pc' pc'' : ℕ} {l l' l'' : List UInt32} {m m' m'' : ByteMem.Mem}
    (h : Computes callee text pc l m pc' l' m') (h' : Computes callee text pc' l' m' pc'' l'' m'') :
    Computes callee text pc l m pc'' l'' m'' := by
  intro stack hstack
  obtain ⟨stack', hstack', hexec⟩ := h stack hstack
  obtain ⟨stack'', hstack'', hexec'⟩ := h' stack' hstack'
  exact ⟨stack'', hstack'', hexec.trans hexec'⟩

section Rules

variable {pc : ℕ} {l : List UInt32} {m : ByteMem.Mem} {x y : UInt32}

section

variable (hlen : text.length = finshTextMax)

include hlen

/-- The rule for an operation, from what it does to a stack that is an array. -/
lemma Computes.of_runOp
    (hseg : Seg text pc (op.code :: seg)) {pc' : ℕ} (hpc : pc < pc') {l' : List UInt32}
    (hrun : ∀ stack, StackHolds stack l → ∃ stack', StackHolds stack' l' ∧
      runOp callee text ⟨pc + 1, l.length, stack, m⟩ op = .ok ⟨pc', l'.length, stack', m'⟩) :
    Computes callee text pc l m pc' l' m' := by
  intro stack hstack
  obtain ⟨stack', hstack', hok⟩ := hrun stack hstack
  exact ⟨stack', hstack', .of_runOp hlen hseg hpc hok⟩

lemma computes_ld (hl : l.length < finshStackMax)
    (hseg : Seg text pc ((Op.ld .dword).code :: codeDword x)) :
    Computes callee text pc l m (pc + 5) (x :: l) m := by
  refine .of_runOp hlen hseg (by omega) fun stack hstack => ⟨_, hstack.push x, ?_⟩
  simp only [runOp, Width.size, operand_codeDword hseg.tail, ok_bind, Vm.push, if_pos hl, Width.assign,
    UInt32.ofNat_toNat]
  rfl

lemma computes_ldValue (hl : l.length < finshStackMax)
    (hseg : Seg text pc ((Op.ldValue .dword).code :: codeDword x)) :
    Computes callee text pc l m (pc + 5) (.ofNat (ByteMem.load m x.toNat 4) :: l) m := by
  refine .of_runOp hlen hseg (by omega) fun stack hstack => ⟨_, hstack.push _, ?_⟩
  simp only [runOp, Width.size, operand_codeDword hseg.tail, ok_bind, Vm.push, if_pos hl, Width.assign]
  rfl

lemma computes_bin (op : BinOp) (hseg : Seg text pc [(Op.bin op .dword).code]) :
    Computes callee text pc (y :: x :: l) m (pc + 1)
      ((op.eval x.toInt32 y.toInt32).toUInt32 :: l) m := by
  refine .of_runOp hlen hseg (by omega) fun stack hstack => ⟨_, hstack.2.2.push _, ?_⟩
  obtain ⟨hy, hx, -⟩ := hstack
  rw [length_cons] at hy
  simp [runOp, Width.value, Width.assign, hx, hy]

lemma computes_bitwise (hseg : Seg text pc [(Op.bitwise .dword).code]) :
    Computes callee text pc (x :: l) m (pc + 1) ((~~~ x.toInt32).toUInt32 :: l) m := by
  refine .of_runOp hlen hseg (by omega) fun stack hstack => ⟨_, hstack.2.push _, ?_⟩
  simp [runOp, Width.value, Width.assign, hstack.1]

lemma computes_ldValueStack (hseg : Seg text pc [(Op.ldValueStack .dword).code]) :
    Computes callee text pc (x :: l) m (pc + 1) (.ofNat (ByteMem.load m x.toNat 4) :: l) m := by
  refine .of_runOp hlen hseg (by omega) fun stack hstack => ⟨_, hstack.2.push _, ?_⟩
  simp [runOp, Width.size, Width.assign, hstack.1]

lemma computes_st (hseg : Seg text pc [(Op.st .dword).code]) :
    Computes callee text pc (y :: x :: l) m (pc + 1) (x :: l)
      (ByteMem.store m x.toNat 4 y.toNat) := by
  refine .of_runOp hlen hseg (by omega) fun stack hstack => ⟨stack, hstack.2, ?_⟩
  obtain ⟨hy, hx, -⟩ := hstack
  rw [length_cons] at hy
  simp [runOp, Width.size, hx, hy]

lemma computes_pop (hseg : Seg text pc [Op.pop.code]) :
    Computes callee text pc (x :: l) m (pc + 1) l m := by
  refine .of_runOp hlen hseg (by omega) fun stack hstack => ⟨stack, hstack.2, ?_⟩
  simp [runOp]

/-- The rest of the text segment is zero and does nothing. -/
lemma computes_noops {n : ℕ}
    (hseg : Seg text pc (replicate n 0)) : Computes callee text pc l m (pc + n) l m := by
  induction n generalizing pc with
  | zero => exact fun stack hstack => ⟨stack, hstack, .refl _⟩
  | succ n ih =>
    rw [replicate_succ] at hseg
    have hop : Seg text pc (Op.noop.code :: replicate n 0) := hseg
    have hstep : Computes callee text pc l m (pc + 1) l m :=
      .of_runOp hlen hop (by omega) fun stack hstack => ⟨stack, hstack, rfl⟩
    have hrest := hstep.trans (ih hseg.tail)
    rwa [add_assoc, add_comm 1] at hrest

end

lemma Computes.finshVmRun_eq (h : Computes callee text 0 [] m finshTextMax l m')
    (stack : ℕ → UInt32) :
    ∃ stack', StackHolds stack' l ∧
      finshVmRun callee text stack m = .ok ⟨finshTextMax, l.length, stack', m'⟩ := by
  obtain ⟨stack', hstack', k, hk, heq⟩ := h stack trivial
  refine ⟨stack', hstack', ?_⟩
  have hsplit : finshTextMax = k + (finshTextMax - k) := (add_sub_of_le hk).symm
  calc finshVmRun callee text stack m
      = vmLoop callee text (k + (finshTextMax - k)) ⟨0, 0, stack, m⟩ := by rw [← hsplit]; rfl
    _ = vmLoop callee text (finshTextMax - k) ⟨finshTextMax, l.length, stack', m'⟩ := heq _
    _ = .ok ⟨finshTextMax, l.length, stack', m'⟩ := vmLoop_done le_rfl

end Rules

end Finsh
