import Rv32Core.Decode
import Rv32Core.Exec.Shifter

/-! # The two integer ports

The combinational datapaths of `exec`: port 1 steers one 32-bit and one 64-bit carry-save adder
for sums, differences and comparisons; port 2 has an adder and compares with operators.  A port
turns a uop and its two source values into the signals of `Alu`.  `Uop.eval` says what the
operations shared by both ports compute, and each port is proved to compute that. -/

namespace Rv32Core

/-- What an integer port computes in the cycle in which a uop starts: `t_result`, `t_pc`,
`t_take_br`, `t_mispred_br`, `t_alu_valid`, `t_wr_int_prf` and, on port 1, `t_unimp_op`. -/
structure Alu where
  result : Word
  pc : Word
  takeBr : Bool
  mispredBr : Bool
  aluValid : Bool
  wrIntPrf : Bool
  unimpOp : Bool
deriving DecidableEq, Repr

/-- The counters the ports can read: `r_cycle`, `r_retired_insns`, `r_branches` and
`r_branch_faults`. -/
structure Counters where
  cycle : BitVec 64
  retiredInsns : BitVec 64
  branches : BitVec 64
  branchFaults : BitVec 64

/-! ### Building blocks -/

/-- `ppa32` and `ppa64`: both are plain sums in the configuration of `machine.vh`. -/
def ppa {w : ℕ} (a b : BitVec w) : BitVec w := a + b

/-- A carry-save adder and the adder behind it. -/
def csaSum3 {w : ℕ} (a b cin : BitVec w) : BitVec w :=
  ppa (Bits.csaCarry a b cin <<< 1) (Bits.csaSum a b cin)

@[simp] theorem csaSum3_eq {w : ℕ} (a b cin : BitVec w) : csaSum3 a b cin = a + b + cin :=
  Bits.csa_add a b cin

/-- `shift_right`, a funnel shifter. -/
def shiftRight (isLeft isSigned : Bool) (data : Word) (distance : BitVec 5) : Word :=
  let sb := if isSigned then data.msb else false
  let wData : BitVec 64 :=
    if isLeft then data ++ 0#32 else (if sb then BitVec.allOnes 32 else 0#32) ++ data
  let wDistance : BitVec 6 :=
    if isLeft then 32 - distance.setWidth 6 else distance.setWidth 6
  (wData >>> wDistance.toNat).setWidth 32

/-- `{31'd0, b}`. -/
def bit (b : Bool) : Word := if b then 1 else 0

/-- The prediction carried by an indirect jump, `{jmp_imm, imm}`. -/
def Uop.predicted (u : Uop) : Word := u.jmpImm ++ u.imm

/-- Nothing computed: the defaults of both `always_comb` blocks. -/
def Alu.default (u : Uop) : Alu := ⟨0, u.pc, false, false, false, false, false⟩

/-- A value for the destination register. -/
def Alu.value (u : Uop) (v : Word) : Alu :=
  { Alu.default u with result := v, wrIntPrf := true, aluValid := true }

/-- A conditional branch, taken or not. -/
def Alu.branch (u : Uop) (take : Bool) : Alu :=
  { Alu.default u with
    takeBr := take
    mispredBr := u.brPred != take
    pc := if take then u.rvimm else ppa u.pc 4
    aluValid := true }

/-- A jump to `target`, writing the link when `link` is set. -/
def Alu.jump (u : Uop) (target : Word) (mispred link : Bool) : Alu :=
  { Alu.default u with
    takeBr := true
    mispredBr := mispred
    pc := target
    aluValid := true
    result := if link then ppa u.pc 4 else 0
    wrIntPrf := link }

variable (c : Counters) (u : Uop) (srcA srcB : Word)

/-! ### Port 1 -/

namespace Port1

/-- `t_sub`. -/
def tSub : Opcode → Bool
  | .subu | .bge | .blt | .slt => true
  | _ => false

/-- `w_add32`. -/
def wAdd32 : Word :=
  let tSlti := u.op == .slti
  let tAddi := u.op == .addi
  csaSum3 srcA
    (if tSlti then ~~~u.rvimm else if tAddi then u.rvimm
      else if tSub u.op then ~~~srcB else srcB)
    (if tSub u.op || tSlti then 1 else 0)

/-- `w_add64`. -/
def wAdd64 : BitVec 64 :=
  let tSltiu := u.op == .sltiu
  csaSum3 (srcA.setWidth 64) (~~~((if tSltiu then u.rvimm else srcB).setWidth 64)) 1

/-- `w_AltB`. -/
def wAltB : Bool :=
  if srcA.msb && !srcB.msb then true else if !srcA.msb && srcB.msb then false
  else (wAdd32 u srcA srcB).msb

/-- `w_AltB_slti`. -/
def wAltBSlti : Bool :=
  if srcA.msb && !u.rvimm.msb then true else if !srcA.msb && u.rvimm.msb then false
  else (wAdd32 u srcA srcB).msb

/-- `w_indirect_target`. -/
def wIndirectTarget : Word := ppa srcA u.rvimm

/-- `w_mispredicted_indirect`. -/
def wMispredictedIndirect : Bool := wIndirectTarget u srcA != u.predicted

/-- The `always_comb` block of port 1.  Multiplications and divisions are started elsewhere and
compute nothing here. -/
def alu : Alu :=
  let counter (v : Word) : Alu := { Alu.value u v with pc := ppa u.pc 4 }
  match u.op with
  | .div | .divu | .rem | .remu | .mul | .mulh | .mulhu => Alu.default u
  | .addi | .addu | .subu => Alu.value u (wAdd32 u srcA srcB)
  | .rdcycle => Alu.value u (c.cycle.extractLsb' 0 32)
  | .rdcycleh => Alu.value u (c.cycle.extractLsb' 32 32)
  | .rdinstret => counter (c.retiredInsns.extractLsb' 0 32)
  | .rdinstreth => counter (c.retiredInsns.extractLsb' 32 32)
  | .rdbranch => counter (c.branches.extractLsb' 0 32)
  | .rdfaultedbranch => counter (c.branchFaults.extractLsb' 0 32)
  | .and => Alu.value u (srcA &&& srcB)
  | .andi => Alu.value u (srcA &&& u.rvimm)
  | .auipc => Alu.value u u.rvimm
  | .beq => Alu.branch u (srcA == srcB)
  | .bge => Alu.branch u
      (if !srcA.msb && srcB.msb then true else if srcA.msb && !srcB.msb then false
        else (wAdd32 u srcA srcB).msb == false)
  | .bgeu => Alu.branch u (!(wAdd64 u srcA srcB).getLsbD 32)
  | .blt => Alu.branch u (wAltB u srcA srcB)
  | .bltu => Alu.branch u ((wAdd64 u srcA srcB).getLsbD 32)
  | .bne => Alu.branch u (!(srcA == srcB))
  | .jal => Alu.jump u u.rvimm (u.brPred != true) true
  | .jalr => Alu.jump u (wIndirectTarget u srcA) (wMispredictedIndirect u srcA) true
  | .jr | .ret => Alu.jump u (wIndirectTarget u srcA) (wMispredictedIndirect u srcA) false
  | .lui => Alu.value u u.rvimm
  | .or => Alu.value u (srcA ||| srcB)
  | .ori => Alu.value u (srcA ||| u.rvimm)
  | .sll => Alu.value u (shiftRight true false srcA (srcB.extractLsb' 0 5))
  | .slli => Alu.value u (shiftRight true false srcA (u.rvimm.extractLsb' 0 5))
  | .slt => Alu.value u (bit (wAltB u srcA srcB))
  | .sltu => Alu.value u (bit ((wAdd64 u srcA srcB).getLsbD 32))
  | .slti => Alu.value u (bit (wAltBSlti u srcA srcB))
  | .sltiu => Alu.value u (bit ((wAdd64 u srcA srcB).getLsbD 32))
  | .srai => Alu.value u (shiftRight false true srcA (u.rvimm.extractLsb' 0 5))
  | .sra => Alu.value u (shiftRight false true srcA (srcB.extractLsb' 0 5))
  | .srl => Alu.value u (shiftRight false false srcA (srcB.extractLsb' 0 5))
  | .srli => Alu.value u (shiftRight false false srcA (u.rvimm.extractLsb' 0 5))
  | .xori => Alu.value u (srcA ^^^ u.rvimm)
  | .xor => Alu.value u (srcA ^^^ srcB)
  | _ => { Alu.default u with unimpOp := true, aluValid := true }

end Port1

/-! ### Port 2 -/

namespace Port2

/-- `w_add32_2`. -/
def wAdd32 : Word :=
  let tSub := u.op == .subu
  let tAddi := u.op == .addi
  csaSum3 srcA (if tAddi then u.rvimm else if tSub then ~~~srcB else srcB) (if tSub then 1 else 0)

/-- `w_indirect_target2`. -/
def wIndirectTarget : Word := ppa srcA u.rvimm

/-- `w_mispredicted_indirect2`. -/
def wMispredictedIndirect : Bool := wIndirectTarget u srcA != u.predicted

/-- The `always_comb` block of port 2. -/
def alu : Alu :=
  match u.op with
  | .bne => Alu.branch u (srcA != srcB)
  | .beq => Alu.branch u (srcA == srcB)
  | .blt => Alu.branch u (srcA.slt srcB)
  | .bge => Alu.branch u (srcB.sle srcA)
  | .bltu => Alu.branch u (srcA.ult srcB)
  | .bgeu => Alu.branch u (srcB.ule srcA)
  | .jal => Alu.jump u u.rvimm (u.brPred != true) true
  | .jalr => Alu.jump u (wIndirectTarget u srcA) (wMispredictedIndirect u srcA) true
  | .jr | .ret => Alu.jump u (wIndirectTarget u srcA) (wMispredictedIndirect u srcA) false
  | .addi | .addu | .subu => Alu.value u (wAdd32 u srcA srcB)
  | .rdcycle => Alu.value u (c.cycle.extractLsb' 0 32)
  | .rdcycleh => Alu.value u (c.cycle.extractLsb' 32 32)
  | .slt => Alu.value u (bit (srcA.slt srcB))
  | .sltu => Alu.value u (bit (srcA.ult srcB))
  | .slti => Alu.value u (bit (srcA.slt u.rvimm))
  | .sltiu => Alu.value u (bit (srcA.ult u.rvimm))
  | .andi => Alu.value u (u.rvimm &&& srcA)
  | .ori => Alu.value u (u.rvimm ||| srcA)
  | .xori => Alu.value u (u.rvimm ^^^ srcA)
  | .and => Alu.value u (srcA &&& srcB)
  | .or => Alu.value u (srcA ||| srcB)
  | .xor => Alu.value u (srcA ^^^ srcB)
  | .srl => Alu.value u (shiftRight false false srcA (srcB.extractLsb' 0 5))
  | .srli => Alu.value u (shiftRight false false srcA (u.rvimm.extractLsb' 0 5))
  | .sra => Alu.value u (shiftRight false true srcA (srcB.extractLsb' 0 5))
  | .srai => Alu.value u (shiftRight false true srcA (u.rvimm.extractLsb' 0 5))
  | .sll => Alu.value u (shiftRight true false srcA (srcB.extractLsb' 0 5))
  | .slli => Alu.value u (shiftRight true false srcA (u.rvimm.extractLsb' 0 5))
  | .auipc | .lui => Alu.value u u.rvimm
  | _ => Alu.default u

end Port2

/-! ### What the operations mean -/

/-- The condition of a branch. -/
def taken : Opcode → Word → Word → Bool
  | .beq, a, b => a == b
  | .bne, a, b => a != b
  | .blt, a, b => a.slt b
  | .bge, a, b => !a.slt b
  | .bltu, a, b => a.ult b
  | .bgeu, a, b => !a.ult b
  | _, _, _ => false

/-- The operations that compute a value from the sources and the immediate. -/
def IsArith : Opcode → Bool
  | .addi | .slti | .sltiu | .andi | .ori | .xori | .slli | .srli | .srai
  | .addu | .subu | .slt | .sltu | .and | .or | .xor | .sll | .srl | .sra
  | .lui | .auipc => true
  | _ => false

/-- The value of an arithmetic operation with immediate `imm`. -/
def arith (op : Opcode) (imm a b : Word) : Word :=
  match op with
  | .addi => a + imm
  | .slti => bit (a.slt imm)
  | .sltiu => bit (a.ult imm)
  | .andi => a &&& imm
  | .ori => a ||| imm
  | .xori => a ^^^ imm
  | .slli => a <<< (imm.extractLsb' 0 5).toNat
  | .srli => a >>> (imm.extractLsb' 0 5).toNat
  | .srai => a.sshiftRight (imm.extractLsb' 0 5).toNat
  | .addu => a + b
  | .subu => a - b
  | .slt => bit (a.slt b)
  | .sltu => bit (a.ult b)
  | .and => a &&& b
  | .or => a ||| b
  | .xor => a ^^^ b
  | .sll => a <<< (b.extractLsb' 0 5).toNat
  | .srl => a >>> (b.extractLsb' 0 5).toNat
  | .sra => a.sshiftRight (b.extractLsb' 0 5).toNat
  | _ => imm

/-- The operations both ports execute. -/
def OnBothPorts : Opcode → Bool
  | .rdcycle | .rdcycleh | .beq | .bne | .blt | .bge | .bltu | .bgeu
  | .jal | .jalr | .jr | .ret => true
  | op => IsArith op

/-- What a uop that both ports execute computes. -/
def Uop.eval : Alu :=
  match u.op with
  | .rdcycle => Alu.value u (c.cycle.extractLsb' 0 32)
  | .rdcycleh => Alu.value u (c.cycle.extractLsb' 32 32)
  | .beq | .bne | .blt | .bge | .bltu | .bgeu => Alu.branch u (taken u.op srcA srcB)
  | .jal => Alu.jump u u.rvimm (u.brPred != true) true
  | .jalr => Alu.jump u (srcA + u.rvimm) (srcA + u.rvimm != u.predicted) true
  | .jr | .ret => Alu.jump u (srcA + u.rvimm) (srcA + u.rvimm != u.predicted) false
  | _ => Alu.value u (arith u.op u.rvimm srcA srcB)

/-! ### The ports compute it -/

/-- `s0` and `s1` are the funnel shifter with `LG_W` 5. -/
theorem shiftRight_eq_instance (isLeft isSigned : Bool) (x : Word) (d : BitVec 5) :
    shiftRight isLeft isSigned x d = Shifter.shiftRight 5 isLeft isSigned x d := by
  cases isLeft with
  | false => rfl
  | true => rfl

theorem shiftRight_left (x : Word) (d : BitVec 5) : shiftRight true false x d = x <<< d.toNat :=
  (shiftRight_eq_instance true false x d).trans (@Shifter.shiftRight_left 5 false x d)

theorem shiftRight_right (x : Word) (s : Bool) (d : BitVec 5) : shiftRight false s x d =
    if s then x.sshiftRight d.toNat else x >>> d.toNat :=
  (shiftRight_eq_instance false s x d).trans (@Shifter.shiftRight_right 5 s x d)

namespace Port1

theorem wAdd64_borrow : (wAdd64 u srcA srcB).getLsbD 32 =
    srcA.ult (if u.op == .sltiu then u.rvimm else srcB) := by
  rw [wAdd64, csaSum3_eq]
  show (_ + _ + 1#64).getLsbD 32 = _
  rw [Bits.add_not_add_one, Bits.getLsbD_sub_setWidth (by omega)]

theorem wAdd32_eq : wAdd32 u srcA srcB =
    if u.op == .slti then srcA - u.rvimm else if u.op == .addi then srcA + u.rvimm
    else if tSub u.op then srcA - srcB else srcA + srcB := by
  rw [wAdd32, csaSum3_eq]
  cases hi : u.op == .slti
  · cases ha : u.op == .addi
    · cases hs : tSub u.op
      · exact BitVec.add_zero _
      · exact Bits.add_not_add_one srcA srcB
    · have : tSub u.op = false := by rw [beq_iff_eq.mp ha]; rfl
      rw [this]
      exact BitVec.add_zero _
  · exact (congrArg _ (if_pos (by simp))).trans (Bits.add_not_add_one srcA u.rvimm)

theorem wAltB_eq (h : u.op = .blt ∨ u.op = .slt) : wAltB u srcA srcB = srcA.slt srcB := by
  rw [wAltB, wAdd32_eq, Bits.slt_eq_sub_msb]
  rcases h with h | h <;> rw [h] <;> rfl

theorem wAltBSlti_eq (h : u.op = .slti) : wAltBSlti u srcA srcB = srcA.slt u.rvimm := by
  rw [wAltBSlti, wAdd32_eq, Bits.slt_eq_sub_msb, h]
  rfl

theorem bge_eq (h : u.op = .bge) :
    (if !srcA.msb && srcB.msb then true else if srcA.msb && !srcB.msb then false
      else (wAdd32 u srcA srcB).msb == false) = !srcA.slt srcB := by
  have hd : wAdd32 u srcA srcB = srcA - srcB := by
    rw [wAdd32_eq, h]
    rfl
  rw [hd, Bits.slt_eq_sub_msb]
  cases srcA.msb <;> cases srcB.msb <;> cases (srcA - srcB).msb <;> rfl

/-- **Port 1 computes what the operations mean.** -/
theorem alu_eq_eval (h : OnBothPorts u.op = true) : alu c u srcA srcB = u.eval c srcA srcB := by
  cases ho : u.op with
  | addi | addu | subu => simp [alu, Uop.eval, arith, ho, wAdd32_eq, tSub]
  | slt => simp only [alu, Uop.eval, arith, ho, wAltB_eq u srcA srcB (.inr ho)]
  | slti => simp only [alu, Uop.eval, arith, ho, wAltBSlti_eq u srcA srcB ho]
  | sltu | sltiu =>
      simp only [alu, Uop.eval, arith, ho, wAdd64_borrow]
      rfl
  | blt => simp only [alu, Uop.eval, taken, ho, wAltB_eq u srcA srcB (.inl ho)]
  | bge => simp only [alu, Uop.eval, taken, ho, bge_eq u srcA srcB ho]
  | bltu | bgeu =>
      simp only [alu, Uop.eval, taken, ho, wAdd64_borrow]
      rfl
  | sll | slli => simp only [alu, Uop.eval, arith, ho, shiftRight_left]
  | srl | srli | sra | srai =>
      simp only [alu, Uop.eval, arith, ho, shiftRight_right, if_true, Bool.false_eq_true, if_false]
  | rdcycle | rdcycleh | and | andi | or | ori | xor | xori | lui | auipc | beq | bne | jal | jalr
  | jr | ret =>
      simp only [alu, Uop.eval, arith, taken, ho, wIndirectTarget, wMispredictedIndirect, ppa, bne]
  | _ =>
      rw [ho] at h
      cases h

end Port1

namespace Port2

theorem wAdd32_eq : wAdd32 u srcA srcB =
    if u.op == .addi then srcA + u.rvimm else if u.op == .subu then srcA - srcB
    else srcA + srcB := by
  rw [wAdd32, csaSum3_eq]
  cases ha : u.op == .addi
  · cases hs : u.op == .subu
    · exact BitVec.add_zero _
    · exact Bits.add_not_add_one srcA srcB
  · have : (u.op == .subu) = false := by rw [beq_iff_eq.mp ha]; rfl
    rw [this]
    exact BitVec.add_zero _

/-- **Port 2 computes what the operations mean.** -/
theorem alu_eq_eval (h : OnBothPorts u.op = true) : alu c u srcA srcB = u.eval c srcA srcB := by
  cases ho : u.op with
  | addi | addu | subu => simp [alu, Uop.eval, arith, ho, wAdd32_eq]
  | bge => simp only [alu, Uop.eval, taken, ho, BitVec.sle_eq_not_slt]
  | bgeu => simp only [alu, Uop.eval, taken, ho, BitVec.ule_eq_not_ult]
  | sll | slli => simp only [alu, Uop.eval, arith, ho, shiftRight_left]
  | srl | srli | sra | srai =>
      simp only [alu, Uop.eval, arith, ho, shiftRight_right, if_true, Bool.false_eq_true, if_false]
  | andi | ori | xori =>
      simp only [alu, Uop.eval, arith, ho, BitVec.and_comm, BitVec.or_comm, BitVec.xor_comm]
  | rdcycle | rdcycleh | slt | slti | sltu | sltiu | and | or | xor | lui | auipc | beq | bne
  | blt | bltu | jal | jalr | jr | ret =>
      simp only [alu, Uop.eval, arith, taken, ho, wIndirectTarget, wMispredictedIndirect, ppa]
  | _ =>
      rw [ho] at h
      cases h

end Port2

end Rv32Core
