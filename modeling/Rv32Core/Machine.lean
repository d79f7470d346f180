import Mathlib.Logic.Function.Basic
import Mathlib.Data.BitVec
import Mathlib.Tactic.Common

/-! # Machine parameters and the records passed between the units

The widths of `machine.vh` (32-bit words, 32 ROB slots, 64 physical registers, 16-byte L1
lines), the enumerations `opcode_t` and `mem_op_t`, and the packed records of `uop.vh` and
`rob.vh`.  The two L1 caches have the same geometry, 4096 sets of one line.  Register arrays
and vectors of flip-flops are functions from their index. -/

namespace Rv32Core

/-- A machine word, `M_WIDTH = 32`. -/
abbrev Word := BitVec 32

/-- An architectural register number. -/
abbrev ArchReg := BitVec 5

/-- A ROB slot, `LG_ROB_ENTRIES = 5`. -/
abbrev RobPtr := BitVec 5

/-- A physical register, `LG_PRF_ENTRIES = 6`. -/
abbrev PrfPtr := BitVec 6

/-- An index of the pattern history table, `LG_PHT_SZ = 16`. -/
abbrev PhtIdx := BitVec 16

/-! ### Write ports -/

section WritePort

variable {ι α : Type*} [DecidableEq ι]

/-- A conditional write to one entry of a register array. -/
def writeIf (b : Bool) (a : ι) (v : α) (f : ι → α) (x : ι) : α :=
  if b && decide (x = a) then v else f x

/-- A conditional change of one entry of a register array. -/
def modifyIf (b : Bool) (a : ι) (g : α → α) (f : ι → α) (x : ι) : α :=
  if b && decide (x = a) then g (f x) else f x

@[simp] theorem writeIf_false (a : ι) (v : α) (f : ι → α) : writeIf false a v f = f := rfl

@[simp] theorem writeIf_true (a : ι) (v : α) (f : ι → α) :
    writeIf true a v f = Function.update f a v := by
  funext x
  by_cases h : x = a
  · subst h; simp [writeIf]
  · simp [writeIf, h]

theorem writeIf_apply (b : Bool) (a : ι) (v : α) (f : ι → α) (x : ι) :
    writeIf b a v f x = if b = true ∧ x = a then v else f x := by
  simp [writeIf]

theorem modifyIf_apply (b : Bool) (a : ι) (g : α → α) (f : ι → α) (x : ι) :
    modifyIf b a g f x = if b = true ∧ x = a then g (f x) else f x := by
  simp [modifyIf]

theorem writeIf_of_ne (b : Bool) {a x : ι} (v : α) (f : ι → α) (h : x ≠ a) :
    writeIf b a v f x = f x := by simp [writeIf, h]

theorem writeIf_const (b : Bool) (a : ι) (v : α) : writeIf b a v (fun _ => v) = fun _ => v := by
  funext x
  rw [writeIf_apply]
  split_ifs <;> rfl

theorem writeIf_set (b : Bool) (a : ι) (f : ι → Bool) (x : ι) :
    writeIf b a true f x = (b && decide (x = a) || f x) := by
  unfold writeIf
  cases b && decide (x = a) <;> rfl

theorem writeIf_clear (b : Bool) (a : ι) (f : ι → Bool) (x : ι) :
    writeIf b a false f x = (!(b && decide (x = a)) && f x) := by
  unfold writeIf
  cases b && decide (x = a) <;> rfl

@[simp] theorem modifyIf_false (a : ι) (g : α → α) (f : ι → α) : modifyIf false a g f = f := rfl

theorem modifyIf_apply_congr {β : Type*} (b : Bool) (a : ι) (g : α → α) (f : ι → α) (p : α → β)
    (hp : ∀ v, p (g v) = p v) (x : ι) : p (modifyIf b a g f x) = p (f x) := by
  by_cases h : (b && decide (x = a)) = true
  · rw [modifyIf, if_pos h, hp]
  · rw [modifyIf, if_neg h]

end WritePort

/-! ### Enumerations -/

/-- `opcode_t` of `uop.vh`. -/
inductive Opcode where
  | srl | sra | srlv | srav | slt | sltu | addiu | sc | monitor
  | rdcycle | rdcycleh | rdinstret | rdinstreth | rdbranch | rdfaultedbranch
  | mul | mulh | mulhu | div | divu | rem | remu | slti | sltiu | addu | subu | andi
  | beq | bge | bgeu | blt | bltu | bne | sll | slli | srai | srli
  | lb | lh | lw | lbu | lhu | sb | sh | sw | ori | xori
  | j | jal | jr | ret | jalr | brk | addi | auipc | lui | nop | and | or | xor
  | ii
deriving DecidableEq, Repr

/-- `uses_mul` of `uop.vh`. -/
def usesMul : Opcode → Bool
  | .mul | .mulhu | .mulh => true
  | _ => false

/-- `uses_div` of `uop.vh`. -/
def usesDiv : Opcode → Bool
  | .div | .divu | .rem | .remu => true
  | _ => false

/-- `is_store` of `uop.vh`. -/
def isStore : Opcode → Bool
  | .sb | .sh | .sw | .sc => true
  | _ => false

/-- `mem_op_t` of `machine.vh`. -/
inductive MemOp where
  | lb | lbu | lh | lhu | lw | sb | sh | sw | sc | nop
deriving DecidableEq, Repr

/-! ### Cache lines -/

/-- A cache line of 16 bytes. -/
abbrev Line := BitVec 128

/-- A set of an L1 cache, `addr[15:4]`. -/
abbrev SetIdx := BitVec 12

/-- A tag of an L1 cache, `addr[31:16]`. -/
abbrev Tag := BitVec 16

/-- `addr[IDX_STOP-1:IDX_START]`. -/
def setOf (addr : Word) : SetIdx := addr.extractLsb' 4 12

/-- `addr[M_WIDTH-1:IDX_STOP]`. -/
def tagOf (addr : Word) : Tag := addr.extractLsb' 16 16

/-- The line address `{tag, set, 4'd0}`. -/
def lineAddr (tag : Tag) (set : SetIdx) : Word := tag ++ set ++ 0#4

/-- `{addr[31:4], 4'd0}`. -/
def lineOf (addr : Word) : Word := addr.extractLsb' 4 28 ++ 0#4

theorem getLsbD_lineAddr (t : Tag) (a : SetIdx) (k : ℕ) :
    (lineAddr t a).getLsbD k =
      if k < 4 then false else if k < 16 then a.getLsbD (k - 4) else t.getLsbD (k - 16) := by
  have h : (lineAddr t a).getLsbD k = (t ++ a ++ 0#4).getLsbD k := rfl
  rw [h, BitVec.getLsbD_append, BitVec.getLsbD_append]
  split_ifs <;> first | omega | simp | skip
  congr 1

theorem getLsbD_lineOf (a : Word) (k : ℕ) :
    (lineOf a).getLsbD k = (decide (4 ≤ k) && a.getLsbD k) := by
  have h : (lineOf a).getLsbD k = (a.extractLsb' 4 28 ++ 0#4).getLsbD k := rfl
  rw [h, BitVec.getLsbD_append]
  by_cases hk : k < 4
  · simp [hk]
  · have h4 : 4 + (k - 4) = k := by omega
    by_cases h28 : k - 4 < 28
    · simp [hk, h4, h28, show 4 ≤ k by omega]
    · simp [hk, h28, show 32 ≤ k by omega]

@[simp] theorem setOf_lineAddr (t : Tag) (a : SetIdx) : setOf (lineAddr t a) = a := by
  ext j hj
  simp [setOf, getLsbD_lineAddr, show 4 + j < 16 by omega, BitVec.getLsbD_eq_getElem hj]

@[simp] theorem tagOf_lineAddr (t : Tag) (a : SetIdx) : tagOf (lineAddr t a) = t := by
  ext j hj
  simp [tagOf, getLsbD_lineAddr, show ¬16 + j < 16 by omega,
    show ¬16 + j < 4 by omega, BitVec.getLsbD_eq_getElem hj]

@[simp] theorem setOf_lineOf (a : Word) : setOf (lineOf a) = setOf a := by
  ext j hj
  simp [setOf, getLsbD_lineOf]

@[simp] theorem tagOf_lineOf (a : Word) : tagOf (lineOf a) = tagOf a := by
  ext j hj
  simp [tagOf, getLsbD_lineOf, show 4 ≤ 16 + j by omega]

theorem lineAddr_eq_lineOf (a : Word) : lineAddr (tagOf a) (setOf a) = lineOf a := by
  ext j hj
  rw [← BitVec.getLsbD_eq_getElem, ← BitVec.getLsbD_eq_getElem, getLsbD_lineAddr, getLsbD_lineOf]
  by_cases h4 : j < 4
  · simp [h4]
  · by_cases h16 : j < 16
    · simp [h4, h16, setOf, show 4 ≤ j by omega, show j - 4 < 12 by omega,
        show 4 + (j - 4) = j by omega]
    · simp [h4, h16, tagOf, show 4 ≤ j by omega, show j - 16 < 16 by omega,
        show 16 + (j - 16) = j by omega]

/-! ### Records -/

/-- `uop_t`: a decoded instruction; after renaming `srcA`, `srcB` and `dst` name physical
registers. -/
structure Uop where
  op : Opcode
  srcA : PrfPtr
  srcAValid : Bool
  srcB : PrfPtr
  srcBValid : Bool
  dst : PrfPtr
  dstValid : Bool
  rvimm : Word
  imm : BitVec 16
  jmpImm : BitVec 16
  pc : Word
  robPtr : RobPtr
  serializingOp : Bool
  mustRestart : Bool
  brPred : Bool
  isInt : Bool
  isBr : Bool
  isMem : Bool
  isStore : Bool
  phtIdx : PhtIdx
  isCheapInt : Bool
deriving DecidableEq, Repr

/-- `rob_entry_t`. -/
structure RobEntry where
  faulted : Bool
  isIi : Bool
  isBadAddr : Bool
  isRet : Bool
  isCall : Bool
  validDst : Bool
  ldst : ArchReg
  pdst : PrfPtr
  oldPdst : PrfPtr
  pc : Word
  targetPc : Word
  isBr : Bool
  isIndirect : Bool
  takeBr : Bool
  isBreak : Bool
  data : Word
  phtIdx : PhtIdx
deriving DecidableEq, Repr

/-- `complete_t`: what an execution port reports to the ROB. -/
structure Complete where
  robPtr : RobPtr
  complete : Bool
  faulted : Bool
  restartPc : Word
  takeBr : Bool
  isIi : Bool
  data : Word
deriving DecidableEq, Repr

/-- `insn_fetch_t`: a fetch queue entry. -/
structure InsnFetch where
  data : Word
  pc : Word
  predTarget : Word
  pred : Bool
  phtIdx : PhtIdx
deriving DecidableEq, Repr

/-- `mem_req_t`: a request to the L1 data cache. -/
structure MemReq where
  addr : Word
  isStore : Bool
  isLoad : Bool
  op : MemOp
  spansCacheline : Bool
  unaligned : Bool
  robPtr : RobPtr
  dstPtr : PrfPtr
  dstValid : Bool
  data : Word
  pc : Word
deriving DecidableEq, Repr

/-- `dq_t`: a store waiting for its data register. -/
structure Dq where
  robPtr : RobPtr
  srcPtr : PrfPtr
deriving DecidableEq, Repr

/-- `mem_data_t`: the data of a store. -/
structure MemData where
  data : Word
  robPtr : RobPtr
deriving DecidableEq, Repr

/-- `mem_rsp_t`: an answer of the L1 data cache. -/
structure MemRsp where
  data : Word
  robPtr : RobPtr
  dstPtr : PrfPtr
  dstValid : Bool
  badAddr : Bool
  pc : Word
deriving DecidableEq, Repr

/-- `bob_entry_t`. -/
structure BobEntry where
  valid : Bool
  robPtr : RobPtr
deriving DecidableEq, Repr

/-- The all-zero uop, what an unwritten queue slot holds after power-up. -/
def Uop.zero : Uop :=
  ⟨.srl, 0, false, 0, false, 0, false, 0, 0, 0, 0, 0, false, false, false, false, false, false,
    false, 0, false⟩

/-- The all-zero ROB entry. -/
def RobEntry.zero : RobEntry :=
  ⟨false, false, false, false, false, false, 0, 0, 0, 0, 0, false, false, false, false, 0, 0⟩

end Rv32Core
