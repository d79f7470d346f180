import Rv32Core.Machine

/-! # The decoder

`decode_riscv` turns a fetched word into a uop: a default uop (illegal instruction, nothing
valid) overridden by the case of its major opcode.  The facts the rest of the development uses
are collected at the end: a valid destination is one of `x1`–`x31`, and what each class of
operation sets. -/

namespace Rv32Core

/-! ### Instruction fields -/

/-- `insn[6:0]`. -/
def opcodeField (insn : Word) : BitVec 7 := insn.extractLsb' 0 7

/-- `insn[14:12]`. -/
def funct3 (insn : Word) : BitVec 3 := insn.extractLsb' 12 3

/-- `insn[31:25]`. -/
def funct7 (insn : Word) : BitVec 7 := insn.extractLsb' 25 7

/-- `insn[11:7]`, zero-extended to a physical register number. -/
def rdField (insn : Word) : PrfPtr := (insn.extractLsb' 7 5).setWidth 6

/-- `insn[19:15]`, zero-extended. -/
def rs1Field (insn : Word) : PrfPtr := (insn.extractLsb' 15 5).setWidth 6

/-- `insn[24:20]`, zero-extended. -/
def rs2Field (insn : Word) : PrfPtr := (insn.extractLsb' 20 5).setWidth 6

/-- The I-type immediate `{{20{insn[31]}}, insn[31:20]}`. -/
def immI (insn : Word) : Word := (insn.extractLsb' 20 12).signExtend 32

/-- The S-type immediate `{{20{insn[31]}}, insn[31:25], insn[11:7]}`. -/
def immS (insn : Word) : Word := (insn.extractLsb' 25 7 ++ insn.extractLsb' 7 5).signExtend 32

/-- The U-type immediate `{insn[31:12], 12'd0}`. -/
def immU (insn : Word) : Word := insn.extractLsb' 12 20 ++ 0#12

/-- The B-type immediate. -/
def immB (insn : Word) : Word :=
  (insn.extractLsb' 31 1 ++ insn.extractLsb' 7 1 ++ insn.extractLsb' 25 6 ++
    insn.extractLsb' 8 4 ++ 0#1).signExtend 32

/-- The J-type immediate. -/
def immJ (insn : Word) : Word :=
  (insn.extractLsb' 31 1 ++ insn.extractLsb' 12 8 ++ insn.extractLsb' 20 1 ++
    insn.extractLsb' 21 10 ++ 0#1).signExtend 32

/-- `t_imm`: the immediate added to the pc. -/
def tImm (insn : Word) : Word :=
  if opcodeField insn = 0x17 then immU insn
  else if opcodeField insn = 0x63 then immB insn
  else if opcodeField insn = 0x6f then immJ insn
  else 0

/-- `w_pc_imm`. -/
def wPcImm (pc insn : Word) : Word := pc + tImm insn

/-- `x1` and `x5` are link registers (`rd_is_link`, `rs1_is_link`). -/
def isLink (r : PrfPtr) : Bool := r == 1 || r == 5

/-! ### The cases of the decoder -/

/-- The defaults at the head of the decoder. -/
def decodeDefault (f : InsnFetch) : Uop where
  op := .ii
  srcA := 0
  srcAValid := false
  srcB := 0
  srcBValid := false
  dst := 0
  dstValid := false
  rvimm := 0
  imm := 0
  jmpImm := 0
  pc := f.pc
  robPtr := 0
  serializingOp := false
  mustRestart := false
  brPred := false
  isInt := false
  isBr := false
  isMem := false
  isStore := false
  phtIdx := f.phtIdx
  isCheapInt := false

/-- `op`, or `NOP` when the destination is `x0`. -/
def nopIfX0 (rd : PrfPtr) (op : Opcode) : Opcode := if rd = 0 then .nop else op

/-- Loads, opcode `7'h3`. -/
def decodeLoad (f : InsnFetch) : Uop :=
  let rd := rdField f.data
  { decodeDefault f with
    dst := rd
    srcA := rs1Field f.data
    dstValid := rd != 0
    srcAValid := true
    isMem := true
    rvimm := immI f.data
    op :=
      if funct3 f.data = 0 then .lb
      else if funct3 f.data = 1 then .lh
      else if funct3 f.data = 2 then .lw
      else if funct3 f.data = 4 then .lbu
      else if funct3 f.data = 5 then .lhu
      else .ii }

/-- The operation and `is_cheap_int` of the register-immediate opcode `7'h13`. -/
def opImm (insn : Word) : Opcode × Bool :=
  let rd := rdField insn
  if funct3 insn = 0 then (nopIfX0 rd .addi, true)
  else if funct3 insn = 1 then (nopIfX0 rd .slli, true)
  else if funct3 insn = 2 then (nopIfX0 rd .slti, true)
  else if funct3 insn = 3 then (nopIfX0 rd .sltiu, true)
  else if funct3 insn = 4 then (nopIfX0 rd .xori, true)
  else if funct3 insn = 5 then
    if funct7 insn = 0 then (nopIfX0 rd .srli, true)
    else if funct7 insn = 0x20 then (nopIfX0 rd .srai, true)
    else (.ii, false)
  else if funct3 insn = 6 then (nopIfX0 rd .ori, true)
  else (nopIfX0 rd .andi, true)

/-- Register-immediate instructions, opcode `7'h13`. -/
def decodeOpImm (f : InsnFetch) : Uop :=
  let rd := rdField f.data
  { decodeDefault f with
    dst := rd
    srcA := rs1Field f.data
    dstValid := rd != 0
    srcAValid := rd != 0
    isInt := true
    rvimm := immI f.data
    op := (opImm f.data).1
    isCheapInt := (opImm f.data).2 }

/-- `auipc`, opcode `7'h17`. -/
def decodeAuipc (f : InsnFetch) : Uop :=
  let rd := rdField f.data
  { decodeDefault f with
    op := nopIfX0 rd .auipc
    dst := rd
    dstValid := rd != 0
    isInt := true
    isCheapInt := true
    rvimm := wPcImm f.pc f.data }

/-- Stores, opcode `7'h23`. -/
def decodeStore (f : InsnFetch) : Uop :=
  { decodeDefault f with
    srcA := rs1Field f.data
    srcB := rs2Field f.data
    srcAValid := true
    srcBValid := true
    isMem := true
    isStore := true
    rvimm := immS f.data
    op :=
      if funct3 f.data = 0 then .sb
      else if funct3 f.data = 1 then .sh
      else if funct3 f.data = 2 then .sw
      else .ii }

/-- The operation and `is_cheap_int` of the register-register opcode `7'h33`. -/
def opReg (insn : Word) : Opcode × Bool :=
  let rd := rdField insn
  if funct3 insn = 0 then
    if funct7 insn = 0 then (nopIfX0 rd .addu, true)
    else if funct7 insn = 1 then (nopIfX0 rd .mul, false)
    else if funct7 insn = 0x20 then (nopIfX0 rd .subu, true)
    else (.ii, false)
  else if funct3 insn = 1 then
    if funct7 insn = 0 then (nopIfX0 rd .sll, true)
    else if funct7 insn = 1 then (nopIfX0 rd .mulh, false)
    else (.ii, false)
  else if funct3 insn = 2 then
    if funct7 insn = 0 then (nopIfX0 rd .slt, true)
    else (.ii, false)
  else if funct3 insn = 3 then
    if funct7 insn = 0 then (nopIfX0 rd .sltu, true)
    else if funct7 insn = 1 then (nopIfX0 rd .mulhu, false)
    else (.ii, false)
  else if funct3 insn = 4 then
    if funct7 insn = 0 then (nopIfX0 rd .xor, true)
    else if funct7 insn = 1 then (nopIfX0 rd .div, false)
    else (.ii, false)
  else if funct3 insn = 5 then
    if funct7 insn = 0 then (nopIfX0 rd .srl, true)
    else if funct7 insn = 1 then (nopIfX0 rd .divu, false)
    else if funct7 insn = 0x20 then (nopIfX0 rd .sra, true)
    else (.ii, false)
  else if funct3 insn = 6 then
    if funct7 insn = 0 then (nopIfX0 rd .or, true)
    else if funct7 insn = 1 then (nopIfX0 rd .rem, false)
    else (.ii, false)
  else
    if funct7 insn = 0 then (nopIfX0 rd .and, true)
    else if funct7 insn = 1 then (nopIfX0 rd .remu, false)
    else (.ii, false)

/-- Register-register instructions, opcode `7'h33`. -/
def decodeOpReg (f : InsnFetch) : Uop :=
  let rd := rdField f.data
  { decodeDefault f with
    dst := rd
    dstValid := rd != 0
    srcAValid := true
    srcA := rs1Field f.data
    srcBValid := true
    srcB := rs2Field f.data
    isInt := true
    op := (opReg f.data).1
    isCheapInt := (opReg f.data).2 }

/-- `lui`, opcode `7'h37`. -/
def decodeLui (f : InsnFetch) : Uop :=
  let rd := rdField f.data
  { decodeDefault f with
    op := nopIfX0 rd .lui
    dst := rd
    dstValid := rd != 0
    isInt := true
    isCheapInt := true
    rvimm := immU f.data }

/-- Conditional branches, opcode `7'h63`. -/
def decodeBranch (f : InsnFetch) : Uop :=
  { decodeDefault f with
    srcA := rs1Field f.data
    srcB := rs2Field f.data
    srcAValid := true
    srcBValid := true
    isInt := true
    rvimm := wPcImm f.pc f.data
    brPred := f.pred
    isBr := true
    isCheapInt := true
    op :=
      if funct3 f.data = 0 then .beq
      else if funct3 f.data = 1 then .bne
      else if funct3 f.data = 4 then .blt
      else if funct3 f.data = 5 then .bge
      else if funct3 f.data = 6 then .bltu
      else if funct3 f.data = 7 then .bgeu
      else .ii }

/-- `jalr`, `jr` and `ret`, opcode `7'h67`. -/
def decodeJalr (f : InsnFetch) : Uop :=
  let rd := rdField f.data
  { decodeDefault f with
    srcAValid := true
    srcA := rs1Field f.data
    isInt := true
    isBr := true
    imm := f.predTarget.extractLsb' 0 16
    jmpImm := f.predTarget.extractLsb' 16 16
    rvimm := immI f.data
    brPred := true
    isCheapInt := true
    op := if rd = 0 then (if isLink (rs1Field f.data) then .ret else .jr) else .jalr
    dstValid := rd != 0
    dst := if rd = 0 then 0 else rd }

/-- `jal` and `j`, opcode `7'h6f`. -/
def decodeJal (f : InsnFetch) : Uop :=
  let rd := rdField f.data
  { decodeDefault f with
    rvimm := wPcImm f.pc f.data
    isBr := true
    op := if rd = 0 then .j else .jal
    dstValid := rd != 0
    dst := if rd = 0 then 0 else rd
    brPred := true
    isInt := true
    isCheapInt := rd != 0 }

/-- The counter reads of `csrrs`: `rd` receives counter `op`. -/
def decodeCounter (f : InsnFetch) (op : Opcode) (serializing cheap : Bool) : Uop :=
  let rd := rdField f.data
  { decodeDefault f with
    isInt := true
    op := nopIfX0 rd op
    dst := rd
    dstValid := rd != 0
    serializingOp := serializing
    isCheapInt := cheap }

/-- System instructions, opcode `7'h73`. -/
def decodeSystem (f : InsnFetch) : Uop :=
  let d := { decodeDefault f with isInt := true, op := .nop }
  let csr := f.data.extractLsb' 20 12
  if f.data.extractLsb' 7 25 = 0 then { d with op := .brk, serializingOp := true }
  else if csr = 1 ∧ f.data.extractLsb' 7 13 = 0 then
    { d with op := .monitor, serializingOp := true, mustRestart := true }
  else if funct3 f.data = 2 then
    if csr = 0xc00 then decodeCounter f .rdcycle false true
    else if csr = 0xc80 then decodeCounter f .rdcycleh false true
    else if csr = 0xc02 then decodeCounter f .rdinstret true false
    else if csr = 0xc82 then decodeCounter f .rdinstreth true false
    else if csr = 0xc03 then decodeCounter f .rdbranch true false
    else if csr = 0xc04 then decodeCounter f .rdfaultedbranch true false
    else d
  else d

/-- `decode_riscv`. -/
def decodeRiscv (f : InsnFetch) : Uop :=
  let opcode := opcodeField f.data
  if opcode = 0x03 then decodeLoad f
  else if opcode = 0x0f then { decodeDefault f with op := .nop }
  else if opcode = 0x13 then decodeOpImm f
  else if opcode = 0x17 then decodeAuipc f
  else if opcode = 0x23 then decodeStore f
  else if opcode = 0x33 then decodeOpReg f
  else if opcode = 0x37 then decodeLui f
  else if opcode = 0x63 then decodeBranch f
  else if opcode = 0x67 then decodeJalr f
  else if opcode = 0x6f then decodeJal f
  else if opcode = 0x73 then decodeSystem f
  else decodeDefault f

/-! ### Facts about decoded uops -/

/-- The uop `v` with other registers and a ROB slot, as renaming leaves it. -/
def Uop.Renames (u v : Uop) : Prop :=
  ∃ a b d r, u = { v with srcA := a, srcB := b, dst := d, robPtr := r }

/-- A destination the renamer can handle: when valid, one of `x1`–`x31`. -/
def Uop.DstOk (u : Uop) : Prop := u.dstValid = true → u.dst ≠ 0 ∧ u.dst < 32

theorem rdField_lt (insn : Word) : rdField insn < 32 := by
  have := (insn.extractLsb' 7 5).isLt
  rw [rdField, BitVec.lt_def, BitVec.toNat_setWidth_of_le (by omega)]
  exact this

theorem Uop.DstOk.of_rd {u : Uop} {f : InsnFetch} (hd : u.dst = rdField f.data)
    (hv : u.dstValid = (rdField f.data != 0)) : u.DstOk := fun h =>
  ⟨by rw [hd]; rwa [hv, bne_iff_ne] at h, by rw [hd]; exact rdField_lt _⟩

theorem Uop.DstOk.of_none {u : Uop} (hv : u.dstValid = false) : u.DstOk := fun h => by
  rw [hv] at h; cases h

/-- The decoder by the major opcode. -/
theorem decodeRiscv_cases {P : Uop → Prop} (f : InsnFetch) (load : P (decodeLoad f))
    (fence : P { decodeDefault f with op := .nop }) (opImm : P (decodeOpImm f))
    (auipc : P (decodeAuipc f)) (store : P (decodeStore f)) (op : P (decodeOpReg f))
    (lui : P (decodeLui f)) (branch : P (decodeBranch f)) (jalr : P (decodeJalr f))
    (jal : P (decodeJal f)) (system : P (decodeSystem f)) (other : P (decodeDefault f)) :
    P (decodeRiscv f) :=
  iteInduction (fun _ => load) fun _ => iteInduction (fun _ => fence) fun _ =>
  iteInduction (fun _ => opImm) fun _ => iteInduction (fun _ => auipc) fun _ =>
  iteInduction (fun _ => store) fun _ => iteInduction (fun _ => op) fun _ =>
  iteInduction (fun _ => lui) fun _ => iteInduction (fun _ => branch) fun _ =>
  iteInduction (fun _ => jalr) fun _ => iteInduction (fun _ => jal) fun _ =>
  iteInduction (fun _ => system) fun _ => other

theorem decodeJalr_dstOk (f : InsnFetch) : (decodeJalr f).DstOk := fun h => by
  have hne : rdField f.data ≠ 0 := bne_iff_ne.mp h
  have : (decodeJalr f).dst = rdField f.data := if_neg hne
  exact this ▸ ⟨hne, rdField_lt _⟩

theorem decodeJal_dstOk (f : InsnFetch) : (decodeJal f).DstOk := fun h => by
  have hne : rdField f.data ≠ 0 := bne_iff_ne.mp h
  have : (decodeJal f).dst = rdField f.data := if_neg hne
  exact this ▸ ⟨hne, rdField_lt _⟩

theorem decodeCounter_dstOk (f : InsnFetch) (op : Opcode) (serializing cheap : Bool) :
    (decodeCounter f op serializing cheap).DstOk := .of_rd rfl rfl

theorem decodeSystem_dstOk (f : InsnFetch) : (decodeSystem f).DstOk := by
  unfold decodeSystem
  dsimp only
  split_ifs
  all_goals first | exact decodeCounter_dstOk f _ _ _ | exact .of_none rfl

/-- **A decoded destination is a writable architectural register.** -/
theorem decodeRiscv_dstOk (f : InsnFetch) : (decodeRiscv f).DstOk := by
  apply decodeRiscv_cases (P := Uop.DstOk)
  case jalr => exact decodeJalr_dstOk f
  case jal => exact decodeJal_dstOk f
  case system => exact decodeSystem_dstOk f
  case fence | store | branch | other => exact .of_none rfl
  all_goals exact .of_rd rfl rfl

/-! ### Kinds of uops -/

/-- The fields of a uop that do not depend on its registers, its immediates and its pc. -/
structure UopKind where
  op : Opcode := .ii
  srcBValid : Bool := false
  dstValid : Bool := false
  serializingOp : Bool := false
  isInt : Bool := false
  isBr : Bool := false
  isMem : Bool := false
  isStore : Bool := false
  isCheapInt : Bool := false
deriving DecidableEq

def Uop.kind (u : Uop) : UopKind where
  op := u.op
  srcBValid := u.srcBValid
  dstValid := u.dstValid
  serializingOp := u.serializingOp
  isInt := u.isInt
  isBr := u.isBr
  isMem := u.isMem
  isStore := u.isStore
  isCheapInt := u.isCheapInt

namespace UopKind

/-- The operations `ops` of the integer unit, folded without a destination. -/
def int (k : UopKind) (ops : List Opcode) : List UopKind :=
  { k with op := .nop, dstValid := false, isInt := true } ::
    ops.map fun op => { k with op := op, dstValid := true, isInt := true }

def load : List UopKind := [.lb, .lh, .lw, .lbu, .lhu, .ii].flatMap fun op =>
  [{ op := op, isMem := true }, { op := op, isMem := true, dstValid := true }]

def opImm : List UopKind :=
  int { isCheapInt := true }
    [.addi, .slli, .slti, .sltiu, .xori, .srli, .srai, .ori, .andi] ++
  [{ isInt := true }, { isInt := true, dstValid := true }]

def upper (op : Opcode) : List UopKind := int { isCheapInt := true } [op]

def store : List UopKind := [.sb, .sh, .sw, .ii].map fun op =>
  { op := op, srcBValid := true, isMem := true, isStore := true }

def opReg : List UopKind :=
  int { srcBValid := true, isCheapInt := true }
    [.addu, .subu, .sll, .slt, .sltu, .xor, .srl, .sra, .or, .and] ++
  int { srcBValid := true } [.mul, .mulh, .mulhu, .div, .divu, .rem, .remu] ++
  [{ srcBValid := true, isInt := true }, { srcBValid := true, isInt := true, dstValid := true }]

def branch : List UopKind := [.beq, .bne, .blt, .bge, .bltu, .bgeu, .ii].map fun op =>
  { op := op, srcBValid := true, isInt := true, isBr := true, isCheapInt := true }

def jalr : List UopKind :=
  [{ op := .ret, isInt := true, isBr := true, isCheapInt := true },
    { op := .jr, isInt := true, isBr := true, isCheapInt := true },
    { op := .jalr, dstValid := true, isInt := true, isBr := true, isCheapInt := true }]

def jal : List UopKind :=
  [{ op := .j, isInt := true, isBr := true },
    { op := .jal, dstValid := true, isInt := true, isBr := true, isCheapInt := true }]

def system : List UopKind :=
  [{ op := .brk, serializingOp := true, isInt := true },
    { op := .monitor, serializingOp := true, isInt := true }, { op := .nop, isInt := true }] ++
  int { isCheapInt := true } [.rdcycle, .rdcycleh] ++
  int { serializingOp := true } [.rdinstret, .rdinstreth, .rdbranch, .rdfaultedbranch]

/-- The kinds of each major opcode. -/
def byOpcode : List (List UopKind) :=
  [load, [{ op := .nop }], opImm, upper .auipc, store, opReg, upper .lui, branch, jalr, jal, system,
    [{}]]

/-- The kinds of the decoder's uops. -/
def decoded : List UopKind := byOpcode.flatten

theorem int_mem {k : UopKind} {ops : List Opcode} {op : Opcode} (h : op ∈ ops) (r : PrfPtr) :
    { k with op := nopIfX0 r op, dstValid := r != 0, isInt := true } ∈ k.int ops := by
  by_cases hr : r = 0
  · rw [nopIfX0, if_pos hr, hr]
    exact .head _
  · rw [nopIfX0, if_neg hr, bne_iff_ne.mpr hr]
    exact .tail _ (List.mem_map.mpr ⟨op, h, rfl⟩)

end UopKind

section Kinds

variable (f : InsnFetch)

theorem decodeLoad_kind : (decodeLoad f).kind ∈ UopKind.load := by
  unfold decodeLoad Uop.kind
  dsimp only [decodeDefault]
  cases rdField f.data != 0 <;> split_ifs <;> decide

theorem decodeOpImm_kind : (decodeOpImm f).kind ∈ UopKind.opImm := by
  unfold decodeOpImm opImm Uop.kind
  dsimp only [decodeDefault]
  split_ifs
  all_goals first
    | exact List.mem_append_left _ (UopKind.int_mem (by decide) _)
    | exact List.mem_append_right _ (by cases rdField f.data != 0 <;> decide)

theorem decodeStore_kind : (decodeStore f).kind ∈ UopKind.store := by
  unfold decodeStore Uop.kind
  dsimp only [decodeDefault]
  split_ifs <;> decide

theorem decodeOpReg_kind : (decodeOpReg f).kind ∈ UopKind.opReg := by
  unfold decodeOpReg opReg Uop.kind
  dsimp only [decodeDefault]
  split_ifs
  all_goals first
    | exact List.mem_append_left _ (List.mem_append_left _ (UopKind.int_mem (by decide) _))
    | exact List.mem_append_left _ (List.mem_append_right _ (UopKind.int_mem (by decide) _))
    | exact List.mem_append_right _ (by cases rdField f.data != 0 <;> decide)

theorem decodeBranch_kind : (decodeBranch f).kind ∈ UopKind.branch := by
  unfold decodeBranch Uop.kind
  dsimp only [decodeDefault]
  split_ifs <;> decide

theorem decodeJalr_kind : (decodeJalr f).kind ∈ UopKind.jalr := by
  unfold decodeJalr Uop.kind
  dsimp only [decodeDefault]
  by_cases h : rdField f.data = 0
  · rw [if_pos h, h]
    split_ifs <;> decide
  · rw [if_neg h, bne_iff_ne.mpr h]
    decide

theorem decodeJal_kind : (decodeJal f).kind ∈ UopKind.jal := by
  unfold decodeJal Uop.kind
  dsimp only [decodeDefault]
  by_cases h : rdField f.data = 0
  · rw [if_pos h, h]
    decide
  · rw [if_neg h, bne_iff_ne.mpr h]
    decide

theorem decodeSystem_kind : (decodeSystem f).kind ∈ UopKind.system := by
  have hcheap : ∀ op ∈ [Opcode.rdcycle, .rdcycleh],
      (decodeCounter f op false true).kind ∈ UopKind.system := fun op h =>
    List.mem_append_left _ (List.mem_append_right _ (UopKind.int_mem h _))
  have hserial : ∀ op ∈ [Opcode.rdinstret, .rdinstreth, .rdbranch, .rdfaultedbranch],
      (decodeCounter f op true false).kind ∈ UopKind.system := fun op h =>
    List.mem_append_right _ (UopKind.int_mem h _)
  unfold decodeSystem
  dsimp only
  split_ifs
  all_goals first
    | exact hcheap _ (by decide)
    | exact hserial _ (by decide)
    | exact .head _
    | exact .tail _ (.head _)
    | exact .tail _ (.tail _ (.head _))

/-- **Every uop of the decoder is of one of its kinds.** -/
theorem decodeRiscv_kind : (decodeRiscv f).kind ∈ UopKind.decoded := by
  have of : ∀ (l : List UopKind) {k} (_ : k ∈ l)
      (_ : l ∈ UopKind.byOpcode := by simp [UopKind.byOpcode]), k ∈ UopKind.decoded :=
    fun _ _ hk hl => List.mem_flatten_of_mem hl hk
  apply decodeRiscv_cases (P := fun u => u.kind ∈ UopKind.decoded)
  case load => exact of _ (decodeLoad_kind f)
  case fence => exact of [{ op := .nop }] (.head _)
  case opImm => exact of _ (decodeOpImm_kind f)
  case auipc => exact of (UopKind.upper .auipc) (UopKind.int_mem (.head _) _)
  case store => exact of _ (decodeStore_kind f)
  case op => exact of _ (decodeOpReg_kind f)
  case lui => exact of (UopKind.upper .lui) (UopKind.int_mem (.head _) _)
  case branch => exact of _ (decodeBranch_kind f)
  case jalr => exact of _ (decodeJalr_kind f)
  case jal => exact of _ (decodeJal_kind f)
  case system => exact of _ (decodeSystem_kind f)
  case other => exact of [{}] (.head _)

end Kinds

/-! ### Branches -/

theorem decodeSystem_isBr (f : InsnFetch) : (decodeSystem f).isBr = false := by
  have h : ∀ k ∈ UopKind.system, k.isBr = false := by decide
  exact h _ (decodeSystem_kind f)

/-- The branches are the three opcodes BRANCH, JALR and JAL. -/
inductive BranchUop (f : InsnFetch) : Prop
  | branch (hop : opcodeField f.data = 0x63) (hd : decodeRiscv f = decodeBranch f)
  | jalr (hop : opcodeField f.data = 0x67) (hd : decodeRiscv f = decodeJalr f)
  | jal (hop : opcodeField f.data = 0x6f) (hd : decodeRiscv f = decodeJal f)

theorem branchUop {f : InsnFetch} (h : (decodeRiscv f).isBr = true) : BranchUop f := by
  by_cases h63 : opcodeField f.data = 0x63
  · exact .branch h63 (by simp [decodeRiscv, h63])
  by_cases h67 : opcodeField f.data = 0x67
  · exact .jalr h67 (by simp [decodeRiscv, h67])
  by_cases h6f : opcodeField f.data = 0x6f
  · exact .jal h6f (by simp [decodeRiscv, h6f])
  unfold decodeRiscv at h
  dsimp only at h
  rw [if_neg h63, if_neg h67, if_neg h6f] at h
  split_ifs at h
  all_goals first | cases h | exact absurd h (by rw [decodeSystem_isBr]; decide)

theorem BranchUop.isBr {f : InsnFetch} (h : BranchUop f) : (decodeRiscv f).isBr = true := by
  cases h with
  | branch _ hd | jalr _ hd | jal _ hd =>
      rw [hd]
      rfl

theorem BranchUop.serializingOp {f : InsnFetch} (h : BranchUop f) :
    (decodeRiscv f).serializingOp = false := by
  cases h with
  | branch _ hd | jalr _ hd | jal _ hd =>
      rw [hd]
      rfl

end Rv32Core
