import Rv32Core.Interpret
import Rv32Core.Core.State
import Rv32Core.Exec.Alu

/-! # The core against the reference interpreter

A checker run compares the registers and the pc of the core with those of the interpreter after
every instruction.  The modules of this directory make the comparison once and for all: for every
fetched word, what `decode_riscv` and the integer ports make of it is set against the
interpreter's switch.  This one relates the two readings of a word: immediates, selectors,
registers, and the cases by major opcode. -/

namespace Rv32Core

open Iss
open Rv32Core.Core (folds)

/-! ### Immediates -/

theorem disp12_eq (inst : Word) : disp12 inst = immI inst := by
  rw [immI, Bits.signExtend_eq_or, Bits.msb_extractLsb']
  rfl

theorem simm32_eq (inst : Word) : simm32 inst = immI inst := by
  have h : inst >>> 20 = (inst.extractLsb' 20 12).setWidth 32 := by
    apply BitVec.eq_of_toNat_eq
    rw [BitVec.toNat_ushiftRight, BitVec.toNat_setWidth, BitVec.extractLsb'_toNat,
      Nat.shiftRight_eq_div_pow]
    have := inst.isLt
    omega
  rw [← disp12_eq, disp12, simm32, h]

theorem branchDisp_eq (inst : Word) : branchDisp inst = immB inst := by
  have hs : ∀ x : BitVec 1, x ≠ 0 ↔ x.msb = true := by decide
  rw [immB, Bits.signExtend_eq_or, Bits.setWidth_fields, branchDisp]
  simp only [hs, BitVec.msb_append]
  rfl

theorem jaddr_eq (inst : Word) : jaddr inst = immJ inst := by
  have hs : neg inst = (inst.extractLsb' 31 1).msb := (Bits.msb_extractLsb' inst 31 0).symm
  rw [immJ, Bits.signExtend_eq_or, Bits.setWidth_fields, jaddr, hs]
  simp only [BitVec.msb_append]
  rfl

theorem upper_eq (inst : Word) : inst &&& 0xfffff000 = immU inst := by
  apply BitVec.eq_of_getLsbD_eq
  intro i hi
  have hmask : (0xfffff000 : Word) = BitVec.allOnes 32 <<< 12 := by decide
  rw [hmask, immU, BitVec.getLsbD_and, BitVec.getLsbD_shiftLeft, BitVec.getLsbD_allOnes,
    BitVec.getLsbD_append]
  by_cases h : i < 12
  · simp [h]
  · simp [h, hi, show 12 + (i - 12) = i by omega, show i - 12 < 32 by omega,
      show i - 12 < 20 by omega]

theorem and_31 (x : Word) : (x &&& 31).toNat = (x.extractLsb' 0 5).toNat := by
  rw [BitVec.toNat_and, BitVec.extractLsb'_toNat, Nat.shiftRight_zero]
  exact Nat.and_two_pow_sub_one_eq_mod x.toNat 5

/-! ### Selectors -/

variable {u : Uop} {p : Alu} {inst : Word} {s s' : Iss}

theorem sel_cases (x : BitVec 3) :
    x = 0#3 ∨ x = 1#3 ∨ x = 2#3 ∨ x = 3#3 ∨ x = 4#3 ∨ x = 5#3 ∨ x = 6#3 ∨ x = 7#3 := by
  revert x
  decide

theorem funct3_eq (inst : Word) : funct3 inst = sel inst := rfl

theorem funct7_eq (inst : Word) : funct7 inst = special inst := rfl

/-- `(inst >> 25) & 127` is the selector of the shifts. -/
theorem shift_sel_eq (inst : Word) (k : BitVec 7) :
    (inst >>> 25 &&& 127 = k.setWidth 32) ↔ special inst = k := by
  have h : inst >>> 25 &&& 127 = (special inst).setWidth 32 := by
    apply BitVec.eq_of_toNat_eq
    rw [BitVec.toNat_and, BitVec.toNat_ushiftRight, BitVec.toNat_setWidth, special,
      BitVec.extractLsb'_toNat]
    have h7 : inst.toNat >>> 25 &&& (127 : Word).toNat = inst.toNat >>> 25 % 2 ^ 7 :=
      Nat.and_two_pow_sub_one_eq_mod _ 7
    rw [h7]
    omega
  rw [h]
  refine ⟨fun he => ?_, fun he => by rw [he]⟩
  have ht := congrArg BitVec.toNat he
  rw [BitVec.toNat_setWidth_of_le (by omega), BitVec.toNat_setWidth_of_le (by omega)] at ht
  exact BitVec.eq_of_toNat_eq ht

/-! ### Registers -/

theorem rdField_eq_zero (inst : Word) : rdField inst = 0 ↔ rd inst = 0 := by
  have h : ∀ r : ArchReg, r.setWidth 6 = (0 : PrfPtr) ↔ r = 0 := by decide
  exact h _

/-- The register a uop field names. -/
def gprOf (s : Iss) (p : PrfPtr) : Word := s.gpr (p.setWidth 5)

theorem gprOf_setWidth (s : Iss) (r : ArchReg) : gprOf s (r.setWidth 6) = s.gpr r := by
  have h : ∀ r : ArchReg, (r.setWidth 6).setWidth 5 = r := by decide
  rw [gprOf, h]

/-- The sources of a uop, as the ports read them: where the decoder marks a source as valid it is
the register it names, elsewhere it is anything. -/
structure Sources (s : Iss) (u : Uop) (srcA srcB : Word) : Prop where
  srcA : u.srcAValid = true → srcA = gprOf s u.srcA
  srcB : u.srcBValid = true → srcB = gprOf s u.srcB

/-- A port changes the registers as the interpreter does between `s` and `s'`: it writes the one
register the interpreter writes, with its value, or none. -/
def SameWrite (u : Uop) (p : Alu) (inst : Word) (s s' : Iss) : Prop :=
  if u.dstValid then
    p.wrIntPrf = true ∧ u.dst = (rd inst).setWidth 6 ∧
      s'.gpr = Function.update s.gpr (rd inst) p.result
  else p.wrIntPrf = false ∧ s'.gpr = s.gpr

theorem SameWrite.of_value {v : Word} (hv : u.dstValid = true) (hd : u.dst = (rd inst).setWidth 6)
    (hs : s'.gpr = Function.update s.gpr (rd inst) v) : SameWrite u (Alu.value u v) inst s s' := by
  rw [SameWrite, if_pos hv]
  exact ⟨rfl, hd, hs⟩

theorem SameWrite.of_none (hv : u.dstValid = false) (hp : p.wrIntPrf = false)
    (hs : s'.gpr = s.gpr) : SameWrite u p inst s s' := by
  rw [SameWrite, if_neg (by rw [hv]; decide)]
  exact ⟨hp, hs⟩

/-! ### Choices in the decoder -/

theorem nopIfX0_of_ne (hrd : rd inst ≠ 0) (op : Opcode) : nopIfX0 (rdField inst) op = op :=
  if_neg fun h => hrd ((rdField_eq_zero inst).mp h)

theorem nopIfX0_of_eq (hrd : rd inst = 0) (op : Opcode) : nopIfX0 (rdField inst) op = .nop :=
  if_pos ((rdField_eq_zero inst).mpr hrd)

theorem bne_of_rd (hrd : rd inst ≠ 0) : (rdField inst != 0) = true :=
  bne_iff_ne.mpr fun h => hrd ((rdField_eq_zero inst).mp h)

/-! ### The two sides, by major opcode -/

/-- What the decoder and the interpreter do with a word, by its major opcode. -/
inductive Major (f : InsnFetch) : Prop
  | load (hop : opcodeField f.data = 0x03) (hd : decodeRiscv f = decodeLoad f)
      (he : ∀ s, execSwitch f.data s = execLoad f.data s)
  | fence (hop : opcodeField f.data = 0x0f) (hd : decodeRiscv f = { decodeDefault f with op := .nop })
      (he : ∀ s, execSwitch f.data s = some s.skip)
  | opImm (hop : opcodeField f.data = 0x13) (hd : decodeRiscv f = decodeOpImm f)
      (he : ∀ s, execSwitch f.data s = execOpImm f.data s)
  | auipc (hop : opcodeField f.data = 0x17) (hd : decodeRiscv f = decodeAuipc f)
      (he : ∀ s, execSwitch f.data s = some (execAuipc f.data s))
  | store (hop : opcodeField f.data = 0x23) (hd : decodeRiscv f = decodeStore f)
      (he : ∀ s, execSwitch f.data s = execStore f.data s)
  | op (hop : opcodeField f.data = 0x33) (hd : decodeRiscv f = decodeOpReg f)
      (he : ∀ s, execSwitch f.data s = execOp f.data s)
  | lui (hop : opcodeField f.data = 0x37) (hd : decodeRiscv f = decodeLui f)
      (he : ∀ s, execSwitch f.data s = some (execLui f.data s))
  | branch (hop : opcodeField f.data = 0x63) (hd : decodeRiscv f = decodeBranch f)
      (he : ∀ s, execSwitch f.data s = execBranch f.data s)
  | jalr (hop : opcodeField f.data = 0x67) (hd : decodeRiscv f = decodeJalr f)
      (he : ∀ s, execSwitch f.data s = some (execJalr f.data s))
  | jal (hop : opcodeField f.data = 0x6f) (hd : decodeRiscv f = decodeJal f)
      (he : ∀ s, execSwitch f.data s = some (execJal f.data s))
  | system (hop : opcodeField f.data = 0x73) (hd : decodeRiscv f = decodeSystem f)
      (he : ∀ s, execSwitch f.data s = some (execSystem f.data s))
  | other (hop : opcodeField f.data ∉ [0x03, 0x0f, 0x13, 0x17, 0x23, 0x33, 0x37, 0x63, 0x67, 0x6f,
      0x73]) (hd : decodeRiscv f = decodeDefault f) (he : ∀ s, execSwitch f.data s = none)

theorem major (f : InsnFetch) : Major f := by
  by_cases h0 : opcodeField f.data = 0x03
  · exact .load h0 (by simp [decodeRiscv, h0]) fun s => congrArg (switchArm f.data s) h0
  by_cases h1 : opcodeField f.data = 0x0f
  · exact .fence h1 (by simp [decodeRiscv, h1]) fun s => congrArg (switchArm f.data s) h1
  by_cases h2 : opcodeField f.data = 0x13
  · exact .opImm h2 (by simp [decodeRiscv, h2]) fun s => congrArg (switchArm f.data s) h2
  by_cases h3 : opcodeField f.data = 0x17
  · exact .auipc h3 (by simp [decodeRiscv, h3]) fun s => congrArg (switchArm f.data s) h3
  by_cases h4 : opcodeField f.data = 0x23
  · exact .store h4 (by simp [decodeRiscv, h4]) fun s => congrArg (switchArm f.data s) h4
  by_cases h5 : opcodeField f.data = 0x33
  · exact .op h5 (by simp [decodeRiscv, h5]) fun s => congrArg (switchArm f.data s) h5
  by_cases h6 : opcodeField f.data = 0x37
  · exact .lui h6 (by simp [decodeRiscv, h6]) fun s => congrArg (switchArm f.data s) h6
  by_cases h7 : opcodeField f.data = 0x63
  · exact .branch h7 (by simp [decodeRiscv, h7]) fun s => congrArg (switchArm f.data s) h7
  by_cases h8 : opcodeField f.data = 0x67
  · exact .jalr h8 (by simp [decodeRiscv, h8]) fun s => congrArg (switchArm f.data s) h8
  by_cases h9 : opcodeField f.data = 0x6f
  · exact .jal h9 (by simp [decodeRiscv, h9]) fun s => congrArg (switchArm f.data s) h9
  by_cases h10 : opcodeField f.data = 0x73
  · exact .system h10 (by simp [decodeRiscv, h10]) fun s => congrArg (switchArm f.data s) h10
  refine .other ?_ ?_ fun s => ?_
  · simp only [List.mem_cons, h0, h1, h2, h3, h4, h5, h6, h7, h8, h9, h10,
      List.not_mem_nil, or_false, not_false_eq_true]
  · simp only [decodeRiscv, h0, h1, h2, h3, h4, h5, h6, h7, h8, h9, h10,
      if_false]
  · unfold execSwitch switchArm
    split
    case h_12 => rfl
    all_goals exact absurd ‹f.data.extractLsb' 0 7 = _› ‹_›

/-! ### One instruction of the interpreter -/

theorem execInsn_eq_some (h : s.execInsn inst = some s') :
    ∃ t, execSwitch inst { s with lastPc := s.pc } = some t ∧ s'.gpr = t.gpr ∧ s'.pc = t.pc := by
  obtain ⟨t, ht, rfl⟩ := Option.map_eq_some_iff.mp h
  exact ⟨t, ht, rfl, rfl⟩

theorem execInsn_of_switch {t : Iss} (h : execSwitch inst { s with lastPc := s.pc } = some t) :
    s.execInsn inst = some t.counted := by
  rw [execInsn, h]
  rfl

end Rv32Core
