import Rv32Core.Checker.Words

/-! # Results of integer instructions

LUI, AUIPC, OP-IMM and OP write what the interpreter writes, on either port, and the ports agree
on every uop that can be sent to either. -/

namespace Rv32Core

open Iss
open Rv32Core.Core (folds)

variable {u : Uop} {inst : Word} {s s' : Iss} {c : Counters} {f : InsnFetch} {a b v : Word}

/-! ### Integer instructions -/

/-- LUI, AUIPC, OP-IMM and OP without the M extension. -/
def IntInsn (inst : Word) : Prop :=
  opcodeField inst = 0x37 ∨ opcodeField inst = 0x17 ∨ opcodeField inst = 0x13 ∨
    opcodeField inst = 0x33 ∧ funct7 inst ≠ 1

/-- A uop whose result both ports compute, to be `v`. -/
structure Computes (u : Uop) (srcA srcB v : Word) : Prop where
  both : OnBothPorts u.op = true
  eval : ∀ c, u.eval c srcA srcB = Alu.value u v

theorem Computes.port1 {a b v : Word} (h : Computes u a b v) (c : Counters) :
    Port1.alu c u a b = Alu.value u v := by rw [Port1.alu_eq_eval c u a b h.both, h.eval]

theorem Computes.port2 {a b v : Word} (h : Computes u a b v) (c : Counters) :
    Port2.alu c u a b = Alu.value u v := by rw [Port2.alu_eq_eval c u a b h.both, h.eval]

theorem Computes.of_arith (h : IsArith u.op = true) (hv : arith u.op u.rvimm a b = v) :
    Computes u a b v := by
  subst hv
  constructor
  · revert h
    cases u.op <;> intro h <;> first | rfl | cases h
  · intro c
    cases ho : u.op <;> rw [ho] at h <;> try cases h
    all_goals simp only [Uop.eval, ho]

theorem opImm_value (hrd : rd inst ≠ 0) (hv : s.opImmValue inst = some v) :
    ∃ op, opImm inst = (op, true) ∧ IsArith op = true ∧
      ∀ b, arith op (immI inst) (s.gpr (rs1 inst)) b = v := by
  have hshamt : (inst >>> 20 &&& 31).toNat = ((immI inst).extractLsb' 0 5).toNat := by
    have hlow : (immI inst).extractLsb' 0 5 = (inst >>> 20).extractLsb' 0 5 := by
      apply BitVec.eq_of_getLsbD_eq
      intro i hi
      rw [BitVec.getLsbD_extractLsb', BitVec.getLsbD_extractLsb', immI, BitVec.getLsbD_signExtend,
        BitVec.getLsbD_extractLsb', BitVec.getLsbD_ushiftRight]
      simp [hi, show i < 32 by omega, show i < 12 by omega]
    rw [and_31, hlow]
  have h0 := shift_sel_eq inst 0
  have h32 := shift_sel_eq inst 32
  have hnop := nopIfX0_of_ne hrd
  rcases sel_cases (sel inst) with h | h | h | h | h | h | h | h <;> rw [opImmValue, h] at hv
  · refine ⟨.addi, by simp [opImm, funct3_eq, h, hnop], rfl, fun _ => ?_⟩
    rw [← Option.some.inj hv, simm32_eq]
    rfl
  · refine ⟨.slli, by simp [opImm, funct3_eq, h, hnop], rfl, fun _ => ?_⟩
    rw [← Option.some.inj hv, hshamt]
    rfl
  · refine ⟨.slti, by simp [opImm, funct3_eq, h, hnop], rfl, fun _ => ?_⟩
    rw [← Option.some.inj hv, simm32_eq]
    rfl
  · refine ⟨.sltiu, by simp [opImm, funct3_eq, h, hnop], rfl, fun _ => ?_⟩
    rw [← Option.some.inj hv, simm32_eq]
    rfl
  · refine ⟨.xori, by simp [opImm, funct3_eq, h, hnop], rfl, fun _ => ?_⟩
    rw [← Option.some.inj hv, simm32_eq]
    rfl
  · by_cases hs : special inst = 0
    · refine ⟨.srli, by simp [opImm, funct3_eq, funct7_eq, h, hs, hnop], rfl, fun _ => ?_⟩
      rw [← Option.some.inj ((if_pos (h0.mpr hs)).symm.trans hv), hshamt]
      rfl
    · have hv := (if_neg (mt h0.mp hs)).symm.trans hv
      by_cases ha : special inst = 32
      · refine ⟨.srai, by simp [opImm, funct3_eq, funct7_eq, h, ha, hnop], rfl, fun _ => ?_⟩
        rw [← Option.some.inj ((if_pos (h32.mpr ha)).symm.trans hv), hshamt]
        rfl
      · cases (if_neg (mt h32.mp ha)).symm.trans hv
  · refine ⟨.ori, by simp [opImm, funct3_eq, h, hnop], rfl, fun _ => ?_⟩
    rw [← Option.some.inj hv, simm32_eq]
    rfl
  · refine ⟨.andi, by simp [opImm, funct3_eq, h, hnop], rfl, fun _ => ?_⟩
    rw [← Option.some.inj hv, simm32_eq]
    rfl

theorem opReg_value (hrd : rd inst ≠ 0) (hm : funct7 inst ≠ 1) (hv : s.opValue inst = some v) :
    ∃ op, opReg inst = (op, true) ∧ IsArith op = true ∧
      ∀ imm, arith op imm (s.gpr (rs1 inst)) (s.gpr (rs2 inst)) = v := by
  have hnop := nopIfX0_of_ne hrd
  unfold opValue at hv
  simp only [and_31] at hv
  split at hv
  case h_1 h3 h7 =>
      exact ⟨.addu, by simp [opReg, funct3_eq, funct7_eq, h3, h7, hnop], rfl,
        fun _ => Option.some.inj hv⟩
  case h_2 h7 => exact absurd h7 hm
  case h_3 h3 h7 =>
      exact ⟨.subu, by simp [opReg, funct3_eq, funct7_eq, h3, h7, hnop], rfl,
        fun _ => Option.some.inj hv⟩
  case h_4 h3 h7 =>
      exact ⟨.sll, by simp [opReg, funct3_eq, funct7_eq, h3, h7, hnop], rfl,
        fun _ => Option.some.inj hv⟩
  case h_5 h7 => exact absurd h7 hm
  case h_6 h3 h7 =>
      exact ⟨.slt, by simp [opReg, funct3_eq, funct7_eq, h3, h7, hnop], rfl,
        fun _ => Option.some.inj hv⟩
  case h_7 h3 h7 =>
      exact ⟨.sltu, by simp [opReg, funct3_eq, funct7_eq, h3, h7, hnop], rfl,
        fun _ => Option.some.inj hv⟩
  case h_8 h7 => exact absurd h7 hm
  case h_9 h3 h7 =>
      exact ⟨.xor, by simp [opReg, funct3_eq, funct7_eq, h3, h7, hnop], rfl,
        fun _ => Option.some.inj hv⟩
  case h_10 h7 => exact absurd h7 hm
  case h_11 h3 h7 =>
      exact ⟨.srl, by simp [opReg, funct3_eq, funct7_eq, h3, h7, hnop], rfl,
        fun _ => Option.some.inj hv⟩
  case h_12 h7 => exact absurd h7 hm
  case h_13 h3 h7 =>
      exact ⟨.sra, by simp [opReg, funct3_eq, funct7_eq, h3, h7, hnop], rfl,
        fun _ => Option.some.inj hv⟩
  case h_14 h3 h7 =>
      exact ⟨.or, by simp [opReg, funct3_eq, funct7_eq, h3, h7, hnop], rfl,
        fun _ => Option.some.inj hv⟩
  case h_15 h7 => exact absurd h7 hm
  case h_16 h3 h7 =>
      exact ⟨.and, by simp [opReg, funct3_eq, funct7_eq, h3, h7, hnop], rfl,
        fun _ => Option.some.inj hv⟩
  case h_17 h7 => exact absurd h7 hm
  case h_18 => cases hv

/-! ### Writes to `x0` -/

theorem wrIntPrf_of_folds (h : folds u.op = true) (c : Counters) (a b : Word) :
    (Port1.alu c u a b).wrIntPrf = false ∧ (Port2.alu c u a b).wrIntPrf = false := by
  have hop : u.op = .nop ∨ u.op = .j ∨ u.op = .ii := by
    simpa [folds, or_assoc] using h
  rcases hop with h | h | h <;> simp only [Port1.alu, Port2.alu, h] <;> exact ⟨rfl, rfl⟩

theorem folds_ite {c : Prop} [Decidable c] {x y : Opcode × Bool} (hx : folds x.1 = true)
    (hy : folds y.1 = true) : folds (if c then x else y).1 = true := by
  by_cases h : c
  · rwa [if_pos h]
  · rwa [if_neg h]

theorem opImm_folds (hrd : rd inst = 0) : folds (opImm inst).1 = true := by
  simp only [opImm, nopIfX0_of_eq hrd]
  repeat' apply folds_ite
  all_goals rfl

theorem opReg_folds (hrd : rd inst = 0) : folds (opReg inst).1 = true := by
  simp only [opReg, nopIfX0_of_eq hrd]
  repeat' apply folds_ite
  all_goals rfl

/-! ### Results of integer instructions -/

/-- What an integer instruction with a destination is to both sides. -/
structure IntStep (f : InsnFetch) (s s' : Iss) (a b : Word) : Prop where
  isInt : (decodeRiscv f).isInt = true
  cheap : (decodeRiscv f).isCheapInt = true
  dstValid : (decodeRiscv f).dstValid = true
  dst : (decodeRiscv f).dst = (rd f.data).setWidth 6
  value : ∃ v, Computes (decodeRiscv f) a b v ∧ s'.gpr = Function.update s.gpr (rd f.data) v

theorem intStep (hop : IntInsn f.data) (hrd : rd f.data ≠ 0) (hpc : s.pc = f.pc)
    (hsrc : Sources s (decodeRiscv f) a b) (hex : s.execInsn f.data = some s') :
    IntStep f s s' a b := by
  obtain ⟨t, ht, hg, -⟩ := execInsn_eq_some hex
  have hv := bne_of_rd hrd
  have hnop := nopIfX0_of_ne hrd
  cases major f with
  | lui _ hd he =>
      rw [he, Option.some_inj, execLui, if_pos hrd, upper_eq] at ht
      rw [← ht] at hg
      refine ⟨by rw [hd]; rfl, by rw [hd]; rfl, by rw [hd]; exact hv, by rw [hd]; rfl, _, ?_, hg⟩
      rw [hd]
      have ho : (decodeLui f).op = .lui := hnop .lui
      exact .of_arith (by rw [ho]; rfl) (by rw [ho]; rfl)
  | auipc h17 hd he =>
      rw [he, Option.some_inj, execAuipc, if_pos hrd] at ht
      rw [← ht] at hg
      refine ⟨by rw [hd]; rfl, by rw [hd]; rfl, by rw [hd]; exact hv, by rw [hd]; rfl, _, ?_, hg⟩
      rw [hd]
      have ho : (decodeAuipc f).op = .auipc := hnop .auipc
      refine .of_arith (by rw [ho]; rfl) ?_
      rw [ho]
      have hm : (~~~4095 : Word) = 0xfffff000 := by decide
      show f.pc + tImm f.data = s.pc + (f.data &&& ~~~4095)
      rw [hm, upper_eq, hpc, tImm, if_pos h17]
  | opImm _ hd he =>
      rw [he, execOpImm, if_pos hrd] at ht
      obtain ⟨v, hval, rfl⟩ := Option.map_eq_some_iff.mp ht
      obtain ⟨op, ho, hi, hval'⟩ := opImm_value hrd hval
      have ho1 : (decodeOpImm f).op = op := congrArg Prod.fst ho
      rw [hd] at hsrc
      have ha : a = s.gpr (rs1 f.data) := (hsrc.srcA hv).trans (gprOf_setWidth s _)
      refine ⟨by rw [hd]; rfl, by rw [hd]; exact congrArg Prod.snd ho, by rw [hd]; exact hv,
        by rw [hd]; rfl, v, ?_, hg⟩
      rw [hd]
      refine .of_arith (by rw [ho1]; exact hi) ?_
      rw [ho1, ha]
      exact hval' b
  | op _ hd he =>
      have hm : funct7 f.data ≠ 1 := by simp_all [IntInsn]
      rw [he, execOp, if_pos hrd] at ht
      obtain ⟨v, hval, rfl⟩ := Option.map_eq_some_iff.mp ht
      obtain ⟨op, ho, hi, hval'⟩ := opReg_value hrd hm hval
      have ho1 : (decodeOpReg f).op = op := congrArg Prod.fst ho
      rw [hd] at hsrc
      have ha : a = s.gpr (rs1 f.data) := (hsrc.srcA rfl).trans (gprOf_setWidth s _)
      have hb : b = s.gpr (rs2 f.data) := (hsrc.srcB rfl).trans (gprOf_setWidth s _)
      refine ⟨by rw [hd]; rfl, by rw [hd]; exact congrArg Prod.snd ho, by rw [hd]; exact hv,
        by rw [hd]; rfl, v, ?_, hg⟩
      rw [hd]
      refine .of_arith (by rw [ho1]; exact hi) ?_
      rw [ho1, ha, hb]
      exact hval' _
  | _ => simp_all [IntInsn]

/-- With `x0` as destination neither side writes a register. -/
theorem intStep_x0 (hop : IntInsn f.data) (hrd : rd f.data = 0)
    (hex : s.execInsn f.data = some s') : (decodeRiscv f).dstValid = false ∧
      folds (decodeRiscv f).op = true ∧ s'.gpr = s.gpr := by
  obtain ⟨t, ht, hg, -⟩ := execInsn_eq_some hex
  have hv : (rdField f.data != 0) = false := by
    rw [(rdField_eq_zero f.data).mpr hrd]
    rfl
  have hnop := nopIfX0_of_eq hrd
  have hne : ¬ rd f.data ≠ 0 := not_not.mpr hrd
  cases major f with
  | lui _ hd he =>
      rw [he, Option.some_inj, execLui, if_neg hne] at ht
      rw [hd, hg, ← ht]
      exact ⟨hv, congrArg folds (hnop .lui), rfl⟩
  | auipc _ hd he =>
      rw [he, Option.some_inj, execAuipc, if_neg hne] at ht
      rw [hd, hg, ← ht]
      exact ⟨hv, congrArg folds (hnop .auipc), rfl⟩
  | opImm _ hd he =>
      rw [he, execOpImm, if_neg hne, Option.some_inj] at ht
      rw [hd, hg, ← ht]
      exact ⟨hv, opImm_folds hrd, rfl⟩
  | op _ hd he =>
      rw [he, execOp, if_neg hne, Option.some_inj] at ht
      rw [hd, hg, ← ht]
      exact ⟨hv, opReg_folds hrd, rfl⟩
  | _ => simp_all [IntInsn]

/-! ### The two ports agree -/

/-- An operation marked cheap is folded or executed by both ports. -/
theorem onBothPorts_of_cheap (f : InsnFetch) (hc : (decodeRiscv f).isCheapInt = true)
    (hf : folds (decodeRiscv f).op = false) : OnBothPorts (decodeRiscv f).op = true := by
  have h : ∀ k ∈ UopKind.decoded, k.isCheapInt = true → folds k.op = false →
      OnBothPorts k.op = true := by decide
  exact h _ (decodeRiscv_kind f) hc hf

/-- **The ports agree** on every uop that can be sent to either. -/
theorem ports_agree (f : InsnFetch) (hc : (decodeRiscv f).isCheapInt = true)
    (hf : folds (decodeRiscv f).op = false) (c : Counters) (a b : Word) :
    Port1.alu c (decodeRiscv f) a b = Port2.alu c (decodeRiscv f) a b := by
  have h := onBothPorts_of_cheap f hc hf
  rw [Port1.alu_eq_eval _ _ _ _ h, Port2.alu_eq_eval _ _ _ _ h]

theorem folds_of_onBothPorts (h : OnBothPorts u.op = true) : folds u.op = false := by
  revert h
  cases u.op <;> intro h <;> first | rfl | cases h

/-- **Integer results equal the interpreter's.**  An instruction the interpreter executes writes
the same register with the same value on port 1, and on port 2 when it may go there; it writes
none when the destination is `x0`.  The ports agree on every uop that can be sent to either. -/
theorem int_results (c : Counters) (f : InsnFetch) (s s' : Iss) (a b : Word)
    (hop : IntInsn f.data) (hpc : s.pc = f.pc) (hsrc : Sources s (decodeRiscv f) a b)
    (hex : s.execInsn f.data = some s') :
    SameWrite (decodeRiscv f) (Port1.alu c (decodeRiscv f) a b) f.data s s' ∧
      ((decodeRiscv f).isCheapInt = true →
        SameWrite (decodeRiscv f) (Port2.alu c (decodeRiscv f) a b) f.data s s') ∧
      ((decodeRiscv f).dstValid = true ↔ rd f.data ≠ 0) ∧
      (rd f.data ≠ 0 → (decodeRiscv f).isInt = true ∧ folds (decodeRiscv f).op = false) ∧
      ∀ g x y, (decodeRiscv g).isInt = true → (decodeRiscv g).isCheapInt = true →
        folds (decodeRiscv g).op = false →
          Port1.alu c (decodeRiscv g) x y = Port2.alu c (decodeRiscv g) x y := by
  by_cases hrd : rd f.data = 0
  · obtain ⟨hv, hf, hg⟩ := intStep_x0 hop hrd hex
    have hw := wrIntPrf_of_folds hf c a b
    refine ⟨.of_none hv hw.1 hg, fun _ => .of_none hv hw.2 hg, ?_, fun h => absurd hrd h,
      fun g x y _ hc hf => ports_agree g hc hf c x y⟩
    rw [hv]
    exact iff_of_false (by decide) (not_not.mpr hrd)
  · have h := intStep hop hrd hpc hsrc hex
    obtain ⟨v, hv, hg⟩ := h.value
    refine ⟨?_, fun _ => ?_, iff_of_true h.dstValid hrd,
      fun _ => ⟨h.isInt, folds_of_onBothPorts hv.both⟩,
      fun g x y _ hc hf => ports_agree g hc hf c x y⟩
    · rw [hv.port1 c]
      exact .of_value h.dstValid h.dst hg
    · rw [hv.port2 c]
      exact .of_value h.dstValid h.dst hg

/-- `addi x1, x0, 1` from the initial state. -/
theorem int_results_addi :
    SameWrite (decodeRiscv ⟨0x00100093, 0, 0, false, 0⟩)
      (Port1.alu ⟨0, 0, 0, 0⟩ (decodeRiscv ⟨0x00100093, 0, 0, false, 0⟩) 0 0) 0x00100093 initState
      ((initState.setGpr 1 1).skip.counted) :=
  (int_results ⟨0, 0, 0, 0⟩ ⟨0x00100093, 0, 0, false, 0⟩ initState _ 0 0
    (.inr (.inr (.inl (by decide)))) rfl ⟨fun _ => rfl, fun h => by cases h⟩ rfl).1

end Rv32Core
