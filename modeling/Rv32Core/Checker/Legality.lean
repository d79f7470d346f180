import Rv32Core.Checker.Words

/-! # Legality

Which words the core faults as illegal, and which the interpreter rejects: the same, except that
the interpreter does not look at the selector of an instruction that writes `x0`. -/

namespace Rv32Core

open Iss
open Rv32Core.Core (folds)

variable {u : Uop} {inst : Word} {s s' : Iss} {c : Counters} {f : InsnFetch} {a b v : Word}

/-! ### Legality -/

/-- The core raises the illegal-instruction fault: the decoder yields `II`, or the uop is sent to
a port that does not know it. -/
def RtlIllegal (c : Counters) (f : InsnFetch) (a b : Word) : Prop :=
  (decodeRiscv f).op = .ii ∨
    (decodeRiscv f).isInt = true ∧ folds (decodeRiscv f).op = false ∧
      (Port1.alu c (decodeRiscv f) a b).unimpOp = true ∧
      (decodeRiscv f).op ≠ .brk ∧ (decodeRiscv f).op ≠ .monitor

/-- The operations port 1 has a case for. -/
def OnPort1 (op : Opcode) : Bool :=
  OnBothPorts op || usesMul op || usesDiv op ||
    op ∈ [.rdinstret, .rdinstreth, .rdbranch, .rdfaultedbranch]

theorem unimpOp_eq (c : Counters) (u : Uop) (a b : Word) :
    (Port1.alu c u a b).unimpOp = !OnPort1 u.op := by
  unfold Port1.alu
  cases u.op <;> rfl

/-- `BREAK` and `MONITOR`. -/
def Traps : Opcode → Bool
  | .brk | .monitor => true
  | _ => false

/-- The operations of integer uops: folded, executed by port 1, or trapping. -/
def Decoded (op : Opcode) : Bool := folds op || OnPort1 op || Traps op

theorem decoded_of_isInt (f : InsnFetch) (h : (decodeRiscv f).isInt = true) :
    Decoded (decodeRiscv f).op = true := by
  have hk : ∀ k ∈ UopKind.decoded, k.isInt = true → Decoded k.op = true := by decide
  exact hk _ (decodeRiscv_kind f) h

/-- No uop is sent to port 1 without a case for it, `BREAK` and `MONITOR` apart. -/
theorem rtlIllegal_iff : RtlIllegal c f a b ↔ (decodeRiscv f).op = .ii := by
  constructor
  · rintro (h | ⟨hi, hf, hu, hb, hm⟩)
    · exact h
    · have h : Decoded (decodeRiscv f).op = true := decoded_of_isInt f hi
      rw [unimpOp_eq, Bool.not_eq_true'] at hu
      rw [Decoded, hf, hu, Bool.false_or, Bool.false_or] at h
      revert h
      cases ho : (decodeRiscv f).op <;> intro h <;>
        first | exact absurd ho hb | exact absurd ho hm | cases h
  · exact .inl

/-! ### Illegal selectors -/

theorem nopIfX0_ne_ii {op : Opcode} (h : op ≠ .ii) (r : PrfPtr) : nopIfX0 r op ≠ .ii := by
  by_cases hr : r = 0
  · rw [nopIfX0, if_pos hr]
    decide
  · rwa [nopIfX0, if_neg hr]

theorem load_ii_iff (f : InsnFetch) :
    (decodeLoad f).op = .ii ↔ funct3 f.data = 3 ∨ funct3 f.data = 6 ∨ funct3 f.data = 7 := by
  rcases sel_cases (funct3 f.data) with h | h | h | h | h | h | h | h <;> simp [decodeLoad, h]

theorem loadValue_none_iff (ea : ℕ) :
    s.loadValue inst ea = none ↔ funct3 inst = 3 ∨ funct3 inst = 6 ∨ funct3 inst = 7 := by
  rw [funct3_eq, loadValue]
  rcases sel_cases (sel inst) with h | h | h | h | h | h | h | h <;> simp [h]

theorem store_none_iff : s.execStore inst = none ↔
    (decodeStore ⟨inst, 0, 0, false, 0⟩).op = .ii := by
  rw [execStore]
  rcases sel_cases (sel inst) with h | h | h | h | h | h | h | h <;>
    simp [decodeStore, funct3_eq, h]

theorem branch_none_iff : s.takeBranch inst = none ↔
    (decodeBranch ⟨inst, 0, 0, false, 0⟩).op = .ii := by
  rw [takeBranch]
  rcases sel_cases (sel inst) with h | h | h | h | h | h | h | h <;>
    simp [decodeBranch, funct3_eq, h]

theorem opImm_ii_iff : (opImm inst).1 = .ii ↔
    funct3 inst = 5 ∧ funct7 inst ≠ 0 ∧ funct7 inst ≠ 0x20 := by
  have hne := fun op (h : op ≠ Opcode.ii) => nopIfX0_ne_ii h (rdField inst)
  rcases sel_cases (funct3 inst) with h | h | h | h | h | h | h | h
  case inr.inr.inr.inr.inr.inl =>
    by_cases h0 : funct7 inst = 0#7
    · simp [opImm, h, h0, hne]
    · by_cases h32 : funct7 inst = 32#7 <;> simp [opImm, h, h0, h32, hne]
  all_goals simp [opImm, h, hne]

theorem opImmValue_none_iff : s.opImmValue inst = none ↔
    funct3 inst = 5 ∧ funct7 inst ≠ 0 ∧ funct7 inst ≠ 0x20 := by
  have h0 : inst >>> 25 &&& 127 = 0 ↔ special inst = 0 := shift_sel_eq inst 0
  have h32 : inst >>> 25 &&& 127 = 32 ↔ special inst = 32 := shift_sel_eq inst 32
  rw [opImmValue, funct3_eq, funct7_eq]
  rcases sel_cases (sel inst) with h | h | h | h | h | h | h | h <;> simp only [h]
  case inr.inr.inr.inr.inr.inl =>
    simp only [h0, h32]
    by_cases hs : special inst = 0
    · simp [hs]
    · by_cases ha : special inst = 32
      · simp [ha]
      · rw [if_neg hs, if_neg ha]
        exact iff_of_true rfl ⟨rfl, hs, ha⟩
  all_goals simp

/-- The selectors of the register-register instructions. -/
def LegalOp (f3 : BitVec 3) (f7 : BitVec 7) : Prop :=
  f7 = 0 ∨ f7 = 1 ∧ f3 ≠ 2 ∨ f7 = 0x20 ∧ (f3 = 0 ∨ f3 = 5)

instance (f3 : BitVec 3) (f7 : BitVec 7) : Decidable (LegalOp f3 f7) := by
  unfold LegalOp
  infer_instance

theorem opReg_ii_iff : (opReg inst).1 = .ii ↔ ¬ LegalOp (funct3 inst) (funct7 inst) := by
  have hne := fun op (h : op ≠ Opcode.ii) => nopIfX0_ne_ii h (rdField inst)
  have h7 : funct7 inst = 0#7 ∨ funct7 inst = 1#7 ∨ funct7 inst = 32#7 ∨
      funct7 inst ≠ 0#7 ∧ funct7 inst ≠ 1#7 ∧ funct7 inst ≠ 32#7 := by tauto
  rcases sel_cases (funct3 inst) with h | h | h | h | h | h | h | h <;>
    rcases h7 with h7 | h7 | h7 | ⟨h7, h7', h7''⟩ <;>
    simp [opReg, LegalOp, *]

/-- A word of the M extension whose operator the interpreter applies to two `int32_t`. -/
def SignedDivision (inst : Word) : Prop := special inst = 1 ∧ (sel inst = 4 ∨ sel inst = 6)

theorem SignedDivision.legal (h : SignedDivision inst) : LegalOp (funct3 inst) (funct7 inst) := by
  refine .inr (.inl ⟨h.1, ?_⟩)
  rw [funct3_eq]
  obtain hs | hs := h.2 <;> rw [hs] <;> decide

theorem opValue_of_signed (h : SignedDivision inst) : s.opValue inst = none ↔
    (s.gpr (rs1 inst)).sdivOverflow (s.gpr (rs2 inst)) = true := by
  have hzero : ∀ a : Word, a.sdivOverflow 0 = false := fun a => by
    rw [BitVec.sdivOverflow_eq, show decide ((0 : Word) = BitVec.allOnes 32) = false by decide]
    simp
  obtain ⟨h1, h4 | h6⟩ := h
  all_goals
    unfold opValue
    simp only [*]
    split_ifs <;> simp_all

theorem opValue_none_iff : s.opValue inst = none ↔ ¬LegalOp (funct3 inst) (funct7 inst) ∨
    SignedDivision inst ∧ (s.gpr (rs1 inst)).sdivOverflow (s.gpr (rs2 inst)) = true := by
  by_cases hd : SignedDivision inst
  · rw [opValue_of_signed hd]
    simp [hd, hd.legal]
  have hsome : ∀ {v : Word} {p : Prop}, p → (some v = none ↔ ¬ p) := fun hp =>
    iff_of_false (fun h => by cases h) (not_not.mpr hp)
  rw [funct3_eq, funct7_eq, or_iff_left fun h => hd h.1]
  unfold opValue
  unfold SignedDivision at hd
  generalize sel inst = x at hd ⊢
  generalize special inst = y at hd ⊢
  split
  case h_10 => exact absurd ⟨rfl, .inl rfl⟩ hd
  case h_15 => exact absurd ⟨rfl, .inr rfl⟩ hd
  case h_18 =>
    refine iff_of_true rfl ?_
    rintro (rfl | ⟨rfl, hx⟩ | ⟨rfl, rfl | rfl⟩)
    · rcases sel_cases x with rfl | rfl | rfl | rfl | rfl | rfl | rfl | rfl <;> simp_all
    · rcases sel_cases x with rfl | rfl | rfl | rfl | rfl | rfl | rfl | rfl <;> simp_all
    · simp_all
    · simp_all
  all_goals exact hsome (by decide)

/-! ### Agreement on legality -/

/-- A selector without a meaning in a load, an OP-IMM or an OP instruction. -/
def IllegalSelect (inst : Word) : Prop :=
  opcodeField inst = 0x03 ∧ (funct3 inst = 3 ∨ funct3 inst = 6 ∨ funct3 inst = 7) ∨
  opcodeField inst = 0x13 ∧ (funct3 inst = 5 ∧ funct7 inst ≠ 0 ∧ funct7 inst ≠ 0x20) ∨
  opcodeField inst = 0x33 ∧ ¬ LegalOp (funct3 inst) (funct7 inst)

/-- One side skips its check when `b` holds. -/
theorem skip_iff {p b : Prop} : ((p ↔ ¬ b ∧ p) ↔ ¬ (b ∧ p)) := by tauto

theorem execInsn_none_iff : s.execInsn inst = none ↔
    execSwitch inst { s with lastPc := s.pc } = none := Option.map_eq_none_iff

theorem rejects_iff_of_ne (h : opcodeField inst ≠ 0x33) : s.Rejects inst ↔
    execSwitch inst { s with lastPc := s.pc } = none := by
  rw [Rejects, execInsn_none_iff]
  exact and_iff_left fun hk => h hk.1

theorem rejects_op (h : opcodeField inst = 0x33) : s.Rejects inst ↔
    ¬rd inst = 0 ∧ ¬LegalOp (funct3 inst) (funct7 inst) := by
  have harm : execSwitch inst { s with lastPc := s.pc } = execOp inst { s with lastPc := s.pc } :=
    congrArg (switchArm inst _) h
  rw [Rejects, execInsn_none_iff, harm, execOp]
  by_cases hrd : rd inst = 0
  · simp [hrd]
  · rw [if_pos hrd, Option.map_eq_none_iff, opValue_none_iff]
    constructor
    · rintro ⟨hl | ⟨⟨h1, hs⟩, ho⟩, hk⟩
      · exact ⟨hrd, hl⟩
      · exact absurd ⟨h, hrd, h1, hs, ho⟩ hk
    · rintro ⟨-, hl⟩
      exact ⟨.inl hl, fun hk => hl (SignedDivision.legal ⟨hk.2.2.1, hk.2.2.2.1⟩)⟩

theorem agree_of_legal {p : Prop} (h : ¬ IllegalSelect inst) (hu : u.op ≠ .ii) (t : Iss) :
    (u.op = .ii ↔ some t = none) ↔ ¬ (p ∧ IllegalSelect inst) :=
  iff_of_true (iff_of_false hu fun hn => by cases hn) fun hi => h hi.2

theorem not_illegalSelect (h3 : opcodeField inst ≠ 0x03) (h13 : opcodeField inst ≠ 0x13)
    (h33 : opcodeField inst ≠ 0x33) : ¬ IllegalSelect inst := by
  rintro (⟨h, -⟩ | ⟨h, -⟩ | ⟨h, -⟩)
  · exact h3 h
  · exact h13 h
  · exact h33 h

theorem decodeSystem_ne_ii (f : InsnFetch) : (decodeSystem f).op ≠ .ii := by
  have h : ∀ k ∈ UopKind.system, k.op ≠ .ii := by decide
  exact h _ (decodeSystem_kind f)

theorem decodeJalr_ne_ii (f : InsnFetch) : (decodeJalr f).op ≠ .ii := by
  have h : ∀ k ∈ UopKind.jalr, k.op ≠ .ii := by decide
  exact h _ (decodeJalr_kind f)

theorem decodeJal_ne_ii (f : InsnFetch) : (decodeJal f).op ≠ .ii := by
  have h : ∀ k ∈ UopKind.jal, k.op ≠ .ii := by decide
  exact h _ (decodeJal_kind f)

/-- **Legality equals the interpreter's, but for instructions that write `x0`.**  For those the
interpreter does not look at the selector. -/
theorem legality_agrees_iff (c : Counters) (f : InsnFetch) (s : Iss) (a b : Word) :
    (RtlIllegal c f a b ↔ s.Rejects f.data) ↔
      ¬ (rd f.data = 0 ∧ IllegalSelect f.data) := by
  rw [rtlIllegal_iff]
  by_cases h33 : opcodeField f.data = 0x33
  · have hs : IllegalSelect f.data ↔ ¬LegalOp (funct3 f.data) (funct7 f.data) := by
      simp [IllegalSelect, h33]
    have hd : decodeRiscv f = decodeOpReg f := by simp [decodeRiscv, h33]
    rw [hd, hs, rejects_op h33]
    show ((opReg f.data).1 = .ii ↔ _) ↔ _
    rw [opReg_ii_iff]
    exact skip_iff
  rw [rejects_iff_of_ne h33]
  cases major f with
  | load hop hd he =>
      have hs : IllegalSelect f.data ↔
          funct3 f.data = 3 ∨ funct3 f.data = 6 ∨ funct3 f.data = 7 := by
        simp [IllegalSelect, hop]
      have hi : execLoad f.data { s with lastPc := s.pc } = none ↔ ¬ rd f.data = 0 ∧
          (funct3 f.data = 3 ∨ funct3 f.data = 6 ∨ funct3 f.data = 7) := by
        rw [execLoad]
        by_cases hrd : rd f.data = 0
        · simp [hrd]
        · simp only [ne_eq, hrd, not_false_eq_true, if_true, Option.map_eq_none_iff,
            loadValue_none_iff, true_and]
      rw [hd, he, hi, hs, load_ii_iff]
      exact skip_iff
  | opImm hop hd he =>
      have hs : IllegalSelect f.data ↔
          funct3 f.data = 5 ∧ funct7 f.data ≠ 0 ∧ funct7 f.data ≠ 0x20 := by
        simp [IllegalSelect, hop]
      have hi : execOpImm f.data { s with lastPc := s.pc } = none ↔ ¬ rd f.data = 0 ∧
          (funct3 f.data = 5 ∧ funct7 f.data ≠ 0 ∧ funct7 f.data ≠ 0x20) := by
        rw [execOpImm]
        by_cases hrd : rd f.data = 0
        · simp [hrd]
        · simp only [ne_eq, hrd, not_false_eq_true, if_true, Option.map_eq_none_iff,
            opImmValue_none_iff, true_and]
      rw [hd, he, hi, hs]
      show ((opImm f.data).1 = .ii ↔ _) ↔ _
      rw [opImm_ii_iff]
      exact skip_iff
  | op hop _ _ => exact absurd hop h33
  | store hop hd he =>
      rw [hd, he, store_none_iff]
      exact iff_of_true Iff.rfl fun h => not_illegalSelect (by rw [hop]; decide)
        (by rw [hop]; decide) (by rw [hop]; decide) h.2
  | branch hop hd he =>
      rw [hd, he, execBranch, Option.map_eq_none_iff, branch_none_iff]
      exact iff_of_true Iff.rfl fun h => not_illegalSelect (by rw [hop]; decide)
        (by rw [hop]; decide) (by rw [hop]; decide) h.2
  | other hop hd he =>
      rw [hd, he]
      refine iff_of_true (iff_of_true rfl rfl) fun h => not_illegalSelect ?_ ?_ ?_ h.2 <;>
        intro h' <;> rw [h'] at hop <;> exact hop (by decide)
  | fence hop hd he | auipc hop hd he | lui hop hd he | jalr hop hd he | jal hop hd he
  | system hop hd he =>
      rw [hd, he]
      apply agree_of_legal (not_illegalSelect (by rw [hop]; decide) (by rw [hop]; decide)
        (by rw [hop]; decide))
      first
      | exact decodeSystem_ne_ii f
      | exact decodeJalr_ne_ii f
      | exact decodeJal_ne_ii f
      | exact nopIfX0_ne_ii (by decide) _
      | exact fun h => by cases h

/-- `ld x0, 0(x0)`, a load with `funct3` 3: the core faults, the interpreter goes on. -/
theorem illegal_x0 : ¬ (RtlIllegal ⟨0, 0, 0, 0⟩ ⟨0x00003003, 0, 0, false, 0⟩ 0 0 ↔
    initState.Rejects 0x00003003) := by
  intro h
  have hd : (decodeRiscv ⟨0x00003003, 0, 0, false, 0⟩).op = .ii := by decide
  cases (h.mp (.inl hd)).1

end Rv32Core
