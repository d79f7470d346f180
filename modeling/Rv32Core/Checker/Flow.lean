import Rv32Core.Checker.Results

/-! # Control flow

The next pc and the link of branches, JAL and JALR against the interpreter's.  They agree except
that the core keeps the low bit of an indirect target. -/

namespace Rv32Core

open Iss
open Rv32Core.Core (folds)

variable {u : Uop} {inst : Word} {s s' : Iss} {c : Counters} {f : InsnFetch} {a b v : Word}

/-! ### Jumps and branches -/

/-- Branches with a legal `funct3`, JAL and JALR. -/
def FlowInsn (inst : Word) : Prop :=
  opcodeField inst = 0x63 ∧ funct3 inst ≠ 2 ∧ funct3 inst ≠ 3 ∨
    opcodeField inst = 0x6f ∨ opcodeField inst = 0x67

/-- The core and the interpreter agree on a jump or branch: the next pc that a folded jump
carries, or that either port resolves, is the interpreter's, and so is the link. -/
def FlowAgrees (c : Counters) (f : InsnFetch) (s : Iss) (a b : Word) : Prop :=
  ∃ s', s.execInsn f.data = some s' ∧
    (if (decodeRiscv f).op = .j then (decodeRiscv f).rvimm = s'.pc
      else (Port1.alu c (decodeRiscv f) a b).pc = s'.pc ∧
        (Port2.alu c (decodeRiscv f) a b).pc = s'.pc) ∧
    SameWrite (decodeRiscv f) (Port1.alu c (decodeRiscv f) a b) f.data s s' ∧
    SameWrite (decodeRiscv f) (Port2.alu c (decodeRiscv f) a b) f.data s s'

/-- For an operation of both ports, with the right write, what is left is the next pc. -/
theorem flowAgrees_iff (hboth : OnBothPorts (decodeRiscv f).op = true)
    (hex : s.execInsn f.data = some s')
    (hw : SameWrite (decodeRiscv f) ((decodeRiscv f).eval c a b) f.data s s') :
    FlowAgrees c f s a b ↔ ((decodeRiscv f).eval c a b).pc = s'.pc := by
  have hj : (decodeRiscv f).op ≠ .j := by
    intro h
    rw [h] at hboth
    cases hboth
  rw [FlowAgrees, Port1.alu_eq_eval c _ a b hboth, Port2.alu_eq_eval c _ a b hboth]
  constructor
  · rintro ⟨t, ht, hp, -⟩
    rw [hex, Option.some_inj] at ht
    rw [if_neg hj] at hp
    rw [ht]
    exact hp.1
  · intro hp
    exact ⟨s', hex, by rw [if_neg hj]; exact ⟨hp, hp⟩, hw, hw⟩

theorem SameWrite.of_link {target : Word} {mispred : Bool} (hv : u.dstValid = true)
    (hd : u.dst = (rd inst).setWidth 6) (hpc : s.pc = u.pc)
    (hs : s'.gpr = Function.update s.gpr (rd inst) (s.pc + 4)) :
    SameWrite u (Alu.jump u target mispred true) inst s s' := by
  rw [SameWrite, if_pos hv]
  refine ⟨rfl, hd, ?_⟩
  rw [hs, hpc]
  rfl

theorem tImm_branch (hop : opcodeField inst = 0x63) : tImm inst = immB inst := by
  simp [tImm, hop]

theorem tImm_jal (hop : opcodeField inst = 0x6f) : tImm inst = immJ inst := by
  simp [tImm, hop]

theorem branch_taken (h2 : sel f.data ≠ 2) (h3 : sel f.data ≠ 3)
    (ha : a = s.gpr (rs1 f.data)) (hb : b = s.gpr (rs2 f.data)) :
    s.takeBranch f.data = some (taken (decodeBranch f).op a b) ∧
      OnBothPorts (decodeBranch f).op = true ∧
      ∀ c, (decodeBranch f).eval c a b =
        Alu.branch (decodeBranch f) (taken (decodeBranch f).op a b) := by
  have key : ∀ op, (decodeBranch f).op = op →
      op ∈ [Opcode.beq, .bne, .blt, .bge, .bltu, .bgeu] →
      s.takeBranch f.data = some (taken op a b) → s.takeBranch f.data =
        some (taken (decodeBranch f).op a b) ∧ OnBothPorts (decodeBranch f).op = true ∧
        ∀ c, (decodeBranch f).eval c a b =
          Alu.branch (decodeBranch f) (taken (decodeBranch f).op a b) := by
    intro op ho hm ht
    simp only [List.mem_cons, List.not_mem_nil, or_false] at hm
    refine ⟨by rw [ho]; exact ht, ?_, fun c => ?_⟩ <;> simp only [Uop.eval, ho]
    all_goals rcases hm with rfl | rfl | rfl | rfl | rfl | rfl <;> rfl
  rcases sel_cases (sel f.data) with h | h | h | h | h | h | h | h
  · exact key .beq (by simp [decodeBranch, funct3_eq, h]) (by decide)
      (by rw [takeBranch, h, ha, hb]; rfl)
  · exact key .bne (by simp [decodeBranch, funct3_eq, h]) (by decide)
      (by rw [takeBranch, h, ha, hb]; rfl)
  · exact absurd h h2
  · exact absurd h h3
  · exact key .blt (by simp [decodeBranch, funct3_eq, h]) (by decide)
      (by rw [takeBranch, h, ha, hb]; rfl)
  · exact key .bge (by simp [decodeBranch, funct3_eq, h]) (by decide)
      (by rw [takeBranch, h, ha, hb, BitVec.sle_eq_not_slt]; rfl)
  · exact key .bltu (by simp [decodeBranch, funct3_eq, h]) (by decide)
      (by rw [takeBranch, h, ha, hb]; rfl)
  · exact key .bgeu (by simp [decodeBranch, funct3_eq, h]) (by decide)
      (by rw [takeBranch, h, ha, hb, BitVec.ule_eq_not_ult]; rfl)

theorem flow_branch (hop : opcodeField f.data = 0x63) (hf2 : funct3 f.data ≠ 2)
    (hf3 : funct3 f.data ≠ 3) (hpc : s.pc = f.pc) (hsrc : Sources s (decodeRiscv f) a b) :
    FlowAgrees c f s a b := by
  cases major f with
  | branch _ hd he =>
      rw [hd] at hsrc
      have ha : a = s.gpr (rs1 f.data) := (hsrc.srcA rfl).trans (gprOf_setWidth s _)
      have hb : b = s.gpr (rs2 f.data) := (hsrc.srcB rfl).trans (gprOf_setWidth s _)
      obtain ⟨ht, hboth, hev⟩ := branch_taken (s := { s with lastPc := s.pc }) hf2 hf3 ha hb
      have hex := execInsn_of_switch (s := s) ((he _).trans (congrArg (Option.map _) ht))
      rw [flowAgrees_iff (by rw [hd]; exact hboth) hex] <;> rw [hd, hev]
      · show (if _ then f.pc + tImm f.data else f.pc + 4) = if _ then branchDisp f.data + s.pc
          else s.pc + 4
        rw [tImm_branch hop, branchDisp_eq, hpc, BitVec.add_comm f.pc]
      · exact .of_none rfl rfl rfl
  | _ => simp_all

theorem flow_jal (hop : opcodeField f.data = 0x6f) (hpc : s.pc = f.pc) :
    FlowAgrees c f s a b := by
  cases major f with
  | jal _ hd he =>
      have hex := execInsn_of_switch (s := s) (he _)
      have hpcs : wPcImm f.pc f.data = s.pc + jaddr f.data := by
        rw [wPcImm, tImm_jal hop, jaddr_eq, hpc]
      by_cases hrd : rd f.data = 0
      · have hr : rdField f.data = 0 := (rdField_eq_zero _).mpr hrd
        have ho : (decodeJal f).op = .j := if_pos hr
        have hv : (decodeJal f).dstValid = false := by simp [decodeJal, hr]
        have hw := wrIntPrf_of_folds (u := decodeJal f) (by rw [ho]; rfl) c a b
        rw [execJal, if_neg (not_not.mpr hrd)] at hex
        refine ⟨_, hex, ?_⟩
        rw [hd, if_pos ho]
        exact ⟨hpcs, .of_none hv hw.1 rfl, .of_none hv hw.2 rfl⟩
      · have hr : rdField f.data ≠ 0 := fun h => hrd ((rdField_eq_zero _).mp h)
        have ho : (decodeJal f).op = .jal := if_neg hr
        rw [execJal, if_pos hrd] at hex
        rw [flowAgrees_iff (by rw [hd, ho]; rfl) hex] <;> rw [hd, Uop.eval, ho]
        · exact hpcs
        · exact .of_link (bne_of_rd hrd) (if_neg hr) hpc rfl
  | _ => simp_all

/-- The target of an indirect jump: the interpreter clears its low bit. -/
theorem flow_jalr (hop : opcodeField f.data = 0x67) (hpc : s.pc = f.pc)
    (hsrc : Sources s (decodeRiscv f) a b) :
    FlowAgrees c f s a b ↔ (a + immI f.data).getLsbD 0 = false := by
  cases major f with
  | jalr _ hd he =>
      have hex := execInsn_of_switch (s := s) (he _)
      rw [hd] at hsrc
      have ha : a = s.gpr (rs1 f.data) := (hsrc.srcA rfl).trans (gprOf_setWidth s _)
      have hpcs : a + immI f.data = ((disp12 f.data + s.gpr (rs1 f.data)) &&& ~~~1) ↔
          (a + immI f.data).getLsbD 0 = false := by
        rw [disp12_eq, ← ha, BitVec.add_comm (immI f.data), eq_comm]
        exact Bits.and_not_one_eq_iff _
      by_cases hrd : rd f.data = 0
      · have hr : rdField f.data = 0 := (rdField_eq_zero _).mpr hrd
        have hv : (decodeJalr f).dstValid = false := by simp [decodeJalr, hr]
        have ho : (decodeJalr f).op = .ret ∨ (decodeJalr f).op = .jr := by
          cases hl : isLink (rs1Field f.data) <;> simp [decodeJalr, hr, hl]
        rw [execJalr, if_neg (not_not.mpr hrd)] at hex
        rcases ho with ho | ho <;>
          rw [flowAgrees_iff (by rw [hd, ho]; rfl) hex] <;> rw [hd, Uop.eval, ho]
        · exact hpcs
        · exact .of_none hv rfl rfl
        · exact hpcs
        · exact .of_none hv rfl rfl
      · have hr : rdField f.data ≠ 0 := fun h => hrd ((rdField_eq_zero _).mp h)
        have ho : (decodeJalr f).op = .jalr := if_neg hr
        rw [execJalr, if_pos hrd] at hex
        rw [flowAgrees_iff (by rw [hd, ho]; rfl) hex] <;> rw [hd, Uop.eval, ho]
        · exact hpcs
        · exact .of_link (bne_of_rd hrd) (if_neg hr) hpc rfl
  | _ => simp_all

/-- **Control flow equals the interpreter's, but for odd indirect targets.**  The next pc and the
link agree for every branch, JAL and JALR, except that the core does not clear the low bit of the
target of a JALR. -/
theorem flow_agrees_iff (c : Counters) (f : InsnFetch) (s : Iss) (a b : Word)
    (hop : FlowInsn f.data) (hpc : s.pc = f.pc) (hsrc : Sources s (decodeRiscv f) a b) :
    FlowAgrees c f s a b ↔
      ¬ (opcodeField f.data = 0x67 ∧ (a + immI f.data).getLsbD 0 = true) := by
  rcases hop with ⟨hop, h2, h3⟩ | hop | hop
  · refine iff_of_true (flow_branch hop h2 h3 hpc hsrc) fun h => ?_
    rw [hop] at h
    cases h.1
  · refine iff_of_true (flow_jal hop hpc) fun h => ?_
    rw [hop] at h
    cases h.1
  · rw [flow_jalr hop hpc hsrc]
    simp [hop]

/-- `jalr x1, 8(x2)` at 64, with 256 in `x2`: an even target. -/
theorem flow_agrees_jalr : FlowAgrees ⟨0, 0, 0, 0⟩ ⟨0x008100e7, 64, 0, false, 0⟩
    { initState.setGpr 2 256 with pc := 64 } 256 0 :=
  (flow_agrees_iff ⟨0, 0, 0, 0⟩ ⟨0x008100e7, 64, 0, false, 0⟩
    { initState.setGpr 2 256 with pc := 64 } 256 0 (.inr (.inr (by decide))) rfl
    ⟨fun _ => rfl, fun h => by cases h⟩).mpr (by decide)

/-- `jalr x1, 1(x0)`: the core goes to 1, the interpreter to 0. -/
theorem jalr_odd : ¬ FlowAgrees ⟨0, 0, 0, 0⟩ ⟨0x001000e7, 0, 0, false, 0⟩ initState 0 0 := by
  rintro ⟨s', hex, hp, -⟩
  obtain rfl := Option.some.inj hex
  exact absurd hp.1 (by decide)

end Rv32Core
