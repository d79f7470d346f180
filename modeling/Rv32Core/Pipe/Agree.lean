import Rv32Core.Pipe.Next

/-! # One instruction on both sides

A retired instruction against the interpreter's step on the same word, from the same registers and
pc.  The interpreter takes the step, and it goes to the pc behind the instruction with the register
that the instruction wrote, except in the six cases of `Differs`: an indirect jump to an odd
target, some divisions by zero, the division that kills the interpreter, a load that read something
else than the memory of the interpreter, a counter, and a breakpoint. -/

namespace Rv32Core

open Iss
open Rv32Core.Core (folds)
open Rename (wrote)

/-- The interpreter in the state `s` does something else with the word `inst` than the core did when
it executed it as `y`. -/
inductive Differs (s : Iss) (inst : Word) (y : RetiredUop) : Prop
  | jump (hop : opcodeField inst = 0x67) (h : (s.gpr (rs1 inst) + immI inst).getLsbD 0 = true)
  | division (hop : usesDiv y.uop.op = true)
      (h : ¬DivisionAgrees y.uop.op (s.gpr (rs1 inst)) (s.gpr (rs2 inst)))
  | killed (h : s.Killed inst)
  | load (hop : opcodeField inst = 0x03) (hrd : rd inst ≠ 0)
      (h : s.loadValue inst (disp12 inst + s.gpr (rs1 inst)).toNat ≠ some y.result)
  | counter (r : ArchReg) (hop : opcodeField inst = 0x73) (hd : y.dst = some r)
      (h : s.gpr r ≠ y.result)
  | brk (hop : opcodeField inst = 0x73) (h : inst.extractLsb' 7 25 = 0)

/-- The interpreter is where the instruction goes, and has the register that it wrote. -/
structure Tracks (t : Iss) (g : ArchReg → Word) (y : RetiredUop) : Prop where
  pc : t.pc = y.next
  gpr : t.gpr = wrote y.dst y.result g

/-- The core has executed the word `f` as `y` on the registers of the interpreter, which is at its
pc. -/
structure Executed (s : Iss) (f : InsnFetch) (y : RetiredUop) : Prop where
  uop : y.uop = decodeRiscv f
  pc : s.pc = f.pc
  runs : y.RunsOn s.gpr
  legal : (decodeRiscv f).op ≠ .ii

variable {s t : Iss} {f : InsnFetch} {y : RetiredUop} {a b v : Word}

/-! ### Legal words -/

theorem Iss.Killed.stops (h : s.Killed f.data) : s.execInsn f.data = none := by
  obtain ⟨hop, hrd, h1, hs, ho⟩ := h
  have harm : execSwitch f.data { s with lastPc := s.pc } =
      execOp f.data { s with lastPc := s.pc } := congrArg (switchArm f.data _) hop
  rw [execInsn_none_iff, harm, execOp, if_pos hrd, Option.map_eq_none_iff]
  exact opValue_none_iff.mpr (.inr ⟨⟨h1, hs⟩, ho⟩)

/-- The interpreter ends only where the decoder rejects the word, or by the signal. -/
theorem illegal_of_none (hk : ¬s.Killed f.data) (h : s.execInsn f.data = none) :
    (decodeRiscv f).op = .ii := by
  rw [execInsn_none_iff] at h
  cases major f with
  | load _ hd he =>
      rw [he, execLoad] at h
      split_ifs at h
      rw [hd]
      exact (load_ii_iff f).mpr ((loadValue_none_iff _).mp (Option.map_eq_none_iff.mp h))
  | opImm _ hd he =>
      rw [he, execOpImm] at h
      split_ifs at h
      rw [hd]
      exact opImm_ii_iff.mpr (opImmValue_none_iff.mp (Option.map_eq_none_iff.mp h))
  | op hop hd _ =>
      rw [hd]
      exact opReg_ii_iff.mpr ((rejects_op hop).mp ⟨execInsn_none_iff.mpr h, hk⟩).2
  | store _ hd he =>
      rw [he] at h
      rw [hd]
      exact store_none_iff.mp h
  | branch _ hd he =>
      rw [he, execBranch] at h
      rw [hd]
      exact branch_none_iff.mp (Option.map_eq_none_iff.mp h)
  | other _ hd _ =>
      rw [hd]
      rfl
  | fence _ _ he | auipc _ _ he | lui _ _ he | jalr _ _ he | jal _ _ he | system _ _ he =>
      rw [he] at h
      cases h

theorem Executed.executes (h : Executed s f y) (hk : ¬s.Killed f.data) :
    ∃ t, s.execInsn f.data = some t :=
  Option.ne_none_iff_exists'.mp fun hn => h.legal (illegal_of_none hk hn)

/-! ### What was executed -/

theorem Executed.sources (h : Executed s f y) (hm : (decodeRiscv f).isMem = false) :
    ∃ a b, Sources s (decodeRiscv f) a b ∧ (decodeRiscv f).Runs a b y.answer y.effect := by
  obtain ⟨a, b, ha, hb, hr⟩ := h.runs
  rw [h.uop] at ha hb hr
  exact ⟨a, b, ⟨fun hv => (ha hv).symm, fun hv => (hb hm hv).symm⟩, hr⟩

theorem Executed.next_straight (h : Executed s f y) (hb : (decodeRiscv f).isBr = false) :
    y.next = s.pc + 4 := by
  have hj : (decodeRiscv f).op ≠ .j := fun hj => by
    have h6f := jal_of_op f (.inl hj)
    rw [(BranchUop.jal h6f (by simp [decodeRiscv, h6f])).isBr] at hb
    cases hb
  rw [RetiredUop.next, h.uop, Uop.next, if_neg hj, hb, if_neg Bool.false_ne_true, decodeRiscv_pc,
    h.pc]

theorem Executed.dst_none (h : Executed s f y) (hv : (decodeRiscv f).dstValid = false) :
    y.dst = none := by
  rw [RetiredUop.dst, h.uop, hv, if_neg Bool.false_ne_true]

theorem Executed.dst_rd (h : Executed s f y) (hv : (decodeRiscv f).dstValid = true)
    (hd : (decodeRiscv f).dst = (rd f.data).setWidth 6) : y.dst = some (rd f.data) := by
  have hw : ∀ r : ArchReg, archReg (r.setWidth 6) = r := by decide
  rw [RetiredUop.dst, h.uop, hv, if_pos rfl, hd, hw]

theorem Uop.Runs.value {u : Uop} {r : MemRsp} {o : Effect} (h : u.Runs a b r o)
    (hc : Computes u a b v) (hm : u.isMem = false) : o.data = v := by
  have hunit : u.op.usesUnit = false := by
    have hb := hc.both
    revert hb
    cases u.op <;> intro hb <;> first | rfl | cases hb
  have hmul : usesMul u.op = false ∧ usesDiv u.op = false := by
    rwa [Opcode.usesUnit, Bool.or_eq_false_iff] at hunit
  cases h with
  | folded hf => exact absurd (hf.symm.trans (folds_of_onBothPorts hc.both)) (by decide)
  | mul hu => exact absurd (hu.symm.trans hmul.1) (by decide)
  | div hu => exact absurd (hu.symm.trans hmul.2) (by decide)
  | port c _ _ _ =>
      rw [hc.port1 c]
      rfl
  | mem _ _ hmem _ _ _ _ => exact absurd (hmem.symm.trans hm) (by decide)

/-- The majors on which the sides may differ. -/
theorem Differs.opcode (h : Differs s f.data y) (hu : y.uop = decodeRiscv f) :
    opcodeField f.data = 0x67 ∨ opcodeField f.data = 0x33 ∧ special f.data = 1 ∨
      opcodeField f.data = 0x03 ∨ opcodeField f.data = 0x73 := by
  cases h with
  | killed hk => exact .inr (.inl ⟨hk.1, hk.2.2.1⟩)
  | jump hop _ => exact .inl hop
  | division hop _ =>
      have hunit : (decodeRiscv f).op.usesUnit = true := by
        rw [Opcode.usesUnit, ← hu, hop, Bool.or_true]
      exact .inr (.inl ⟨(mExt_insn hunit).1, (mExt_insn hunit).2.1⟩)
  | load hop _ _ => exact .inr (.inr (.inl hop))
  | counter _ hop _ _ | brk hop _ => exact .inr (.inr (.inr hop))

theorem not_usesDiv (hu : y.uop = decodeRiscv f) (hop : opcodeField f.data ≠ 0x33) :
    usesDiv y.uop.op ≠ true := fun hdiv => by
  have hunit : (decodeRiscv f).op.usesUnit = true := by
    rw [Opcode.usesUnit, ← hu, hdiv, Bool.or_true]
  exact hop (mExt_insn hunit).1

/-! ### Straight-line instructions -/

theorem pc_of_map {m : Option Word} {r : ArchReg} {u t : Iss}
    (h : (m.map fun v => (u.setGpr r v).skip) = some t) : t.pc = u.pc + 4 := by
  obtain ⟨v, -, rfl⟩ := Option.map_eq_some_iff.mp h
  rfl

theorem exec_pc (hex : s.execInsn f.data = some t) (hb : (decodeRiscv f).isBr = false)
    (hs : opcodeField f.data ≠ 0x73) : t.pc = s.pc + 4 := by
  obtain ⟨t', ht, -, hp⟩ := execInsn_eq_some hex
  rw [hp]
  cases major f with
  | load _ _ he =>
      rw [he, execLoad] at ht
      dsimp only at ht
      split_ifs at ht
      · exact pc_of_map (u := { s with lastPc := s.pc }) ht
      · obtain rfl := Option.some.inj ht
        rfl
  | opImm _ _ he =>
      rw [he, execOpImm] at ht
      split_ifs at ht
      · exact pc_of_map (u := { s with lastPc := s.pc }) ht
      · obtain rfl := Option.some.inj ht
        rfl
  | op _ _ he =>
      rw [he, execOp] at ht
      split_ifs at ht
      · exact pc_of_map (u := { s with lastPc := s.pc }) ht
      · obtain rfl := Option.some.inj ht
        rfl
  | store _ _ he =>
      rw [he, execStore] at ht
      dsimp only at ht
      split at ht <;> first
        | cases ht; done
        | obtain rfl := Option.some.inj ht; rfl
  | fence _ _ he =>
      rw [he] at ht
      obtain rfl := Option.some.inj ht
      rfl
  | lui _ _ he =>
      rw [he, execLui] at ht
      obtain rfl := Option.some.inj ht
      split_ifs <;> rfl
  | auipc _ _ he =>
      rw [he, execAuipc] at ht
      obtain rfl := Option.some.inj ht
      split_ifs <;> rfl
  | branch hop hd _ => exact absurd ((BranchUop.branch hop hd).isBr.symm.trans hb) (by decide)
  | jalr hop hd _ => exact absurd ((BranchUop.jalr hop hd).isBr.symm.trans hb) (by decide)
  | jal hop hd _ => exact absurd ((BranchUop.jal hop hd).isBr.symm.trans hb) (by decide)
  | system hop _ _ => exact absurd hop hs
  | other _ _ he =>
      rw [he] at ht
      cases ht

theorem Executed.int (h : Executed s f y) (hex : s.execInsn f.data = some t)
    (hop : IntInsn f.data) (hm : (decodeRiscv f).isMem = false) :
    t.gpr = wrote y.dst y.result s.gpr := by
  by_cases hrd : rd f.data = 0
  · obtain ⟨hv, -, hg⟩ := intStep_x0 hop hrd hex
    rw [h.dst_none hv, hg]
    rfl
  · obtain ⟨a, b, hsrc, hr⟩ := h.sources hm
    have hi := intStep hop hrd h.pc hsrc hex
    obtain ⟨v, hc, hg⟩ := hi.value
    rw [h.dst_rd hi.dstValid hi.dst, RetiredUop.result, hr.value hc hm, hg]
    rfl

theorem Executed.unit (h : Executed s f y) (hex : s.execInsn f.data = some t)
    (hu : (decodeRiscv f).op.usesUnit = true) :
    t.gpr = wrote y.dst y.result s.gpr ↔ ¬(usesDiv (decodeRiscv f).op = true ∧
      ¬DivisionAgrees (decodeRiscv f).op (s.gpr (rs1 f.data)) (s.gpr (rs2 f.data))) := by
  obtain ⟨hop, hm, hrd, hsel⟩ := mExt_insn hu
  have hfold : folds (decodeRiscv f).op = false := by
    revert hu
    cases (decodeRiscv f).op <;> intro hu <;> first | rfl | cases hu
  cases major f with
  | op _ hd he =>
      obtain ⟨a, b, hsrc, hr⟩ := h.sources (by rw [hd]; rfl)
      have hdst := h.dst_rd (by rw [hd]; exact bne_of_rd hrd) (by rw [hd]; rfl)
      have ha : a = s.gpr (rs1 f.data) := by
        rw [hd] at hsrc
        exact (hsrc.srcA rfl).trans (gprOf_setWidth s _)
      have hb : b = s.gpr (rs2 f.data) := by
        rw [hd] at hsrc
        exact (hsrc.srcB rfl).trans (gprOf_setWidth s _)
      obtain ⟨t', ht, hg, -⟩ := execInsn_eq_some hex
      have hsel2 : sel f.data ≠ 2 := fun h2 => h.legal (by rw [hsel, h2]; rfl)
      rw [he, execOp, if_pos hrd] at ht
      obtain ⟨v, hv, rfl⟩ := Option.map_eq_some_iff.mp ht
      obtain rfl := opValue_mExt hm hsel2 hv
      rw [← hsel] at hg
      have hval : t.gpr = wrote y.dst y.result s.gpr ↔
          y.result = mExtValue (decodeRiscv f).op a b := by
        rw [hg, hdst, ha, hb]
        refine ⟨fun he => ?_, fun he => by rw [he]; rfl⟩
        have hr := congrFun he (rd f.data)
        change Function.update _ _ _ _ = Function.update _ _ _ _ at hr
        rw [Function.update_self, Function.update_self] at hr
        exact hr.symm
      rw [hval, ← ha, ← hb, RetiredUop.result]
      generalize y.effect = o at hr
      cases hr with
      | folded hf => exact absurd (hf.symm.trans hfold) (by decide)
      | mul hmul =>
          refine iff_of_true rfl fun hdiv => ?_
          obtain ⟨hdiv, -⟩ := hdiv
          revert hmul hdiv
          cases (decodeRiscv f).op <;> intro hmul hdiv <;> first
            | cases hmul; done
            | cases hdiv
      | div hdiv =>
          rw [not_and_not_right]
          refine ⟨fun he _ => ?_, fun ha => ((dividerValue_eq_iff hdiv).mpr (ha hdiv)).1⟩
          refine (dividerValue_eq_iff hdiv).mp ⟨he, fun hz => ?_⟩
          change dividerValue _ _ _ = _ at he
          rw [he, hz, mExtValue_zero hdiv]
          rw [hz, dividerValue_zero hdiv, mExtValue_zero hdiv] at he
          split_ifs at he
          · exact absurd he (by decide)
          · exact he.symm
      | port _ _ _ hno => exact absurd (hu.symm.trans hno) (by decide)
      | mem _ _ hmem _ _ _ _ =>
          rw [hd] at hmem
          cases hmem
  | load ho _ _ | fence ho _ _ | opImm ho _ _ | auipc ho _ _ | store ho _ _ | lui ho _ _
  | branch ho _ _ | jalr ho _ _ | jal ho _ _ | system ho _ _ =>
      exact absurd (ho.symm.trans hop) (by decide)
  | other ho _ _ =>
      rw [hop] at ho
      exact absurd ho (by decide)

theorem Executed.straight (h : Executed s f y) (hex : s.execInsn f.data = some t)
    (hb : (decodeRiscv f).isBr = false) (hs : opcodeField f.data ≠ 0x73) :
    Tracks t s.gpr y ↔ t.gpr = wrote y.dst y.result s.gpr :=
  ⟨Tracks.gpr, fun hg => ⟨(exec_pc hex hb hs).trans (h.next_straight hb).symm, hg⟩⟩

theorem not_differs (hu : y.uop = decodeRiscv f) (h67 : opcodeField f.data ≠ 0x67)
    (h33 : opcodeField f.data = 0x33 → special f.data ≠ 1) (h03 : opcodeField f.data ≠ 0x03)
    (h73 : opcodeField f.data ≠ 0x73) : ¬Differs s f.data y := by
  intro h
  obtain hop | ⟨hop, hm⟩ | hop | hop := h.opcode hu
  · exact h67 hop
  · exact h33 hop hm
  · exact h03 hop
  · exact h73 hop

theorem Executed.load (h : Executed s f y) (hex : s.execInsn f.data = some t)
    (hop : opcodeField f.data = 0x03) : t.gpr = wrote y.dst y.result s.gpr ↔
      ¬(rd f.data ≠ 0 ∧
        s.loadValue f.data (disp12 f.data + s.gpr (rs1 f.data)).toNat ≠ some y.result) := by
  obtain ⟨t', ht, hg, -⟩ := execInsn_eq_some hex
  have harm : execSwitch f.data { s with lastPc := s.pc } =
      execLoad f.data { s with lastPc := s.pc } := congrArg (switchArm f.data _) hop
  have hd : decodeRiscv f = decodeLoad f := by simp [decodeRiscv, hop]
  rw [harm, execLoad] at ht
  by_cases hrd : rd f.data = 0
  · rw [if_neg (not_not.mpr hrd)] at ht
    obtain rfl := Option.some.inj ht
    have hv : (decodeRiscv f).dstValid = false := by
      rw [hd]
      show (rdField f.data != 0) = false
      rw [(rdField_eq_zero f.data).mpr hrd]
      rfl
    rw [h.dst_none hv, hg]
    exact iff_of_true rfl fun hx => hx.1 hrd
  · rw [if_pos hrd] at ht
    obtain ⟨v, hv, rfl⟩ := Option.map_eq_some_iff.mp ht
    have hval : s.loadValue f.data (disp12 f.data + s.gpr (rs1 f.data)).toNat = some v := hv
    rw [h.dst_rd (by rw [hd]; exact bne_of_rd hrd) (by rw [hd]; rfl), hg, hval]
    refine ⟨fun he hx => hx.2 ?_, fun hx => ?_⟩
    · have hr := congrFun he (rd f.data)
      change Function.update _ _ _ _ = Function.update _ _ _ _ at hr
      rw [Function.update_self, Function.update_self] at hr
      rw [hr]
    · rw [not_and, not_not] at hx
      rw [← Option.some.inj (hx hrd)]
      rfl

/-! ### Branches and jumps -/

theorem Uop.Runs.branch {u : Uop} {r : MemRsp} {o : Effect} (h : u.Runs a b r o)
    (hb : OnBothPorts u.op = true) (hm : u.isMem = false) :
    ∃ c, o.targetPc = (u.eval c a b).pc ∧ o.data = (u.eval c a b).result := by
  have hunit : usesMul u.op = false ∧ usesDiv u.op = false := by
    revert hb
    cases u.op <;> intro hb <;> first | exact ⟨rfl, rfl⟩ | cases hb
  cases h with
  | folded hf => exact absurd (hf.symm.trans (folds_of_onBothPorts hb)) (by decide)
  | mul hu => exact absurd (hu.symm.trans hunit.1) (by decide)
  | div hu => exact absurd (hu.symm.trans hunit.2) (by decide)
  | port c _ _ _ =>
      refine ⟨c, ?_⟩
      rw [← Port1.alu_eq_eval c u a b hb]
      exact ⟨rfl, rfl⟩
  | mem _ _ hmem _ _ _ _ => exact absurd (hmem.symm.trans hm) (by decide)

theorem Executed.flow (h : Executed s f y) (hex : s.execInsn f.data = some t)
    (hb : OnBothPorts (decodeRiscv f).op = true) (hbr : (decodeRiscv f).isBr = true)
    (hm : (decodeRiscv f).isMem = false) (hr : (decodeRiscv f).Runs a b y.answer y.effect)
    (hf : ∀ c, FlowAgrees c f s a b) : Tracks t s.gpr y := by
  obtain ⟨c, htgt, hdata⟩ := hr.branch hb hm
  obtain ⟨t', hex', hpc, hw, -⟩ := hf c
  obtain rfl := Option.some.inj (hex.symm.trans hex')
  have hj : (decodeRiscv f).op ≠ .j := fun hj => by
    rw [hj] at hb
    cases hb
  rw [if_neg hj, Port1.alu_eq_eval c _ a b hb] at hpc
  rw [Port1.alu_eq_eval c _ a b hb] at hw
  refine ⟨?_, ?_⟩
  · rw [RetiredUop.next, h.uop, Uop.next, if_neg hj, hbr, if_pos rfl, htgt]
    exact hpc.1.symm
  · rw [SameWrite] at hw
    split_ifs at hw with hv
    · rw [h.dst_rd hv hw.2.1, RetiredUop.result, hdata, hw.2.2]
      rfl
    · rw [Bool.not_eq_true] at hv
      rw [h.dst_none hv, hw.2]
      rfl

theorem Executed.jalr_pc (h : Executed s f y) (hex : s.execInsn f.data = some t)
    (hop : opcodeField f.data = 0x67) :
    t.pc = y.next ↔ (s.gpr (rs1 f.data) + immI f.data).getLsbD 0 = false := by
  obtain ⟨t', ht, -, hp⟩ := execInsn_eq_some hex
  have harm : execSwitch f.data { s with lastPc := s.pc } =
      some (execJalr f.data { s with lastPc := s.pc }) := congrArg (switchArm f.data _) hop
  have hd : decodeRiscv f = decodeJalr f := by simp [decodeRiscv, hop]
  rw [harm] at ht
  obtain rfl := Option.some.inj ht
  have hops : (decodeJalr f).op = .ret ∨ (decodeJalr f).op = .jr ∨ (decodeJalr f).op = .jalr := by
    simp only [decodeJalr]
    split_ifs <;> simp
  obtain ⟨a, b, hsrc, hr⟩ := h.sources (by rw [hd]; rfl)
  have hnext : y.next = a + immI f.data := by
    have hboth : OnBothPorts (decodeJalr f).op = true := by
      obtain ho | ho | ho := hops <;> rw [ho] <;> rfl
    rw [hd] at hr
    obtain ⟨c, htgt, -⟩ := hr.branch hboth rfl
    have hj : (decodeJalr f).op ≠ .j := by
      obtain ho | ho | ho := hops <;> rw [ho] <;> decide
    have heval : ((decodeJalr f).eval c a b).pc = a + immI f.data := by
      rw [Uop.eval]
      obtain ho | ho | ho := hops <;> rw [ho] <;> rfl
    rw [RetiredUop.next, h.uop, hd, Uop.next, if_neg hj, htgt, heval]
    exact if_pos rfl
  have ha : a = s.gpr (rs1 f.data) := by
    rw [hd] at hsrc
    exact (hsrc.srcA rfl).trans (gprOf_setWidth s _)
  have hpc : t.pc = (disp12 f.data + s.gpr (rs1 f.data)) &&& ~~~1 := by
    rw [hp, execJalr]
  rw [hpc, hnext, ha, disp12_eq, BitVec.add_comm (immI f.data)]
  exact Bits.and_not_one_eq_iff _

/-! ### System instructions -/

theorem eq_wrote_iff {g : ArchReg → Word} {d : Option ArchReg} :
    g = wrote d v g ↔ ∀ r, d = some r → g r = v := by
  cases d with
  | none => exact iff_of_true rfl fun r hr => by cases hr
  | some q =>
      refine ⟨fun he r hr => ?_, fun he => ?_⟩
      · obtain rfl := Option.some.inj hr
        exact (congrFun he _).trans (Function.update_self ..)
      · exact (Function.update_eq_self_iff.mpr (he q rfl).symm).symm

/-- The interpreter stops at a breakpoint, and skips the other system instructions. -/
theorem Executed.system (h : Executed s f y) (hex : s.execInsn f.data = some t)
    (hop : opcodeField f.data = 0x73) :
    Tracks t s.gpr y ↔ f.data.extractLsb' 7 25 ≠ 0 ∧ ∀ r, y.dst = some r → s.gpr r = y.result := by
  obtain ⟨t', ht, hg, hp⟩ := execInsn_eq_some hex
  have harm : execSwitch f.data { s with lastPc := s.pc } =
      some (execSystem f.data { s with lastPc := s.pc }) := congrArg (switchArm f.data _) hop
  have hd : decodeRiscv f = decodeSystem f := by simp [decodeRiscv, hop]
  have hsel : f.data >>> 7 = 0 ↔ f.data.extractLsb' 7 25 = 0 := by
    rw [← BitVec.toNat_inj, ← BitVec.toNat_inj, BitVec.toNat_ushiftRight,
      BitVec.extractLsb'_toNat, Nat.shiftRight_eq_div_pow]
    have := f.data.isLt
    show _ = 0 ↔ _ = 0
    omega
  have hnext := h.next_straight (by rw [hd]; exact decodeSystem_isBr f)
  rw [harm] at ht
  obtain rfl := Option.some.inj ht
  rw [execSystem] at hg hp
  have hgpr : t.gpr = s.gpr := by
    rw [hg]
    split_ifs <;> rfl
  have hpc : t.pc = y.next ↔ f.data.extractLsb' 7 25 ≠ 0 := by
    rw [hp, hnext]
    split_ifs with hz
    · refine iff_of_false (fun he => ?_) fun hn => hn (hsel.mp hz)
      change s.pc = s.pc + 4 at he
      bv_omega
    · exact iff_of_true rfl fun hn => hz (hsel.mpr hn)
  refine ⟨fun ht => ⟨hpc.mp ht.pc, eq_wrote_iff.mp (hgpr ▸ ht.gpr)⟩, fun hx => ⟨hpc.mpr hx.1, ?_⟩⟩
  rw [hgpr]
  exact eq_wrote_iff.mpr hx.2

/-! ### All instructions -/

theorem Executed.quiet (h : Executed s f y) (hex : s.execInsn f.data = some t)
    (hb : (decodeRiscv f).isBr = false) (hs : opcodeField f.data ≠ 0x73)
    (hv : (decodeRiscv f).dstValid = false) (hg : t.gpr = s.gpr) : Tracks t s.gpr y := by
  rw [h.straight hex hb hs, h.dst_none hv, hg]
  rfl

/-- An operation of the M extension that no unit gets has `x0` as destination. -/
theorem Executed.op_unused (h : Executed s f y) (hex : s.execInsn f.data = some t)
    (hop : opcodeField f.data = 0x33) (h1 : funct7 f.data = 1)
    (hu : ¬(decodeRiscv f).op.usesUnit = true) : t.gpr = wrote y.dst y.result s.gpr := by
  have hd : decodeRiscv f = decodeOpReg f := by simp [decodeRiscv, hop]
  have hrd : rd f.data = 0 := by
    by_contra hrd
    have hnop := nopIfX0_of_ne hrd
    have hleg := h.legal
    rw [hd] at hu hleg
    revert hu hleg
    show ¬(opReg f.data).1.usesUnit = true → (opReg f.data).1 ≠ .ii → False
    obtain h3 | h3 | h3 | h3 | h3 | h3 | h3 | h3 := sel_cases (funct3 f.data) <;>
      simp [opReg, h3, h1, hnop, Opcode.usesUnit, usesMul, usesDiv]
  obtain ⟨t', ht, hg, -⟩ := execInsn_eq_some hex
  have harm : execSwitch f.data { s with lastPc := s.pc } =
      execOp f.data { s with lastPc := s.pc } := congrArg (switchArm f.data _) hop
  rw [harm, execOp, if_neg (not_not.mpr hrd)] at ht
  obtain rfl := Option.some.inj ht
  have hv : (decodeRiscv f).dstValid = false := by
    rw [hd]
    show (rdField f.data != 0) = false
    rw [(rdField_eq_zero f.data).mpr hrd]
    rfl
  rw [h.dst_none hv, hg]
  rfl

theorem Executed.op (h : Executed s f y) (hex : s.execInsn f.data = some t)
    (hop : opcodeField f.data = 0x33) : Tracks t s.gpr y ↔ ¬Differs s f.data y := by
  have hd : decodeRiscv f = decodeOpReg f := by simp [decodeRiscv, hop]
  have h73 : opcodeField f.data ≠ 0x73 := by rw [hop]; decide
  have hm : (decodeRiscv f).isMem = false := by rw [hd]; rfl
  rw [h.straight hex (by rw [hd]; rfl) h73]
  by_cases hu : (decodeRiscv f).op.usesUnit = true
  · rw [h.unit hex hu, not_iff_not, ← h.uop]
    refine ⟨fun hx => .division hx.1 hx.2, fun hx => ?_⟩
    cases hx with
    | division hdiv hx => exact ⟨hdiv, hx⟩
    | killed hk => cases hk.stops.symm.trans hex
    | jump ho _ | load ho _ _ | counter _ ho _ _ | brk ho _ =>
        exact absurd (ho.symm.trans hop) (by decide)
  · have hno : ¬Differs s f.data y := fun hx => by
      cases hx with
      | division hdiv _ =>
          rw [h.uop] at hdiv
          exact hu (by rw [Opcode.usesUnit, hdiv, Bool.or_true])
      | killed hk => cases hk.stops.symm.trans hex
      | jump ho _ | load ho _ _ | counter _ ho _ _ | brk ho _ =>
          exact absurd (ho.symm.trans hop) (by decide)
    refine iff_of_true ?_ hno
    by_cases h1 : funct7 f.data = 1
    · exact h.op_unused hex hop h1 hu
    · exact h.int hex (.inr (.inr (.inr ⟨hop, h1⟩))) hm

theorem Executed.branch (h : Executed s f y) (hex : s.execInsn f.data = some t)
    (hop : opcodeField f.data = 0x63) (hd : decodeRiscv f = decodeBranch f) :
    Tracks t s.gpr y := by
  obtain ⟨a, b, hsrc, hr⟩ := h.sources (by rw [hd]; rfl)
  have hlegal := h.legal
  rw [hd] at hlegal
  have h2 : funct3 f.data ≠ 2 := fun h2 => hlegal (by simp [decodeBranch, h2])
  have h3 : funct3 f.data ≠ 3 := fun h3 => hlegal (by simp [decodeBranch, h3])
  have hboth : OnBothPorts (decodeRiscv f).op = true := by
    rw [hd]
    revert hlegal
    simp only [decodeBranch]
    split_ifs <;> simp [OnBothPorts]
  exact h.flow hex hboth (BranchUop.branch hop hd).isBr (by rw [hd]; rfl) hr
    fun c => flow_branch hop h2 h3 h.pc hsrc

theorem Executed.jal (h : Executed s f y) (hex : s.execInsn f.data = some t)
    (hop : opcodeField f.data = 0x6f) (hd : decodeRiscv f = decodeJal f) :
    Tracks t s.gpr y := by
  obtain ⟨a, b, -, hr⟩ := h.sources (by rw [hd]; rfl)
  by_cases hz : rdField f.data = 0
  · have hj : (decodeRiscv f).op = .j := by
      rw [hd]
      exact if_pos hz
    have hv : (decodeRiscv f).dstValid = false := by
      rw [hd]
      simp [decodeJal, hz]
    obtain ⟨t', hex', hpc, hw, -⟩ := flow_jal (c := ⟨0, 0, 0, 0⟩) (a := a) (b := b) hop h.pc
    obtain rfl := Option.some.inj (hex.symm.trans hex')
    rw [if_pos hj] at hpc
    rw [SameWrite, hv, if_neg Bool.false_ne_true] at hw
    refine ⟨?_, ?_⟩
    · rw [RetiredUop.next, h.uop, Uop.next, if_pos hj, hpc]
    · rw [h.dst_none hv, hw.2]
      rfl
  · have hboth : OnBothPorts (decodeRiscv f).op = true := by
      have ho : (decodeJal f).op = .jal := if_neg hz
      rw [hd, ho]
      rfl
    exact h.flow hex hboth (BranchUop.jal hop hd).isBr (by rw [hd]; rfl) hr
      fun c => flow_jal hop h.pc

theorem Executed.jalr (h : Executed s f y) (hex : s.execInsn f.data = some t)
    (hop : opcodeField f.data = 0x67) (hd : decodeRiscv f = decodeJalr f) :
    Tracks t s.gpr y ↔ (s.gpr (rs1 f.data) + immI f.data).getLsbD 0 = false := by
  obtain ⟨a, b, hsrc, hr⟩ := h.sources (by rw [hd]; rfl)
  have ha : a = s.gpr (rs1 f.data) := by
    rw [hd] at hsrc
    exact (hsrc.srcA rfl).trans (gprOf_setWidth s _)
  have hboth : OnBothPorts (decodeRiscv f).op = true := by
    rw [hd]
    simp only [decodeJalr]
    split_ifs <;> rfl
  refine ⟨fun ht => (h.jalr_pc hex hop).mp ht.pc, fun heven => ?_⟩
  exact h.flow hex hboth (BranchUop.jalr hop hd).isBr (by rw [hd]; rfl) hr
    fun c => (flow_jalr hop h.pc hsrc).mpr (ha ▸ heven)

theorem exec_store_gpr (hex : s.execInsn f.data = some t)
    (he : ∀ s, execSwitch f.data s = execStore f.data s) : t.gpr = s.gpr := by
  obtain ⟨t', ht, hg, -⟩ := execInsn_eq_some hex
  rw [he, execStore] at ht
  dsimp only at ht
  rw [hg]
  split at ht <;> first
    | cases ht; done
    | obtain rfl := Option.some.inj ht; rfl

/-- **One instruction.**  The interpreter goes where the core went, with the register that the core
wrote, exactly when the instruction is none of the exceptions. -/
theorem Executed.tracks_iff (h : Executed s f y) (hex : s.execInsn f.data = some t) :
    Tracks t s.gpr y ↔ ¬Differs s f.data y := by
  have hno : opcodeField f.data ∉ [0x67, 0x33, 0x03, 0x73] → ¬Differs s f.data y := fun hop => by
    simp only [List.mem_cons, List.not_mem_nil, or_false, not_or] at hop
    exact not_differs h.uop hop.1 (fun ho => absurd ho hop.2.1) hop.2.2.1 hop.2.2.2
  cases major f with
  | load hop hd _ =>
      rw [h.straight hex (by rw [hd]; rfl) (by rw [hop]; decide), h.load hex hop, not_iff_not]
      refine ⟨fun hx => .load hop hx.1 hx.2, fun hx => ?_⟩
      cases hx with
      | load _ hrd hx => exact ⟨hrd, hx⟩
      | division hdiv _ => exact absurd hdiv (not_usesDiv h.uop (by rw [hop]; decide))
      | killed hk => cases hk.stops.symm.trans hex
      | jump ho _ | counter _ ho _ _ | brk ho _ => exact absurd (ho.symm.trans hop) (by decide)
  | op hop _ _ => exact h.op hex hop
  | system hop _ _ =>
      rw [h.system hex hop]
      refine ⟨fun hx hdiff => ?_, fun hx => ⟨fun hz => hx (.brk hop hz), fun r hr => ?_⟩⟩
      · cases hdiff with
        | counter r _ hr hne => exact hne (hx.2 r hr)
        | brk _ hz => exact hx.1 hz
        | division hdiv _ => exact not_usesDiv h.uop (by rw [hop]; decide) hdiv
        | killed hk => cases hk.stops.symm.trans hex
        | jump ho _ | load ho _ _ => exact absurd (ho.symm.trans hop) (by decide)
      · by_contra hne
        exact hx (.counter r hop hr hne)
  | jalr hop hd _ =>
      rw [h.jalr hex hop hd, ← Bool.not_eq_true, not_iff_not]
      refine ⟨fun hodd => .jump hop hodd, fun hx => ?_⟩
      cases hx with
      | jump _ hodd => exact hodd
      | division hdiv _ => exact absurd hdiv (not_usesDiv h.uop (by rw [hop]; decide))
      | killed hk => cases hk.stops.symm.trans hex
      | load ho _ _ | counter _ ho _ _ | brk ho _ => exact absurd (ho.symm.trans hop) (by decide)
  | branch hop hd _ => exact iff_of_true (h.branch hex hop hd) (hno (by rw [hop]; decide))
  | jal hop hd _ => exact iff_of_true (h.jal hex hop hd) (hno (by rw [hop]; decide))
  | store hop hd he =>
      refine iff_of_true (h.quiet hex ?_ ?_ ?_ (exec_store_gpr hex he)) (hno (by rw [hop]; decide))
      · rw [hd]
        rfl
      · rw [hop]
        decide
      · rw [hd]
        rfl
  | fence hop hd he =>
      obtain ⟨t', ht, hg, -⟩ := execInsn_eq_some hex
      rw [he] at ht
      obtain rfl := Option.some.inj ht
      refine iff_of_true (h.quiet hex ?_ ?_ ?_ hg) (hno (by rw [hop]; decide))
      · rw [hd]
        rfl
      · rw [hop]
        decide
      · rw [hd]
        rfl
  | opImm hop hd _ | auipc hop hd _ | lui hop hd _ =>
      have hi : IntInsn f.data := by simp [IntInsn, hop]
      refine iff_of_true ?_ (hno (by rw [hop]; decide))
      rw [h.straight hex (by rw [hd]; rfl) (by rw [hop]; decide)]
      exact h.int hex hi (by rw [hd]; rfl)
  | other _ hd _ => exact absurd (by rw [hd]; rfl) h.legal

/-- **The instruction set of the core is the interpreter's, with six exceptions.**  For every word
that the decoder accepts, executed by the core on the registers of the interpreter (any port, unit
or answer of the data cache), the interpreter stops only by the signal of a division; and it goes to
the pc behind the instruction, with the registers that the core is left with, exactly when the
instruction is no jump to an odd target, no division by zero with another result, no quotient out of
range, no load of something else, no counter with another value and no breakpoint. -/
theorem insn_agrees_iff (h : Executed s f y) :
    (s.execInsn f.data = none ↔ s.Killed f.data) ∧
      ((∃ t, s.execInsn f.data = some t ∧ t.pc = y.next ∧ t.gpr = wrote y.dst y.result s.gpr) ↔
        ¬Differs s f.data y) := by
  refine ⟨⟨fun hn => ?_, Killed.stops⟩, fun ⟨t, ht, hp, hg⟩ => (h.tracks_iff ht).mp ⟨hp, hg⟩,
    fun hd => ?_⟩
  · by_contra hk
    exact h.legal (illegal_of_none hk hn)
  · obtain ⟨t, ht⟩ := h.executes fun hk => hd (.killed hk)
    have hx := (h.tracks_iff ht).mpr hd
    exact ⟨t, ht, hx.pc, hx.gpr⟩

/-- `div x1, x2, x3` on `a` and `b`, as the divider leaves it. -/
def dividedAs (a b : Word) : RetiredUop :=
  ⟨decodeRiscv ⟨0x023140b3, 0, 0, false, 0⟩, ⟨0, 0, 0, false, false, 0⟩,
    .unit (dividerValue .div a b)⟩

theorem executed_div (a b : Word) :
    Executed (Iss.holding a b) ⟨0x023140b3, 0, 0, false, 0⟩ (dividedAs a b) :=
  ⟨rfl, rfl, ⟨a, b, fun _ => rfl, fun _ _ => rfl, .div rfl⟩, by decide⟩

/-- `-7` by `2` agrees; `-7` by zero and `0x80000000` by `-1` differ. -/
theorem insn_agrees_div :
    (∃ t, (Iss.holding (-7) 2).execInsn 0x023140b3 = some t ∧ t.pc = 4 ∧
      t.gpr = wrote (some 1) (-3) (Iss.holding (-7) 2).gpr) ∧
    Differs (Iss.holding (-7) 0) 0x023140b3 (dividedAs (-7) 0) ∧
    (Iss.holding 0x80000000 (-1)).execInsn 0x023140b3 = none := by
  refine ⟨?_, .division rfl ?_, (insn_agrees_iff (executed_div 0x80000000 (-1))).1.mpr ?_⟩
  · have hv : (dividedAs (-7) 2).result = -3 := by decide
    have hd : (dividedAs (-7) 2).dst = some 1 := by decide
    have hn : (dividedAs (-7) 2).next = 4 := by decide
    rw [← hv, ← hd, ← hn]
    refine (insn_agrees_iff (executed_div (-7) 2)).2.mpr fun hx => ?_
    cases hx with
    | division _ hx => exact hx (.inl (by decide))
    | killed hk => exact absurd hk.2.2.2.2 (by decide)
    | jump hop _ | load hop _ _ | counter _ hop _ _ | brk hop _ => exact absurd hop (by decide)
  · unfold DivisionAgrees
    decide
  · exact ⟨rfl, by decide, rfl, .inl rfl, by decide⟩

end Rv32Core
