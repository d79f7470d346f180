import Rv32Core.Checker.Words
import Rv32Core.Exec.Divider
import Rv32Core.Exec.Model

/-! # The M extension against the interpreter

Multiplications and divisions leave port 1 for the multiplier and the divider.  This module reads
their instructions on both sides and compares the results.

The divider and the interpreter agree on every divisor other than zero.  For a zero divisor they
differ twice: the divider puts the sign of a negative dividend back on a quotient of all ones,
which makes it `1`, and the interpreter writes `-1` for a remainder, where the divider returns the
dividend. -/

namespace Rv32Core

open Iss Clocked

variable {inst : Word} {s s' : Iss} {f : InsnFetch} {a b : Word} {op : Opcode}

/-! ### The instructions -/

/-- The operation a selector names in the M extension. -/
def mExt (sel : BitVec 3) : Opcode :=
  match sel with
  | 0x0 => .mul
  | 0x1 => .mulh
  | 0x3 => .mulhu
  | 0x4 => .div
  | 0x5 => .divu
  | 0x6 => .rem
  | 0x7 => .remu
  | _ => .ii

/-- The value the interpreter writes for it. -/
def mExtValue (op : Opcode) (a b : Word) : Word :=
  match op with
  | .mul => a * b
  | .mulh => (a.signExtend 64 * b.signExtend 64).extractLsb' 32 32
  | .mulhu => (a.setWidth 64 * b.setWidth 64).extractLsb' 32 32
  | .div => if b = 0 then BitVec.allOnes 32 else a.sdiv b
  | .divu => if b ≠ 0 then a / b else BitVec.allOnes 32
  | .rem => if b ≠ 0 then a.srem b else BitVec.allOnes 32
  | .remu => if b ≠ 0 then a % b else BitVec.allOnes 32
  | _ => 0

/-- An operation of the multiplier or of the divider. -/
def Opcode.usesUnit (op : Opcode) : Bool := usesMul op || usesDiv op

theorem usesUnit_nopIfX0 (r : PrfPtr) (op : Opcode) :
    (nopIfX0 r op).usesUnit = (r != 0 && op.usesUnit) := by
  rw [nopIfX0]
  by_cases h : r = 0
  · rw [if_pos h, h]
    rfl
  · rw [if_neg h, bne_iff_ne.mpr h, Bool.true_and]

theorem opReg_unit (h : (opReg inst).1.usesUnit = true) :
    special inst = 1 ∧ rd inst ≠ 0 ∧ (opReg inst).1 = mExt (sel inst) := by
  have hno : Opcode.usesUnit .ii = false := rfl
  have hcase : special inst = 1 ∧ rdField inst ≠ 0 := by
    simp only [opReg, apply_ite Prod.fst, apply_ite Opcode.usesUnit, usesUnit_nopIfX0] at h
    simp only [Opcode.usesUnit, usesMul, usesDiv, Bool.or_false, Bool.and_false, Bool.false_or,
      Bool.and_true] at h
    split_ifs at h
    all_goals first | cases h | exact ⟨‹_›, bne_iff_ne.mp h⟩
  have hrd : rd inst ≠ 0 := fun h0 => hcase.2 ((rdField_eq_zero inst).mpr h0)
  refine ⟨hcase.1, hrd, ?_⟩
  have hnop := nopIfX0_of_ne hrd
  obtain h3 | h3 | h3 | h3 | h3 | h3 | h3 | h3 := sel_cases (sel inst) <;>
    simp [opReg, mExt, funct3_eq, funct7_eq, h3, hcase.1, hnop]

/-- An operation of the multiplier or of the divider is decoded from a word of the M extension
whose destination is not `x0`. -/
theorem mExt_insn (h : (decodeRiscv f).op.usesUnit = true) :
    opcodeField f.data = 0x33 ∧ special f.data = 1 ∧ rd f.data ≠ 0 ∧
      (decodeRiscv f).op = mExt (sel f.data) := by
  cases major f with
  | op ho hd _ =>
      rw [hd] at h ⊢
      exact ⟨ho, opReg_unit h⟩
  | system _ hd _ =>
      rw [hd] at h
      simp only [decodeSystem, decodeCounter, apply_ite Uop.op, apply_ite Opcode.usesUnit,
        usesUnit_nopIfX0] at h
      simp [Opcode.usesUnit, usesMul, usesDiv] at h
  | opImm _ hd _ =>
      rw [hd] at h
      simp only [decodeOpImm, opImm, apply_ite Prod.fst, apply_ite Opcode.usesUnit,
        usesUnit_nopIfX0] at h
      simp [Opcode.usesUnit, usesMul, usesDiv] at h
  | load _ hd _ | store _ hd _ | fence _ hd _ | auipc _ hd _ | lui _ hd _ | branch _ hd _
  | jalr _ hd _ | jal _ hd _ | other _ hd _ =>
      rw [hd] at h
      simp only [decodeLoad, decodeStore, decodeAuipc, decodeLui, decodeBranch, decodeJalr,
        decodeJal, decodeDefault, apply_ite Opcode.usesUnit, usesUnit_nopIfX0] at h
      simp [Opcode.usesUnit, usesMul, usesDiv] at h

theorem opValue_mExt {v : Word} (h : special inst = 1) (hsel : sel inst ≠ 2)
    (hv : s.opValue inst = some v) :
    v = mExtValue (mExt (sel inst)) (s.gpr (rs1 inst)) (s.gpr (rs2 inst)) := by
  unfold opValue at hv
  rw [h] at hv
  obtain h3 | h3 | h3 | h3 | h3 | h3 | h3 | h3 := sel_cases (sel inst)
  case inr.inr.inl => exact absurd h3 hsel
  case inr.inr.inr.inr.inl | inr.inr.inr.inr.inr.inr.inl =>
    -- the operators on two `int32_t`, which have no value for some operands
    rw [h3] at hv ⊢
    change (if _ then _ else _) = some v at hv
    change _ = if _ then _ else _
    split_ifs at hv ⊢ <;> exact (Option.some.inj hv).symm
  all_goals
    rw [h3] at hv ⊢
    exact (Option.some.inj hv).symm

theorem mExt_exec (h : (decodeRiscv f).op.usesUnit = true) (hex : s.execInsn f.data = some s') :
    s'.gpr (rd f.data) =
      mExtValue (decodeRiscv f).op (s.gpr (rs1 f.data)) (s.gpr (rs2 f.data)) := by
  obtain ⟨hop, hm, hrd, he⟩ := mExt_insn h
  have hsel : sel f.data ≠ 2 := fun h2 => by
    rw [he, h2] at h
    cases h
  obtain ⟨t, ht, hg, -⟩ := execInsn_eq_some hex
  have harm : execSwitch f.data { s with lastPc := s.pc } =
      execOp f.data { s with lastPc := s.pc } := congrArg (switchArm f.data _) hop
  rw [harm, execOp, if_pos hrd] at ht
  obtain ⟨v, hv, rfl⟩ := Option.map_eq_some_iff.mp ht
  rw [hg, he, ← opValue_mExt hm hsel hv]
  exact Function.update_self ..

/-! ### Division -/

/-- What the architecture asks of a division by zero. -/
def zeroDivisor (isRem : Bool) (a : Word) : Word := if isRem then a else -1

/-- The divisions on which both sides agree: those by anything but zero, and by zero the unsigned
quotients, the quotients of dividends that are not negative and the remainders of `-1`. -/
def DivisionAgrees (op : Opcode) (a b : Word) : Prop :=
  b ≠ 0 ∨ if op = .rem ∨ op = .remu then a = -1 else op = .divu ∨ a.msb = false

/-- What the divider returns for an operation, as the ports of the execution unit are driven. -/
def dividerValue (op : Opcode) (a b : Word) : Word :=
  if op == .rem || op == .remu then divRemainder (op == .div || op == .rem) a b
  else divQuotient (op == .div || op == .rem) a b

theorem dividerValue_of_ne (hop : usesDiv op = true) (hb : b ≠ 0) :
    dividerValue op a b = mExtValue op a b := by
  have hq (isSigned : Bool) : divQuotient isSigned a b = if isSigned then a.sdiv b else a / b :=
    if_neg hb
  have hb0 : ¬ b = 0#32 := hb
  cases op <;> first
    | exact absurd hop (by decide)
    | simp [dividerValue, mExtValue, hq, hb0, divRemainder]

/-- By zero the divider returns what the architecture asks, but `1` for a negative dividend. -/
theorem dividerValue_zero (hop : usesDiv op = true) :
    dividerValue op a 0 =
      if op = .div ∧ a.msb = true then 1 else zeroDivisor (op == .rem || op == .remu) a := by
  cases op <;> first
    | exact absurd hop (by decide)
    | simp [dividerValue, divQuotient, divRemainder, zeroDivisor]

theorem mExtValue_zero (hop : usesDiv op = true) : mExtValue op a 0 = -1 := by
  cases op <;> first | exact absurd hop (by decide) | rfl

/-- The two results are equal, and right for a zero divisor, exactly when the sides agree. -/
theorem dividerValue_eq_iff (hop : usesDiv op = true) :
    (dividerValue op a b = mExtValue op a b ∧
      (b = 0 → dividerValue op a b = zeroDivisor (op == .rem || op == .remu) a)) ↔
      DivisionAgrees op a b := by
  by_cases hb : b = 0
  · have h1 : (1 : Word) ≠ -1 := by decide
    rw [hb, dividerValue_zero hop, mExtValue_zero hop]
    cases op <;> first | exact absurd hop (by decide) | cases hm : a.msb <;>
      simp [DivisionAgrees, zeroDivisor, hm]
  · exact ⟨fun _ => .inl hb, fun _ => ⟨dividerValue_of_ne hop hb, fun h => absurd h hb⟩⟩

theorem divider_result {e : Exec} {i : ExecIn} {d : Divider 5} {is : List (DivIn 5)}
    (hs : d.rState = .idle) (hi : (e.divIn i).startDiv = true) (hl : is.length = 33) :
    ((dividerMachine 5).run d (e.divIn i :: is)).result =
      dividerValue e.intUop.op e.tSrcA e.tSrcB := by
  exact (Divider.iterative_division hs hi).2.2.2.2 is hl |>.2.2

/-- **Division agrees with the interpreter** exactly when the divisor is not zero, the operation is
DIVU, a signed quotient has a dividend that is not negative, or a remainder has the dividend `-1`.

`e` is the execution unit in the cycle that starts the division and `d` the idle divider; the 33
further cycles are those until it raises `complete`. -/
theorem division_agrees_iff {e : Exec} {i : ExecIn} {d : Divider 5} {is : List (DivIn 5)}
    (hop : usesDiv (decodeRiscv f).op = true) (he : e.intUop.op = (decodeRiscv f).op)
    (ha : e.tSrcA = s.gpr (rs1 f.data)) (hb : e.tSrcB = s.gpr (rs2 f.data))
    (hex : s.execInsn f.data = some s') (hs : d.rState = .idle)
    (hi : (e.divIn i).startDiv = true) (hl : is.length = 33) :
    (((dividerMachine 5).run d (e.divIn i :: is)).result = s'.gpr (rd f.data) ∧
      (e.tSrcB = 0 → ((dividerMachine 5).run d (e.divIn i :: is)).result =
        zeroDivisor (e.divIn i).isRem e.tSrcA)) ↔
      DivisionAgrees (decodeRiscv f).op e.tSrcA e.tSrcB := by
  have hu : (decodeRiscv f).op.usesUnit = true := by
    rw [Opcode.usesUnit, hop, Bool.or_true]
  have hrem : (e.divIn i).isRem = (e.intUop.op == .rem || e.intUop.op == .remu) := rfl
  rw [divider_result hs hi hl, mExt_exec hu hex, hrem, ← ha, ← hb, he]
  exact dividerValue_eq_iff hop

/-- The execution unit in the cycle that starts `insn` with the operands `a` and `b`. -/
def Exec.starting (insn a b : Word) : Exec :=
  { Exec.init with
    rStartInt := true
    intUop := decodeRiscv ⟨insn, 0, 0, false, 0⟩
    srcA := ⟨false, false, false, a⟩
    srcB := ⟨false, false, false, b⟩ }

/-- The interpreter with `a` in `x2` and `b` in `x3`. -/
def Iss.holding (a b : Word) : Iss := (initState.setGpr 2 a).setGpr 3 b

/-- `div x1,x2,x3` of `-7` by `2` is `-3` on both sides. -/
theorem division_agrees_div :
    ((dividerMachine 5).run (Divider.init 5) (((Exec.starting 0x023140b3 (-7) 2).divIn .idle) ::
      List.replicate 33 (Exec.init.divIn .idle))).result = -3 :=
  (((division_agrees_iff (f := ⟨0x023140b3, 0, 0, false, 0⟩) (s := holding (-7) 2)
    (e := Exec.starting 0x023140b3 (-7) 2) (i := .idle) (d := Divider.init 5)
    (by decide) rfl rfl rfl rfl rfl (by decide)
    (List.length_replicate : (List.replicate 33 (Exec.init.divIn .idle)).length = 33)).mpr
    (.inl (by decide))).1).trans (by decide)

/-- `div x1,x2,x3` of `-7` by zero: the divider returns `1`, the interpreter writes `-1`.
`remu x1,x2,x3` of `7` by zero: the divider returns `7`, the interpreter writes `-1`. -/
theorem division_by_zero_differs :
    (((dividerMachine 5).run (Divider.init 5) (((Exec.starting 0x023140b3 (-7) 0).divIn .idle) ::
        List.replicate 33 (Exec.init.divIn .idle))).result = 1 ∧
      ((holding (-7) 0).execInsn 0x023140b3).map (·.gpr 1) = some (-1)) ∧
    (((dividerMachine 5).run (Divider.init 5) (((Exec.starting 0x023170b3 7 0).divIn .idle) ::
        List.replicate 33 (Exec.init.divIn .idle))).result = 7 ∧
      ((holding 7 0).execInsn 0x023170b3).map (·.gpr 1) = some (-1)) := by
  refine ⟨⟨?_, by decide⟩, ?_, by decide⟩
  · rw [divider_result rfl (by decide) List.length_replicate]
    decide
  · rw [divider_result rfl (by decide) List.length_replicate]
    decide

end Rv32Core
