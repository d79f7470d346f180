import Rv32Core.Decode

/-! # The reference interpreter

`execRiscv` of the interpreter that the simulator checks the core against: a state of registers
and memory, and one function for each case of its `switch` over the major opcode.  A failed
assertion, the `exit` of the default case and the signal that kills the process when the quotient
of two `int32_t` is out of range are `none` (`Rejects` is the first two, `Killed` the third).
Registers are `int32_t` in the source; here they are words, with signed operators where the source
computes with signed values. -/

namespace Rv32Core

/-- `state_t`, less the fields `execRiscv` does not use.  Memory is indexed by the address added
to `s->mem`; from `2 ^ 32` on it is what lies behind the mapping. -/
structure Iss where
  pc : Word
  lastPc : Word
  gpr : ArchReg → Word
  mem : ℕ → BitVec 8
  brk : Bool
  icnt : BitVec 64

namespace Iss

/-! ### Instruction fields -/

/-- `(inst>>7) & 31`. -/
def rd (inst : Word) : ArchReg := inst.extractLsb' 7 5

/-- `m.r.rs1`. -/
def rs1 (inst : Word) : ArchReg := inst.extractLsb' 15 5

/-- `m.r.rs2`. -/
def rs2 (inst : Word) : ArchReg := inst.extractLsb' 20 5

/-- `m.r.sel`. -/
def sel (inst : Word) : BitVec 3 := inst.extractLsb' 12 3

/-- `m.r.special`. -/
def special (inst : Word) : BitVec 7 := inst.extractLsb' 25 7

/-- `(inst>>31)&1`. -/
def neg (inst : Word) : Bool := inst.getLsbD 31

/-- `imm11_0` with the upper bits set for a negative instruction. -/
def disp12 (inst : Word) : Word :=
  (inst.extractLsb' 20 12).setWidth 32 ||| (if neg inst then 0xfffff000 else 0)

/-- `simm32` of case `0x13`. -/
def simm32 (inst : Word) : Word := inst >>> 20 ||| (if neg inst then 0xfffff000 else 0)

/-- `disp` of a store. -/
def storeDisp (inst : Word) : Word :=
  ((inst.extractLsb' 7 5).setWidth 32 ||| (inst.extractLsb' 25 7).setWidth 32 <<< 5) |||
    (if neg inst then 0xfffff000 else 0)

/-- `disp` of a branch. -/
def branchDisp (inst : Word) : Word :=
  ((inst.extractLsb' 8 4).setWidth 32 <<< 1 ||| (inst.extractLsb' 25 6).setWidth 32 <<< 5 |||
    (inst.extractLsb' 7 1).setWidth 32 <<< 11 ||| (inst.extractLsb' 31 1).setWidth 32 <<< 12) |||
    (if inst.extractLsb' 31 1 ≠ 0 then 0xffffe000 else 0)

/-- `jaddr`. -/
def jaddr (inst : Word) : Word :=
  ((inst.extractLsb' 21 10).setWidth 32 <<< 1 ||| (inst.extractLsb' 20 1).setWidth 32 <<< 11 |||
    (inst.extractLsb' 12 8).setWidth 32 <<< 12 ||| (inst.extractLsb' 31 1).setWidth 32 <<< 20) |||
    (if neg inst then 0xffe00000 else 0)

/-! ### Memory -/

theorem width_succ (n : ℕ) : 8 + 8 * n = 8 * (n + 1) := by omega

/-- The little-endian value of `n` bytes. -/
def bytes (mem : ℕ → BitVec 8) (a : ℕ) : (n : ℕ) → BitVec (8 * n)
  | 0 => 0
  | n + 1 => (mem (a + n) ++ bytes mem a n).cast (width_succ n)

/-- The memory after a little-endian write of `n` bytes. -/
def putBytes (mem : ℕ → BitVec 8) (a n : ℕ) (v : Word) (x : ℕ) : BitVec 8 :=
  if a ≤ x ∧ x < a + n then v.extractLsb' (8 * (x - a)) 8 else mem x

variable (inst : Word) (s : Iss)

/-- `initState`: everything zero. -/
def initState : Iss := ⟨0, 0, fun _ => 0, fun _ => 0, false, 0⟩

/-! ### The cases of the switch -/

/-- `s->pc += 4`. -/
def skip : Iss := { s with pc := s.pc + 4 }

/-- `s->gpr[r] = v`. -/
def setGpr (r : ArchReg) (v : Word) : Iss := { s with gpr := Function.update s.gpr r v }

/-- The value a load writes. -/
def loadValue (ea : ℕ) : Option Word :=
  match sel inst with
  | 0x0 => some ((bytes s.mem ea 1).signExtend 32)
  | 0x1 => some ((bytes s.mem ea 2).signExtend 32)
  | 0x2 => some ((bytes s.mem ea 4).signExtend 32)
  | 0x4 => some ((bytes s.mem ea 1).setWidth 32)
  | 0x5 => some ((bytes s.mem ea 2).setWidth 32)
  | _ => none

/-- Case `0x3`: a load of `x0` falls through to the fence. -/
def execLoad : Option Iss :=
  if rd inst ≠ 0 then
    let ea := disp12 inst + s.gpr (rs1 inst)
    (s.loadValue inst ea.toNat).map fun v => (s.setGpr (rd inst) v).skip
  else some s.skip

/-- The value case `0x13` writes. -/
def opImmValue : Option Word :=
  let a := s.gpr (rs1 inst)
  let imm := simm32 inst
  let shamt := (inst >>> 20 &&& 31).toNat
  match sel inst with
  | 0 => some (a + imm)
  | 1 => some (a <<< shamt)
  | 2 => some (if a.slt imm then 1 else 0)
  | 3 => some (if a.ult imm then 1 else 0)
  | 4 => some (a ^^^ imm)
  | 5 =>
      if inst >>> 25 &&& 127 = 0 then some (a >>> shamt)
      else if inst >>> 25 &&& 127 = 32 then some (a.sshiftRight shamt)
      else none
  | 6 => some (a ||| imm)
  | _ => some (a &&& imm)

/-- Case `0x13`. -/
def execOpImm : Option Iss :=
  if rd inst ≠ 0 then (s.opImmValue inst).map fun v => (s.setGpr (rd inst) v).skip
  else some s.skip

/-- Case `0x23`. -/
def execStore : Option Iss :=
  let ea := (storeDisp inst + s.gpr (rs1 inst)).toNat
  let put (n : ℕ) : Iss := { s with mem := putBytes s.mem ea n (s.gpr (rs2 inst)) }
  match sel inst with
  | 0x0 => some (put 1).skip
  | 0x1 => some (put 2).skip
  | 0x2 => some (put 4).skip
  | _ => none

/-- Case `0x37`. -/
def execLui : Iss :=
  (if rd inst ≠ 0 then s.setGpr (rd inst) (inst &&& 0xfffff000) else s).skip

/-- Case `0x17`. -/
def execAuipc : Iss :=
  (if rd inst ≠ 0 then s.setGpr (rd inst) (s.pc + (inst &&& ~~~4095)) else s).skip

/-- Case `0x67`. -/
def execJalr : Iss :=
  let tgt := (disp12 inst + s.gpr (rs1 inst)) &&& ~~~1
  { (if rd inst ≠ 0 then s.setGpr (rd inst) (s.pc + 4) else s) with pc := tgt }

/-- Case `0x6f`. -/
def execJal : Iss :=
  { (if rd inst ≠ 0 then s.setGpr (rd inst) (s.pc + 4) else s) with pc := s.pc + jaddr inst }

/-- The value case `0x33` writes.  The quotient `0x80000000 / -1` and its remainder have none. -/
def opValue : Option Word :=
  let a := s.gpr (rs1 inst)
  let b := s.gpr (rs2 inst)
  let shamt := (b &&& 31).toNat
  match sel inst, special inst with
  | 0x0, 0x0 => some (a + b)
  | 0x0, 0x1 => some (a * b)
  | 0x0, 0x20 => some (a - b)
  | 0x1, 0x0 => some (a <<< shamt)
  | 0x1, 0x1 => some ((a.signExtend 64 * b.signExtend 64).extractLsb' 32 32)
  | 0x2, 0x0 => some (if a.slt b then 1 else 0)
  | 0x3, 0x0 => some (if a.ult b then 1 else 0)
  | 0x3, 0x1 => some ((a.setWidth 64 * b.setWidth 64).extractLsb' 32 32)
  | 0x4, 0x0 => some (a ^^^ b)
  | 0x4, 0x1 =>
      if b = 0 then some (BitVec.allOnes 32)
      else if a.sdivOverflow b then none else some (a.sdiv b)
  | 0x5, 0x0 => some (a >>> shamt)
  | 0x5, 0x1 => some (if b ≠ 0 then a / b else BitVec.allOnes 32)
  | 0x5, 0x20 => some (a.sshiftRight shamt)
  | 0x6, 0x0 => some (a ||| b)
  | 0x6, 0x1 =>
      if b ≠ 0 then if a.sdivOverflow b then none else some (a.srem b)
      else some (BitVec.allOnes 32)
  | 0x7, 0x0 => some (a &&& b)
  | 0x7, 0x1 => some (if b ≠ 0 then a % b else BitVec.allOnes 32)
  | _, _ => none

/-- Case `0x33`. -/
def execOp : Option Iss :=
  if rd inst ≠ 0 then (s.opValue inst).map fun v => (s.setGpr (rd inst) v).skip
  else some s.skip

/-- `takeBranch`. -/
def takeBranch : Option Bool :=
  let a := s.gpr (rs1 inst)
  let b := s.gpr (rs2 inst)
  match sel inst with
  | 0 => some (a == b)
  | 1 => some (a != b)
  | 4 => some (a.slt b)
  | 5 => some (b.sle a)
  | 6 => some (a.ult b)
  | 7 => some (b.ule a)
  | _ => none

/-- Case `0x63`. -/
def execBranch : Option Iss :=
  (s.takeBranch inst).map fun t =>
    { s with pc := if t then branchDisp inst + s.pc else s.pc + 4 }

/-- Case `0x73`. -/
def execSystem : Iss := if inst >>> 7 = 0 then { s with brk := true } else s.skip

/-- The `switch` of `execRiscv`, by opcode. -/
def switchArm (op : BitVec 7) : Option Iss :=
  match op with
  | 0x03 => s.execLoad inst
  | 0x0f => some s.skip
  | 0x13 => s.execOpImm inst
  | 0x17 => some (s.execAuipc inst)
  | 0x23 => s.execStore inst
  | 0x33 => s.execOp inst
  | 0x37 => some (s.execLui inst)
  | 0x63 => s.execBranch inst
  | 0x67 => some (s.execJalr inst)
  | 0x6f => some (s.execJal inst)
  | 0x73 => some (s.execSystem inst)
  | _ => none

/-- The `switch` of `execRiscv`. -/
def execSwitch : Option Iss := switchArm inst s (inst.extractLsb' 0 7)

/-- `s->icnt++`. -/
def counted : Iss := { s with icnt := s.icnt + 1 }

/-- `execRiscv` from the fetched word on: it records `last_pc`, runs the switch and counts the
instruction. -/
def execInsn : Option Iss := (execSwitch inst { s with lastPc := s.pc }).map counted

/-- The process dies in the division of case `0x33`. -/
def Killed : Prop :=
  inst.extractLsb' 0 7 = 0x33 ∧ rd inst ≠ 0 ∧ special inst = 1 ∧ (sel inst = 4 ∨ sel inst = 6) ∧
    (s.gpr (rs1 inst)).sdivOverflow (s.gpr (rs2 inst)) = true

/-- `execRiscv` fails an assertion or exits. -/
def Rejects : Prop := s.execInsn inst = none ∧ ¬s.Killed inst

/-- `execRiscv`, with the address of the host mailbox and the handler of system calls. -/
def execRiscv (tohostAddr : ℕ) (handleSyscall : Iss → BitVec 64 → Iss) : Option Iss :=
  let inst : Word := bytes s.mem s.pc.toNat 4
  let tohost : BitVec 64 := (bytes s.mem tohostAddr 8 : BitVec 64) &&& 0xffffffff
  execInsn inst (if tohost ≠ 0 then handleSyscall s tohost else s)

/-! ### Values in memory -/

theorem getLsbD_bytes (mem : ℕ → BitVec 8) (a n j : ℕ) :
    (bytes mem a n).getLsbD j = (decide (j < 8 * n) && (mem (a + j / 8)).getLsbD (j % 8)) := by
  induction n with
  | zero => simp [bytes]
  | succ n ih =>
      rw [bytes, BitVec.getLsbD_cast, BitVec.getLsbD_append, ih]
      by_cases hj : j < 8 * n
      · have hj' : j < 8 * (n + 1) := by omega
        simp [hj, hj']
      · by_cases hj' : j < 8 * (n + 1)
        · have hd : j / 8 = n := by omega
          have hm : j - 8 * n = j % 8 := by omega
          simp [hj, hj', hd, hm]
        · have h8 : 8 ≤ j - 8 * n := by omega
          simp [hj, hj', BitVec.getLsbD_of_ge _ _ h8]

theorem bytes_eq_zero_iff {mem : ℕ → BitVec 8} {a n : ℕ} :
    bytes mem a n = 0 ↔ ∀ k < n, mem (a + k) = 0 := by
  constructor
  · intro h k hk
    apply BitVec.eq_of_getLsbD_eq
    intro j hj
    have hbit := congrArg (BitVec.getLsbD · (8 * k + j)) h
    have hd : (8 * k + j) / 8 = k := by omega
    have hm : (8 * k + j) % 8 = j := by omega
    have hlt : 8 * k + j < 8 * n := by omega
    simp only [getLsbD_bytes, hd, hm, hlt, decide_true, Bool.true_and] at hbit
    exact hbit.trans (by simp)
  · intro h
    apply BitVec.eq_of_getLsbD_eq
    intro j hj
    rw [getLsbD_bytes, h (j / 8) (by omega)]
    simp

end Iss

end Rv32Core
