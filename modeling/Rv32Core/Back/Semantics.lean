import Rv32Core.Checker.Legality
import Rv32Core.Exec.SecondPort
import Rv32Core.Exec.Values
import Rv32Core.L1d.Held

/-! # What one instruction does

`Effect` is what an entry of the ROB keeps of an execution, and `Uop.Runs u a b r x` says that `x`
is the effect of the decoded uop `u` on the source values `a` and `b`; a load or a store also has the
answer `r` of the data cache.  Renaming changes none of it, and either port computes it. -/

namespace Rv32Core

/-- What an entry of the ROB keeps of an execution. -/
structure Effect where
  faulted : Bool
  targetPc : Word
  isIi : Bool
  isBadAddr : Bool
  takeBr : Bool
  data : Word

/-- The effect of an entry. -/
def RobEntry.effect (e : RobEntry) : Effect :=
  ⟨e.faulted, e.targetPc, e.isIi, e.isBadAddr, e.takeBr, e.data⟩

/-- The effect a completion bundle reports. -/
def Complete.effect (e : Complete) : Effect :=
  ⟨e.faulted, e.restartPc, e.isIi, false, e.takeBr, e.data⟩

namespace Effect

/-- The effect of an entry when it is allocated. -/
def initial (u : Uop) : Effect :=
  ⟨Core.folds u.op && u.op == .ii, u.pc + 4, Core.folds u.op && u.op == .ii, false,
    Core.folds u.op && u.op == .j, 0⟩

/-- The effect of the multiplier or the divider. -/
def unit (v : Word) : Effect := ⟨false, 0, false, false, false, v⟩

/-- The effect of an integer port. -/
def port (x : Alu) : Effect :=
  ⟨x.mispredBr || x.unimpOp, x.pc, x.unimpOp, false, x.takeBr, x.result⟩

/-- The effect of an answer of the data cache. -/
def answer (u : Uop) (r : MemRsp) : Effect :=
  ⟨r.badAddr, u.pc + 4, false, r.badAddr, false, r.data⟩

end Effect

/-- The request built for the uop `u` with the base address `a`. -/
def MemReq.BuiltFor (q : MemReq) (u : Uop) (a : Word) : Prop :=
  ∃ e : Exec, e.memUq = u ∧ e.tMemSrcA = a ∧ q = e.tMemTail

/-- **The effects of an instruction.**  A folded uop has its effect from the start, the units and
the ports compute theirs from the two sources, and a load or a store has that of an answer to the
request made of it. -/
inductive Uop.Runs (u : Uop) (a b : Word) (r : MemRsp) : Effect → Prop
  | folded (hf : Core.folds u.op = true) : Runs u a b r (.initial u)
  | mul (hu : usesMul u.op = true) : Runs u a b r (.unit (mExtValue u.op a b))
  | div (hu : usesDiv u.op = true) : Runs u a b r (.unit (dividerValue u.op a b))
  | port (c : Counters) (hi : u.isInt = true) (hf : Core.folds u.op = false)
      (hu : u.op.usesUnit = false) : Runs u a b r (.port (Port1.alu c u a b))
  | mem (q : MemReq) (v : Uop) (hm : u.isMem = true) (hf : Core.folds u.op = false)
      (hv : v.Renames u) (hq : q.BuiltFor v a) (ha : L1d.AnswersFor r q) :
      Runs u a b r (.answer u r)

/-! ### Requests -/

theorem MemReq.BuiltFor.robPtr {q : MemReq} {u : Uop} {a : Word} (h : q.BuiltFor u a) :
    q.robPtr = u.robPtr := by
  obtain ⟨e, rfl, -, rfl⟩ := h
  exact Exec.tMemTail_robPtr e

theorem MemReq.BuiltFor.dstPtr {q : MemReq} {u : Uop} {a : Word} (h : q.BuiltFor u a) :
    q.dstPtr = u.dst := by
  obtain ⟨e, rfl, -, rfl⟩ := h
  unfold Exec.tMemTail
  cases e.memUq.op <;> rfl

theorem MemReq.BuiltFor.addr {q : MemReq} {u : Uop} {a : Word} (h : q.BuiltFor u a) :
    q.addr = a + u.rvimm := by
  obtain ⟨e, rfl, rfl, rfl⟩ := h
  unfold Exec.tMemTail
  cases e.memUq.op <;> rfl

/-! ### Ports -/

variable {u v : Uop} {c : Counters} {a b : Word}

theorem Uop.Renames.kept (h : u.Renames v) : u.op = v.op ∧ u.isInt = v.isInt ∧ u.isMem = v.isMem ∧
    u.srcAValid = v.srcAValid ∧ u.srcBValid = v.srcBValid ∧ u.dstValid = v.dstValid := by
  obtain ⟨_, _, _, _, rfl⟩ := h
  exact ⟨rfl, rfl, rfl, rfl, rfl, rfl⟩

theorem Port1.alu_renames (h : v.Renames u) : (Port1.alu c v a b) = Port1.alu c u a b := by
  obtain ⟨x, y, d, p, rfl⟩ := h
  rfl

theorem Port2.unimpOp_of_onBothPorts (h : OnBothPorts u.op = true) :
    (Port2.alu c u a b).unimpOp = false := by
  rw [Port2.alu_eq_eval c u a b h, Uop.eval]
  cases u.op <;> rfl

/-- An operation that writes is computed by port 1, or by a unit. -/
theorem Port1.wrIntPrf_of_writes (h : u.op.writes = true) (hu : u.op.usesUnit = false)
    (hp : OnPort1 u.op = true) : (Port1.alu c u a b).wrIntPrf = true := by
  unfold Port1.alu
  cases ho : u.op <;> rw [ho] at h hu hp <;> first
    | rfl
    | exact absurd hp (by decide)
    | exact absurd hu (by decide)
    | exact absurd h (by decide)

end Rv32Core
