import Rv32Core.Back.Retire
import Rv32Core.Front.Prediction

/-! # Where execution goes on

`Uop.next` is the pc behind an instruction, read off its effect: the target of a folded jump, the
target a port found for another branch, the next word for the rest.  An effect that is not faulted
goes where fetch went; the only fault that is no exception is a misprediction, and then the entry
has the right target; and a serializing uop goes to the next word or stops the machine. -/

namespace Rv32Core

/-- The pc behind an instruction. -/
def Uop.next (u : Uop) (o : Effect) : Word :=
  if u.op = .j then u.rvimm else if u.isBr then o.targetPc else u.pc + 4

/-- The pc of a retired instruction, and the one behind it. -/
def RetiredUop.pc (y : RetiredUop) : Word := y.uop.pc
def RetiredUop.next (y : RetiredUop) : Word := y.uop.next y.effect

/-- Every effect of the uop is an exception. -/
def Uop.Stops (u : Uop) : Prop :=
  ∀ a b r o, u.Runs a b r o → o.faulted = true ∧ o.isIi = true

/-! ### Operations of the decoder -/

/-- The operations that a port resolves as branches. -/
def Opcode.flows : Opcode → Bool
  | .beq | .bne | .blt | .bge | .bltu | .bgeu | .jal | .jalr | .jr | .ret => true
  | _ => false

theorem isBr_of_flows {f : InsnFetch} (h : (decodeRiscv f).op.flows = true) :
    (decodeRiscv f).isBr = true := by
  have hk : ∀ k ∈ UopKind.decoded, k.op.flows = true → k.isBr = true := by decide
  exact hk _ (decodeRiscv_kind f) h

theorem Port1.flows_of_mispredBr {c : Counters} {u : Uop} {a b : Word}
    (h : (Port1.alu c u a b).mispredBr = true) : u.op.flows = true := by
  unfold Port1.alu at h
  cases ho : u.op <;> rw [ho] at h <;> first
    | rfl
    | exact absurd h Bool.false_ne_true

theorem branchOps {f : InsnFetch} (h : (decodeRiscv f).isBr = true) :
    (decodeRiscv f).op.flows = true ∨ (decodeRiscv f).op = .j ∨ (decodeRiscv f).op = .ii := by
  have hk : ∀ k ∈ UopKind.decoded, k.isBr = true →
      k.op.flows = true ∨ k.op = .j ∨ k.op = .ii := by decide
  exact hk _ (decodeRiscv_kind f) h

/-! ### Effects -/

section Effects

variable {f : InsnFetch} {a b : Word} {r : MemRsp} {o : Effect}

/-- **An effect that is not faulted goes where fetch went.** -/
theorem Uop.Runs.next_eq (h : (decodeRiscv f).Runs a b r o) (hx : f.Predicted)
    (hf : o.faulted = false) : (decodeRiscv f).next o = f.nextPc := by
  cases hb : (decodeRiscv f).isBr
  · have hj : (decodeRiscv f).op ≠ .j := fun hj => by
      have h6f := jal_of_op f (.inl hj)
      rw [(BranchUop.jal h6f (by simp [decodeRiscv, h6f])).isBr] at hb
      cases hb
    rw [Uop.next, if_neg hj, hb, if_neg Bool.false_ne_true, decodeRiscv_pc, nextPc_plain hx hb]
  · by_cases hj : (decodeRiscv f).op = .j
    · have h6f := jal_of_op f (.inl hj)
      have hd : decodeRiscv f = decodeJal f := by simp [decodeRiscv, h6f]
      rw [Uop.next, if_pos hj, (nextPc_jal hx h6f).2, hd, ← tImm_jal h6f]
      rfl
    rw [Uop.next, if_neg hj, hb, if_pos rfl]
    have hops := branchOps hb
    cases h with
    | folded hfold =>
        obtain hfl | hj' | hii := hops
        · exfalso
          revert hfl hfold
          cases (decodeRiscv f).op <;> intro hfl hfold <;> first | cases hfl; done | cases hfold
        · exact absurd hj' hj
        · rw [show (Effect.initial (decodeRiscv f)).faulted = (_ && _) from rfl, hii] at hf
          cases hf
    | mul hu | div hu =>
        exfalso
        revert hops hu
        cases (decodeRiscv f).op <;> intro hops hu <;> first
          | cases hu; done
          | obtain hops | hops | hops := hops <;> cases hops
    | port c hi hfold hu =>
        have hren : (decodeRiscv f).Renames (decodeRiscv f) := ⟨_, _, _, _, rfl⟩
        obtain ⟨hboth, hm⟩ := Uop.eval_pc hren hx hb hfold c a b
        rw [show (Effect.port (Port1.alu c (decodeRiscv f) a b)).faulted = (_ || _) from rfl,
          Bool.or_eq_false_iff] at hf
        rw [Port1.alu_eq_eval c _ a b hboth] at hf ⊢
        exact (hm hf.1).symm
    | mem q v hmem _ _ _ _ =>
        exfalso
        cases branchUop hb with
        | branch _ hd | jalr _ hd | jal _ hd =>
            rw [hd] at hmem
            cases hmem

/-- **A fault that is no exception is a misprediction**, and the entry has the right target. -/
theorem Uop.Runs.target_eq (h : (decodeRiscv f).Runs a b r o) (hf : o.faulted = true)
    (hi : o.isIi = false) (hm : o.isBadAddr = false) : o.targetPc = (decodeRiscv f).next o := by
  cases h with
  | folded _ =>
      rw [show (Effect.initial (decodeRiscv f)).faulted =
        (Effect.initial (decodeRiscv f)).isIi from rfl, hi] at hf
      cases hf
  | mul _ | div _ => cases hf
  | port c _ hfold _ =>
      rw [show (Effect.port (Port1.alu c (decodeRiscv f) a b)).faulted = (_ || _) from rfl,
        show (Port1.alu c (decodeRiscv f) a b).unimpOp = false from hi, Bool.or_false] at hf
      have hfl := Port1.flows_of_mispredBr hf
      have hj : (decodeRiscv f).op ≠ .j := fun hj => by
        rw [hj] at hfl
        cases hfl
      rw [Uop.next, if_neg hj, isBr_of_flows hfl, if_pos rfl]
  | mem _ _ _ _ _ _ _ =>
      rw [show (Effect.answer (decodeRiscv f) r).faulted =
        (Effect.answer (decodeRiscv f) r).isBadAddr from rfl, hm] at hf
      cases hf

/-! ### Serializing uops -/

/-- The operations of serializing uops. -/
def Opcode.serial : Opcode → Bool
  | .brk | .monitor | .nop | .rdinstret | .rdinstreth | .rdbranch | .rdfaultedbranch => true
  | _ => false

/-- A serializing uop is one of these, and executed by a port if at all. -/
def Uop.SerialOk (u : Uop) : Prop :=
  u.serializingOp = true → u.op.serial = true ∧ u.isBr = false ∧ u.isMem = false

theorem decodeRiscv_serialOk (f : InsnFetch) : (decodeRiscv f).SerialOk := by
  have h : ∀ k ∈ UopKind.decoded, k.serializingOp = true →
      k.op.serial = true ∧ k.isBr = false ∧ k.isMem = false := by decide
  exact h _ (decodeRiscv_kind f)

/-- A serializing uop goes on at the next word. -/
theorem Uop.next_serial (hz : (decodeRiscv f).serializingOp = true) (o : Effect) :
    (decodeRiscv f).next o = (decodeRiscv f).pc + 4 := by
  obtain ⟨hop, hb, -⟩ := decodeRiscv_serialOk f hz
  have hj : (decodeRiscv f).op ≠ .j := fun hj => by
    rw [hj] at hop
    cases hop
  rw [Uop.next, if_neg hj, hb, if_neg Bool.false_ne_true]

/-- Its entry says so, or else it is an exception. -/
theorem serial_target (hz : (decodeRiscv f).serializingOp = true) :
    (∀ a b r o, (decodeRiscv f).Runs a b r o → o.targetPc = (decodeRiscv f).pc + 4) ∨
      (decodeRiscv f).Stops := by
  obtain ⟨hop, -, hmem⟩ := decodeRiscv_serialOk f hz
  by_cases hs : (decodeRiscv f).op = .brk ∨ (decodeRiscv f).op = .monitor
  · refine .inr fun a b r o h => ?_
    cases h with
    | folded hf => obtain hs | hs := hs <;> rw [hs] at hf <;> cases hf
    | mul hu | div hu => obtain hs | hs := hs <;> rw [hs] at hu <;> cases hu
    | port c _ _ _ =>
        have hun : (Port1.alu c (decodeRiscv f) a b).unimpOp = true := by
          unfold Port1.alu
          obtain hs | hs := hs <;> rw [hs]
        exact ⟨by rw [Effect.port, hun, Bool.or_true], hun⟩
    | mem _ _ hm _ _ _ _ =>
        rw [hmem] at hm
        cases hm
  · refine .inl fun a b r o h => ?_
    rw [not_or] at hs
    cases h with
    | folded _ => rfl
    | mul hu | div hu =>
        exfalso
        revert hop hu
        cases (decodeRiscv f).op <;> intro hop hu <;> first | cases hop; done | cases hu
    | port c _ hf _ =>
        show (Port1.alu c (decodeRiscv f) a b).pc = _
        unfold Port1.alu
        revert hop hf
        cases ho : (decodeRiscv f).op <;> intro hop hf <;> first
          | rfl
          | exact absurd ho hs.1
          | exact absurd ho hs.2
          | cases hop; done
          | cases hf
    | mem _ _ hm _ _ _ _ =>
        rw [hmem] at hm
        cases hm

end Effects

end Rv32Core
