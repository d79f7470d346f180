import Rv32Core.Checker.MulDiv
import Rv32Core.Exec.Operands

/-! # The values of the registers

Register 0 reads as zero, every other register as what the register file holds.  A register nobody
writes keeps its value, one that is written has what the write port delivers, and what a started uop
reads, forwarded or not, is the value of its source.  The multiplier and the divider carry the
results of the operands they were started on to the write port. -/

namespace Rv32Core

open Clocked RingBuffer AgeMatrix

/-! ### The multiplier -/

/-- Stage `k` holds the result of the multiplication `op`. -/
def Mul.Holds (m : Mul) (k : Fin 4) (op : Opcode) (a b : Word) : Prop :=
  usesMul op = true ∧
    (if m.rIsHigh k then (m.rMul k).extractLsb' 32 32 else (m.rMul k).setWidth 32) =
      mExtValue op a b

theorem Mul.Holds.step {m : Mul} {k : Fin 4} {op : Opcode} {a b : Word} (h : m.Holds (k - 1) op a b)
    (hk : k ≠ 0) (i : MulIn) : (m.step i).Holds k op a b := by
  have hh : (m.step i).rIsHigh k = m.rIsHigh (k - 1) := if_neg hk
  have hm : (m.step i).rMul k = m.rMul (k - 1) := if_neg hk
  rw [Holds, hh, hm]
  exact h

theorem Mul.Holds.result {m : Mul} {op : Opcode} {a b : Word} (h : m.Holds 3 op a b) :
    m.y.setWidth 32 = mExtValue op a b := by
  rw [← h.2, y]
  cases m.rIsHigh 3
  · rfl
  · exact BitVec.setWidth_setWidth_of_le _ (by decide)

theorem mul_low (a b : Word) : (a.signExtend 64 * b.signExtend 64).setWidth 32 = a * b := by
  have h : ∀ x : Word, (x.signExtend 64).setWidth 32 = x := fun x => by
    ext j hj
    rw [BitVec.getElem_setWidth, BitVec.getLsbD_signExtend]
    simp [hj, show j < 64 by omega]
  rw [BitVec.setWidth_mul _ _ (by decide), h, h]

theorem Exec.mul_start {s : Exec} {i : ExecIn} (h : usesMul s.intUop.op = true) :
    (s.mul.step (s.mulIn i)).Holds 0 s.intUop.op s.tSrcA s.tSrcB := by
  have hh : (s.mul.step (s.mulIn i)).rIsHigh 0 = (s.intUop.op == .mulhu || s.intUop.op == .mulh) :=
    rfl
  have hm : (s.mul.step (s.mulIn i)).rMul 0 = if s.intUop.op == .mul || s.intUop.op == .mulh then
      s.tSrcA.signExtend 64 * s.tSrcB.signExtend 64
    else s.tSrcA.setWidth 64 * s.tSrcB.setWidth 64 := rfl
  refine ⟨h, ?_⟩
  rw [hh, hm]
  cases ho : s.intUop.op <;> rw [ho] at h <;> try cases h
  · exact mul_low _ _
  · rfl
  · rfl

/-! ### The divider -/

/-- The divider is on its way to the result of the division `op`. -/
def Divider.Works (d : Divider 5) (op : Opcode) (a b : Word) : Prop :=
  usesDiv op = true ∧ ∃ j : DivIn 5, j.srcA = a ∧ j.srcB = b ∧
    j.isSignedDiv = (op == .div || op == .rem) ∧ j.isRem = (op == .rem || op == .remu) ∧
    match d.rState with
    | .idle => False
    | .divide => ∃ k, d.Dividing j k
    | .packOutput => d.Steps j 32
    | .waitForWb => d.Packed j

theorem Divider.Works.step {d : Divider 5} {op : Opcode} {a b : Word} (h : d.Works op a b)
    {i : DivIn 5} (hs : (d.step i).rState ≠ .idle) : (d.step i).Works op a b := by
  obtain ⟨hop, j, ha, hb, hsg, hr, hd⟩ := h
  refine ⟨hop, j, ha, hb, hsg, hr, ?_⟩
  cases hst : d.rState with
  | idle =>
      rw [hst] at hd
      exact hd.elim
  | divide =>
      rw [hst] at hd
      obtain ⟨k, hk⟩ := hd
      by_cases hl : k + 1 = 2 ^ 5
      · rw [hk.last hl]
        have hk' := hk.steps (j := i)
        rw [hl] at hk'
        exact hk'
      · have hlt := hk.idx
        have hn := hk.step (j := i) (by omega)
        rw [hn.state]
        exact ⟨_, hn⟩
  | packOutput =>
      rw [hst] at hd
      obtain ⟨hn, hp⟩ := Divider.Steps.pack (j := i) hd hst
      rw [hn]
      exact hp
  | waitForWb => exact absurd (Divider.step_waitForWb hst) hs

theorem Divider.Works.result {d : Divider 5} {op : Opcode} {a b : Word} (h : d.Works op a b)
    (hc : d.complete = true) : d.result = dividerValue op a b := by
  obtain ⟨-, j, rfl, rfl, hsg, hr, hd⟩ := h
  rw [of_decide_eq_true hc] at hd
  rw [hd.result, hr, hsg]
  rfl

theorem Exec.div_start {s : Exec} {i : ExecIn} (hs : s.div.rState = .idle)
    (h : s.tStartDiv32 i = true) :
    (s.div.step (s.divIn i)).Works s.intUop.op s.tSrcA s.tSrcB := by
  have hd := Divider.dividing_start (i := s.divIn i) hs h
  refine ⟨(Bool.and_eq_true _ _ |>.mp h).1, s.divIn i, rfl, rfl, rfl, rfl, ?_⟩
  rw [hd.state]
  exact ⟨0, hd⟩

namespace Exec

variable {s : Exec} {i : ExecIn} {l : OperandLog} {q : ExecLog} {r : PrfPtr}

/-! ### Values -/

/-- The value of a register. -/
def value (s : Exec) (r : PrfPtr) : Word := if r = 0 then 0 else s.rRam r

theorem value_kept (h : s.writes i r = false) : (s.step i).value r = s.value r := by
  rw [value, value, (unwritten h fun _ => none).1]

theorem nRegs_of_writes (ha : (s.written i).Nodup) (regs : PrfPtr → Option Word) :
    (i.memRspDstValid = true ∧ r = i.memRspDstPtr →
      nRegs regs s i r = some i.memRspLoadData) ∧
    (s.wrInt = true ∧ r = s.intUop.dst → nRegs regs s i r = some s.alu.result) ∧
    (s.wrInt2 = true ∧ r = s.intUop2.dst → nRegs regs s i r = some s.alu2.result) ∧
    (s.tMulComplete = true ∧ r = s.mul.prfPtrOut →
      nRegs regs s i r = some (s.mul.y.setWidth 32)) ∧
    (s.tDivComplete = true ∧ r = s.div.prfPtrOut → nRegs regs s i r = some s.div.result) := by
  obtain ⟨hone, htwo, hthree, hfour⟩ := one_writer ha r
  unfold nRegs
  simp only [writeIf_apply]
  refine ⟨fun h => if_pos h, fun h => ?_, fun h => ?_, fun h => ?_, fun h => ?_⟩
  · rw [if_neg fun hc => hone hc h, if_neg fun hc => (hfour hc).2.2.1 h,
      if_neg fun hc => (hthree hc).2.2 h, if_neg fun hc => (htwo hc).1 h, if_pos h]
  · rw [if_neg (htwo h).2, if_neg fun hc => (hfour hc).2.1 h, if_neg fun hc => (hthree hc).2.1 h,
      if_pos h]
  · rw [if_neg (hthree h).1, if_neg fun hc => (hfour hc).2.2.2 h, if_pos h]
  · rw [if_neg (hfour h).1, if_pos h]

/-- **A register written has what the write port delivers.** -/
theorem Moves.value_written (hm : Moves s l i) (hp : PortInv s) (h0 : 0 ∉ s.writers l.loads)
    (hw : s.writes i r = true) {v : Word} (hv : nRegs l.regs s i r = some v) :
    (s.step i).value r = v := by
  obtain ⟨w, hw', hram, -⟩ := written_value hp hm.apart hw l.regs
  have hne : r ≠ 0 := fun hr => h0 (hr ▸ hm.was r (mem_written.mpr hw))
  rw [value, if_neg hne, hram]
  exact Option.some.inj (hw'.symm.trans hv)

/-- The register has the value `v`, and nothing is still to write it. -/
structure Has (s : Exec) (loads : Multiset PrfPtr) (r : PrfPtr) (v : Word) : Prop where
  value : s.value r = v
  quiet : r ∉ s.writers loads

theorem Moves.has (hm : Moves s l i) {v : Word} (h : s.Has l.loads r v)
    (hp : pushes i r = false) : (s.step i).Has (nLoads l.loads s i) r v := by
  have hw : s.writes i r = false := Bool.eq_false_iff.mpr fun hw =>
    h.quiet (hm.was r (mem_written.mpr hw))
  refine ⟨(value_kept hw).trans h.value, fun hr => ?_⟩
  obtain hr | hr := hm.source r hr
  · exact h.quiet hr
  · rw [hp] at hr
    cases hr

theorem Moves.has_written (hm : Moves s l i) (hp : PortInv s) (h0 : 0 ∉ s.writers l.loads)
    (hw : s.writes i r = true) {v : Word} (hv : nRegs l.regs s i r = some v) :
    (s.step i).Has (nLoads l.loads s i) r v :=
  ⟨hm.value_written hp h0 hw hv, hm.gone r (mem_written.mpr hw)⟩

/-- What a read port selects for a register that is settled or heard of in this cycle. -/
theorem Moves.selects (hm : Moves s l i) (hp : PortInv s) (h0 : 0 ∉ s.writers l.loads)
    (h : s.Settled l r ∨ s.wakesNow i r = true) (hpush : pushes i r = false) :
    (s.step i).Selects (s.readPort i r) ((s.step i).value r) := by
  cases hw : s.writes i r
  · obtain ⟨-, -, hsel⟩ := unwritten hw l.regs
    rw [value_kept hw]
    exact hsel
  · obtain ⟨v, hv, -, hsel⟩ := written_value hp hm.apart hw l.regs
    have hnow : s.wakesNow i r = true := h.resolve_left fun hs => by
      rw [(hm.settled hs hpush).2] at hw
      cases hw
    rw [hm.value_written hp h0 hw hv]
    exact hsel hnow

/-! ### What is read -/

/-- The ports read the values of the sources. -/
structure ReadsValues (s : Exec) (l : OperandLog) : Prop where
  srcA : s.rStartInt = true → s.intUop.srcAValid = true → s.tSrcA = s.value s.intUop.srcA
  srcB : s.rStartInt = true → s.intUop.srcBValid = true → s.tSrcB = s.value s.intUop.srcB
  srcA2 : s.rStartInt2 = true → s.intUop2.srcAValid = true → s.tSrcA2 = s.value s.intUop2.srcA
  srcB2 : s.rStartInt2 = true → s.intUop2.srcBValid = true → s.tSrcB2 = s.value s.intUop2.srcB
  mem : s.rMemReady = true → s.memUq.srcAValid = true → s.tMemSrcA = s.value s.memUq.srcA
  data : s.rDqReady = true → l.fresh = true → s.tMemSrcB = s.value s.memDq.srcPtr

theorem OperandInv.readsValues_step (h : s.OperandInv l) (hq : s.QueuesInv q) (hp : PortInv s)
    (he : InOrder (s, l) i) {age age2 : SchedIdx → ℕ}
    (ho : Ordered s.sched.rValid s.sched.rMatrix age)
    (ho2 : Ordered s.sched2.rValid s.sched2.rMatrix age2) :
    (s.step i).ReadsValues (watchOperands l s i) := by
  have hm := he.moves h.once h.uops hq hp ho ho2
  have hheld : ∀ u ∈ s.sched.held, u ∈ s.waiting := fun u hu =>
    Multiset.mem_add.mpr (.inl (Multiset.mem_add.mpr (.inr hu)))
  have hheld2 : ∀ u ∈ s.sched2.held, u ∈ s.waiting := fun u hu => Multiset.mem_add.mpr (.inr hu)
  have hsel : ∀ {r n}, s.Reads n r → s.Settled l r ∨ s.wakesNow i r = true →
      (s.step i).Selects (s.readPort i r) ((s.step i).value r) := fun hr hs =>
    hm.selects hp h.nonzero hs (he.not_pushed hr)
  have hone : (s.step i).rStartInt = true → _ := fun hs =>
    h.picked ho (start_of_step hs).1 hheld (fun _ => rfl) (fun _ => rfl) h.srcARdy h.srcBRdy
  have htwo : (s.step i).rStartInt2 = true → _ := fun hs =>
    h.picked ho2 (Bool.and_eq_true _ _ |>.mp hs).1 hheld2 (fun _ => rfl) (fun _ => rfl)
      h.srcARdy2 h.srcBRdy2
  refine ⟨fun hs hv => ?_, fun hs hv => ?_, fun hs hv => ?_, fun hs hv => ?_, fun hs hv => ?_,
    fun hs hf => ?_⟩
  · obtain ⟨hu, ha, -⟩ := hone hs
    exact (hsel (n := 0) (.inl ⟨_, hu, .inl ⟨hv, rfl⟩⟩) (ha hv)).1
  · obtain ⟨hu, -, hb⟩ := hone hs
    exact (hsel (n := 0) (.inl ⟨_, hu, .inr ⟨hv, rfl⟩⟩) (hb hv)).1
  · obtain ⟨hu, ha, -⟩ := htwo hs
    exact (hsel (n := 0) (.inl ⟨_, hu, .inl ⟨hv, rfl⟩⟩) (ha hv)).1
  · obtain ⟨hu, -, hb⟩ := htwo hs
    exact (hsel (n := 0) (.inl ⟨_, hu, .inr ⟨hv, rfl⟩⟩) (hb hv)).1
  · have hpop : s.tPopMemUq i = true := hs
    have hread : s.Reads l.old s.tMemUq.srcA :=
      .inr (.inl ⟨_, ExecQueue.head_mem (tPopMemUq_spec hpop).1, .inl ⟨hv, rfl⟩⟩)
    unfold tPopMemUq memSrcAReady at hpop
    have hv' : s.tMemUq.srcAValid = true := hv
    rw [if_pos hv', Bool.and_eq_true, Bool.and_eq_true, Bool.or_eq_true, Bool.not_eq_true'] at hpop
    exact (hsel hread (hpop.1.2.imp_left (h.settled_of_idle hread))).2
  · have hpop : s.tPopMemDq i = true := hs
    have hold : (l.old == 0) = true := hf
    have hread : s.Reads l.old s.tMemDq.srcPtr := by
      rw [beq_iff_eq.mp hold]
      exact .inr (.inr ⟨_, ExecQueue.head_mem (tPopMemDq_spec hpop).1, rfl⟩)
    unfold tPopMemDq dqReady at hpop
    rw [Bool.and_eq_true, Bool.and_eq_true, Bool.or_eq_true, Bool.not_eq_true'] at hpop
    exact (hsel hread (hpop.1.2.imp_left (h.settled_of_idle hread))).2

theorem readsValues_of_reach {x : Exec × OperandLog} (h : operandExec.Reach InOrder x) :
    x.1.ReadsValues x.2 := by
  cases h with
  | reset h0 =>
      obtain ⟨hs, -⟩ := h0
      refine ⟨fun h => ?_, fun h => ?_, fun h => ?_, fun h => ?_, fun h => ?_, fun h => ?_⟩
      · rw [hs.rStartInt] at h; cases h
      · rw [hs.rStartInt] at h; cases h
      · rw [hs.rStartInt2] at h; cases h
      · rw [hs.rStartInt2] at h; cases h
      · rw [hs.rMemReady] at h; cases h
      · rw [hs.rDqReady] at h; cases h
  | @step x i hr he =>
      have hx := reach_operands hr
      obtain ⟨q, hq⟩ := hx.exists_observed emptyLog watchQueues
      obtain ⟨age, ho⟩ := AluSched.ordered_of_reach (reach_sched hx)
      obtain ⟨age2, ho2⟩ := AluSched.ordered_of_reach (reach_sched2 hx)
      exact (operandInv_of_reach hr).readsValues_step (queuesInv_of_reach hq) (portInv_of_reach hx)
        he ho ho2

end Exec
end Rv32Core
