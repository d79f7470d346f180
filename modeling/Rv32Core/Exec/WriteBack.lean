import Rv32Core.Exec.Model

/-! # Write-back port 1

Integer operations, the multiplier and the divider share one write port and one completion
bundle.  They are kept apart by `r_wb_bitvec`, whose bit `k` says that the port is taken `k`
cycles from now: by the multiplication in stage `3 - k`, or by the division with `k` cycles to
go.  A uop is selected only when the slot it will need is free, and a division only when the
divider will be idle. -/

namespace Rv32Core

open Clocked AgeMatrix

/-! ### The units -/

/-- The cycles until the divider completes. -/
def Divider.remaining (d : Divider 5) : Option ℕ :=
  match d.rState with
  | .idle => none
  | .divide => some (d.rIdx.toNat + 2)
  | .packOutput => some 1
  | .waitForWb => some 0

namespace Divider

variable {d : Divider 5} {i : DivIn 5}

theorem remaining_eq_none_iff : d.remaining = none ↔ d.rState = .idle := by
  unfold remaining
  cases d.rState <;> simp

theorem complete_iff : d.complete = true ↔ d.remaining = some 0 := by
  unfold complete remaining
  cases d.rState <;> simp

theorem remaining_lt (k : ℕ) (h : d.remaining = some k) : k < 34 := by
  have := d.rIdx.isLt
  unfold remaining at h
  cases hs : d.rState <;> rw [hs] at h <;> simp at h <;> omega

/-- A division in progress comes one cycle closer to its end, whatever is offered. -/
theorem remaining_step (h : d.rState ≠ .idle) (k : ℕ) :
    (d.step i).remaining = some k ↔ d.remaining = some (k + 1) := by
  unfold remaining step
  cases hs : d.rState with
  | idle => exact absurd hs h
  | divide =>
      by_cases h0 : d.rIdx = 0
      · simp only [h0, if_true, Option.some_inj]
        show 1 = k ↔ 0 + 2 = k + 1
        omega
      · have hne : d.rIdx.toNat ≠ 0 := fun he => h0 (BitVec.eq_of_toNat_eq he)
        have hsub : (d.rIdx - 1).toNat = d.rIdx.toNat - 1 := by
          rw [BitVec.toNat_sub_of_le (by rw [BitVec.le_def]; show 1 ≤ _; omega)]
          rfl
        simp only [h0, if_false, hsub, Option.some_inj]
        omega
  | packOutput =>
      simp only [Option.some_inj]
      omega
  | waitForWb => simp

theorem remaining_start (h : d.rState = .idle) :
    (d.step i).remaining = if i.startDiv then some 33 else none := by
  unfold remaining step
  rw [h]
  cases i.startDiv <;> rfl

end Divider

/-- Port 1 computes nothing for a multiplication or a division. -/
theorem Port1.aluValid_eq (c : Counters) (u : Uop) (a b : Word) :
    (Port1.alu c u a b).aluValid = !(usesMul u.op || usesDiv u.op) := by
  unfold Port1.alu
  cases u.op <;> rfl

theorem Port1.aluValid_of_wrIntPrf (c : Counters) (u : Uop) (a b : Word)
    (h : (Port1.alu c u a b).wrIntPrf = true) : (Port1.alu c u a b).aluValid = true := by
  rw [Port1.aluValid_eq]
  unfold Port1.alu at h
  cases ho : u.op <;> rw [ho] at h <;> first | rfl | cases h

namespace Exec

variable {s : Exec} {i : ExecIn}

/-! ### The schedulers of the execution unit -/

theorem offers_schedIn (s : Exec) (i : ExecIn) : s.sched.Offers (s.schedIn i) := by
  intro hp
  have h : (!(i.dsDone || s.rUq.empty || s.sched.full)) = true := hp
  rw [Bool.not_eq_true', Bool.or_eq_false_iff, Bool.or_eq_false_iff] at h
  exact ⟨h.2, h.1.1⟩

theorem tPopUq_of_tPopUq2 (h : s.tPopUq2 i = true) :
    s.tPopUq i = true ∧ s.uq2.isCheapInt = true ∧ s.sched2.full = false := by
  unfold tPopUq2 at h
  split_ifs at h
  rw [Bool.and_eq_true, Bool.and_eq_true, Bool.not_eq_true'] at h
  exact ⟨h.1.1, h.1.2, h.2⟩

theorem offers_schedIn2 (s : Exec) (i : ExecIn) : s.sched2.Offers (s.schedIn2 i) := by
  intro hp
  obtain ⟨hq, -, hf⟩ := tPopUq_of_tPopUq2 hp
  exact ⟨hf, (offers_schedIn s i hq).2⟩

variable {env : Exec → ExecIn → Prop}

theorem reach_sched (h : execMachine.Reach env s) :
    schedMachine.Reach AluSched.Offers s.sched :=
  h.map (N := schedMachine) Exec.sched schedIn (fun _ (h0 : IsReset _) => h0.sched)
    (fun _ _ _ => rfl) fun x i _ _ => offers_schedIn x i

theorem reach_sched2 (h : execMachine.Reach env s) :
    schedMachine.Reach AluSched.Offers s.sched2 :=
  h.map (N := schedMachine) Exec.sched2 schedIn2 (fun _ (h0 : IsReset _) => h0.sched2)
    (fun _ _ _ => rfl) fun x i _ _ => offers_schedIn2 x i

theorem picked_ready (h : execMachine.Reach env s)
    (hr : s.sched.anyRdy (s.schedIn i) = true) :
    s.sched.entryRdy (s.schedIn i) (s.sched.selectPtr (s.schedIn i)) = true := by
  obtain ⟨age, ho⟩ := AluSched.ordered_of_reach (reach_sched h)
  exact AluSched.selectPtr_ready ho hr

/-! ### The reservations -/

/-- The reservations are those of the two units, and the slot of a starting uop is free. -/
structure PortInv (s : Exec) : Prop where
  slots : ∀ k : Fin 34, s.rWbBitvec k = true ↔
    (∃ j : Fin 4, j.val + k.val = 3 ∧ s.mul.rComplete j = true) ∨ s.div.remaining = some k.val
  apart : ∀ j : Fin 4, s.mul.rComplete j = true → s.div.remaining ≠ some (3 - j.val)
  div : s.rStartInt = true → usesDiv s.intUop.op = true → s.div.rState = .idle
  mul : s.rStartInt = true → usesMul s.intUop.op = true → s.rWbBitvec 4 = false
  alu : s.rStartInt = true → usesDiv s.intUop.op = false → usesMul s.intUop.op = false →
    s.rWbBitvec 0 = false

theorem portInv_reset (h : s.IsReset) : PortInv s where
  slots := fun k => by
    rw [h.rWbBitvec, h.mulComplete, h.div]
    simp [Divider.remaining, Divider.init]
  apart := fun j hj => by
    rw [h.mulComplete] at hj
    cases hj
  div := fun hs => by
    rw [h.rStartInt] at hs
    cases hs
  mul := fun hs => by
    rw [h.rStartInt] at hs
    cases hs
  alu := fun hs => by
    rw [h.rStartInt] at hs
    cases hs

/-- A multiplication takes the slot three cycles ahead. -/
theorem nWbBitvec_three (s : Exec) (i : ExecIn) :
    s.nWbBitvec i 3 = ((s.mulIn i).go || s.rWbBitvec 4) := by
  unfold nWbBitvec mulIn
  cases s.tStartMul i && s.rStartInt <;> rfl

/-- A division takes the last slot. -/
theorem nWbBitvec_last (s : Exec) (i : ExecIn) :
    s.nWbBitvec i 33 = (s.divIn i).startDiv := by
  show (s.tStartDiv32 i && s.rStartInt) = s.tStartDiv32 i
  unfold tStartDiv32
  cases s.rStartInt <;> simp

theorem nWbBitvec_shift (s : Exec) (i : ExecIn) {k : Fin 34} (h3 : k ≠ 3) (h33 : k ≠ 33) :
    s.nWbBitvec i k = s.rWbBitvec (k + 1) := by
  unfold nWbBitvec
  rw [if_neg h33, if_neg fun h => h3 h.1]

theorem PortInv.idle_of_start (h : PortInv s) (hd : (s.divIn i).startDiv = true) :
    s.div.rState = .idle := by
  have h3 : (usesDiv s.intUop.op && (s.rStartInt && !i.dsDone)) = true := hd
  rw [Bool.and_eq_true, Bool.and_eq_true] at h3
  exact h.div h3.2.1 h3.1

theorem PortInv.free_of_go (h : PortInv s) (hg : (s.mulIn i).go = true) :
    s.rWbBitvec 4 = false := by
  have h3 : (usesMul s.intUop.op && (s.rStartInt && !i.dsDone) && s.rStartInt) = true := hg
  rw [Bool.and_eq_true, Bool.and_eq_true] at h3
  exact h.mul h3.2 h3.1.1

theorem PortInv.remaining_step (h : PortInv s) (k : ℕ) :
    (s.step i).div.remaining = some k ↔
      ((s.divIn i).startDiv = true ∧ k = 33) ∨ s.div.remaining = some (k + 1) := by
  have hstep : (s.step i).div = s.div.step (s.divIn i) := rfl
  rw [hstep]
  by_cases hi : s.div.rState = .idle
  · have hnone : s.div.remaining ≠ some (k + 1) := by
      rw [Divider.remaining_eq_none_iff.mpr hi]
      exact nofun
    rw [Divider.remaining_start hi]
    cases (s.divIn i).startDiv <;> simp [hnone, eq_comm]
  · have hn : (s.divIn i).startDiv ≠ true := fun hd => hi (h.idle_of_start hd)
    rw [Divider.remaining_step hi]
    simp [hn]

theorem stage_shift (m : Mul) (j : MulIn) {k : ℕ} (hk : k ≠ 3) :
    (∃ l : Fin 4, l.val + k = 3 ∧ (m.step j).rComplete l = true) ↔
      ∃ l : Fin 4, l.val + (k + 1) = 3 ∧ m.rComplete l = true := by
  constructor
  · rintro ⟨l, hl, hm⟩
    have h0 : l ≠ 0 := fun he => hk (by rw [he] at hl; simpa using hl)
    refine ⟨l - 1, ?_, ?_⟩
    · rw [Fin.val_sub_one_of_ne_zero h0]
      have := Fin.pos_iff_ne_zero.mpr h0
      omega
    · have he : (m.step j).rComplete l = m.rComplete (l - 1) := if_neg h0
      rw [← he]
      exact hm
  · rintro ⟨l, hl, hm⟩
    have hlt : l.val < 3 := by omega
    have hv : (l + 1).val = l.val + 1 := Fin.val_add_one_of_lt (Fin.lt_def.mpr hlt)
    have h0 : l + 1 ≠ 0 := fun he => by
      rw [he] at hv
      cases hv
    refine ⟨l + 1, by omega, ?_⟩
    have he : (m.step j).rComplete (l + 1) = m.rComplete (l + 1 - 1) := if_neg h0
    rw [he, add_sub_cancel_right]
    exact hm

theorem PortInv.step_slots (h : PortInv s) (k : Fin 34) : (s.step i).rWbBitvec k = true ↔
    (∃ j : Fin 4, j.val + k.val = 3 ∧ (s.step i).mul.rComplete j = true) ∨
      (s.step i).div.remaining = some k.val := by
  have hwb : (s.step i).rWbBitvec k = s.nWbBitvec i k := rfl
  have hmul : (s.step i).mul = s.mul.step (s.mulIn i) := rfl
  rw [hwb, hmul, h.remaining_step]
  by_cases h33 : k = 33
  · subst h33
    have hno : s.div.remaining ≠ some (33 + 1) := fun hr =>
      absurd (Divider.remaining_lt _ hr) (by omega)
    rw [nWbBitvec_last]
    constructor
    · exact fun hd => .inr (.inl ⟨hd, rfl⟩)
    · rintro (⟨j, hj, -⟩ | ⟨hd, -⟩ | hr)
      · exact absurd hj (by simp)
      · exact hd
      · exact absurd hr hno
  · have hv : k.val ≠ 33 := fun he => h33 (Fin.ext he)
    have hk1 : (k + 1).val = k.val + 1 :=
      Fin.val_add_one_of_lt (Fin.lt_def.mpr (by have := k.isLt; show k.val < 33; omega))
    have hslot := h.slots (k + 1)
    rw [hk1] at hslot
    by_cases h3 : k = 3
    · subst h3
      rw [nWbBitvec_three, Bool.or_eq_true]
      have h4 : s.rWbBitvec 4 = true ↔ s.div.remaining = some 4 := by
        refine hslot.trans ⟨?_, .inr⟩
        rintro (⟨j, hj, -⟩ | hr)
        · exact absurd hj (by simp)
        · exact hr
      rw [h4]
      constructor
      · rintro (hg | hr)
        · exact .inl ⟨0, rfl, hg⟩
        · exact .inr (.inr hr)
      · rintro (⟨j, hj, hm⟩ | ⟨-, he⟩ | hr)
        · have hj0 : j = 0 := Fin.ext (by simpa using hj)
          rw [hj0] at hm
          exact .inl hm
        · exact absurd he hv
        · exact .inr hr
    · have hv3 : k.val ≠ 3 := fun he => h3 (Fin.ext he)
      rw [nWbBitvec_shift s i h3 h33, hslot, stage_shift _ _ hv3]
      simp [hv]

theorem PortInv.step_apart (h : PortInv s) (j : Fin 4)
    (hj : (s.step i).mul.rComplete j = true) :
    (s.step i).div.remaining ≠ some (3 - j.val) := by
  intro hr
  have hlt := j.isLt
  obtain ⟨-, he⟩ | hr := (h.remaining_step _).mp hr
  · omega
  · by_cases h0 : j = 0
    · subst h0
      have hfree := h.free_of_go (i := i) hj
      have := (h.slots 4).mpr (.inr hr)
      rw [hfree] at this
      cases this
    · have hm : s.mul.rComplete (j - 1) = true := by
        have he : (s.step i).mul.rComplete j = s.mul.rComplete (j - 1) := if_neg h0
        rw [← he]
        exact hj
      have hv := Fin.val_sub_one_of_ne_zero h0
      have hpos := Fin.pos_iff_ne_zero.mpr h0
      refine h.apart _ hm ?_
      rw [hr, hv]
      congr 1
      omega

theorem start_of_step (hs : (s.step i).rStartInt = true) :
    s.sched.anyRdy (s.schedIn i) = true ∧ i.dsDone = false := by
  have h : (s.sched.anyRdy (s.schedIn i) && !i.dsDone) = true := hs
  rw [Bool.and_eq_true, Bool.not_eq_true'] at h
  exact h

/-- What the structural hazards promise for the uop picked. -/
theorem mayStart_picked (hr : execMachine.Reach env s) (hs : (s.step i).rStartInt = true) :
    (if usesDiv (s.step i).intUop.op then s.tDivReady i
      else if usesMul (s.step i).intUop.op then !s.rWbBitvec 5 else !s.rWbBitvec 1) = true := by
  have h := picked_ready (i := i) hr (start_of_step hs).1
  unfold AluSched.entryRdy at h
  split_ifs at h with hc
  exact (Bool.and_eq_true _ _ |>.mp hc).2

theorem usesDiv_of_usesMul {op : Opcode} (h : usesMul op = true) : usesDiv op = false := by
  cases op <;> first | rfl | cases h

theorem PortInv.step (h : PortInv s) (hr : execMachine.Reach env s) : PortInv (s.step i) := by
  have hmay := mayStart_picked (i := i) hr
  refine ⟨h.step_slots, h.step_apart, fun hs hd => ?_, fun hs hm => ?_, fun hs hd hm => ?_⟩
  · have hready : s.div.ready (s.divIn i) = true := by
      have := hmay hs
      rw [if_pos hd] at this
      exact this
    unfold Divider.ready at hready
    rw [Bool.and_eq_true, Bool.not_eq_true'] at hready
    have hn := Divider.remaining_start (i := s.divIn i) (of_decide_eq_true hready.1)
    rw [hready.2] at hn
    exact Divider.remaining_eq_none_iff.mp hn
  · have hfree := hmay hs
    rw [usesDiv_of_usesMul hm, hm, if_neg Bool.false_ne_true, if_pos rfl,
      Bool.not_eq_true'] at hfree
    exact (nWbBitvec_shift s i (k := 4) (by decide) (by decide)).trans hfree
  · have hfree := hmay hs
    rw [hd, hm, if_neg Bool.false_ne_true, if_neg Bool.false_ne_true, Bool.not_eq_true'] at hfree
    exact (nWbBitvec_shift s i (k := 0) (by decide) (by decide)).trans hfree

theorem portInv_of_reach (h : execMachine.Reach env s) : PortInv s := by
  induction h with
  | reset h0 => exact portInv_reset h0
  | step hr _ ih => exact ih.step hr

/-! ### One user of the port in every cycle -/

/-- The results of port 1 in this cycle, as the completion it reports next. -/
def aluBundle (s : Exec) : Complete where
  robPtr := s.intUop.robPtr
  complete := true
  faulted := s.alu.mispredBr || s.alu.unimpOp
  restartPc := s.alu.pc
  isIi := s.alu.unimpOp
  takeBr := s.alu.takeBr
  data := s.alu.result

/-- The completion of a multiplication or a division. -/
def unitBundle (r : RobPtr) (v : Word) : Complete := ⟨r, true, false, 0, false, false, v⟩

theorem PortInv.mul_not_div (h : PortInv s) (hm : s.tMulComplete = true) :
    s.tDivComplete = false := by
  have ha := h.apart 3 hm
  exact Bool.eq_false_iff.mpr fun hd => ha (Divider.complete_iff.mp hd)

theorem PortInv.alu_alone (h : PortInv s) (hs : s.rStartInt = true)
    (hv : s.alu.aluValid = true) : s.tMulComplete = false ∧ s.tDivComplete = false := by
  have hop : (!(usesMul s.intUop.op || usesDiv s.intUop.op)) = true := by
    rw [← Port1.aluValid_eq s.counters s.intUop s.tSrcA s.tSrcB]
    exact hv
  rw [Bool.not_eq_true', Bool.or_eq_false_iff] at hop
  have hfree := h.alu hs hop.2 hop.1
  have hno : ∀ p : Prop, (p → s.rWbBitvec 0 = true) → ¬p := fun p hp hx => by
    rw [hp hx] at hfree
    cases hfree
  refine ⟨Bool.eq_false_iff.mpr (hno _ fun hm => (h.slots 0).mpr (.inl ⟨3, rfl, hm⟩)),
    Bool.eq_false_iff.mpr (hno _ fun hd => (h.slots 0).mpr (.inr ?_))⟩
  exact Divider.complete_iff.mp hd

theorem aluValid_of_wrInt (h : s.wrInt = true) : s.rStartInt = true ∧ s.alu.aluValid = true := by
  obtain ⟨hs, hw⟩ := Bool.and_eq_true _ _ |>.mp h
  exact ⟨hs, Port1.aluValid_of_wrIntPrf _ _ _ _ hw⟩

/-- A value on write port 0 reaches the register file unless a later port writes the register. -/
theorem rRam_port0 (hen : s.wen0 = true) (hm : i.memRspDstValid = true → i.memRspDstPtr ≠ s.wrptr0)
    (h2 : s.wrInt2 = true → s.intUop2.dst ≠ s.wrptr0) :
    (s.step i).rRam s.wrptr0 = s.wr0 := by
  have hr : (s.step i).rRam = (s.rRam
    |> writeIf s.wen0 s.wrptr0 s.wr0
    |> writeIf i.memRspDstValid i.memRspDstPtr i.memRspLoadData
    |> writeIf s.wrInt2 s.intUop2.dst s.alu2.result) := rfl
  rw [hr, writeIf_apply, if_neg fun h => h2 h.1 h.2.symm, writeIf_apply,
    if_neg fun h => hm h.1 h.2.symm, writeIf_apply, if_pos ⟨hen, rfl⟩]

/-- **Write-back port 1 is never contended.**  In every cycle of every run, whatever is pushed,
answered and flushed: at most one of the multiplier, the divider and a valid integer operation
uses the port, the divider is started only when it is idle, and each of the three gets the
completion bundle of the next cycle and the write port of the register file. -/
theorem port_uncontended (h : execMachine.Reach env s) (i : ExecIn) :
    ¬(s.tMulComplete = true ∧ s.tDivComplete = true) ∧
    ¬(s.tMulComplete = true ∧ s.rStartInt = true ∧ s.alu.aluValid = true) ∧
    ¬(s.tDivComplete = true ∧ s.rStartInt = true ∧ s.alu.aluValid = true) ∧
    (s.wrInt = true → s.rStartInt = true ∧ s.alu.aluValid = true) ∧
    (s.tStartDiv32 i = true → s.div.rState = .idle) ∧
    (s.tMulComplete = true → (s.step i).completeValid1 = true ∧
      (s.step i).completeBundle1 = unitBundle s.mul.robPtrOut (s.mul.y.setWidth 32) ∧
      s.wen0 = true ∧ s.wrptr0 = s.mul.prfPtrOut ∧ s.wr0 = s.mul.y.setWidth 32) ∧
    (s.tDivComplete = true → (s.step i).completeValid1 = true ∧
      (s.step i).completeBundle1 = unitBundle s.div.robPtrOut s.div.result ∧
      s.wen0 = true ∧ s.wrptr0 = s.div.prfPtrOut ∧ s.wr0 = s.div.result) ∧
    (s.rStartInt = true → s.alu.aluValid = true → (s.step i).completeValid1 = true ∧
      (s.step i).completeBundle1 = s.aluBundle ∧
      (s.alu.wrIntPrf = true →
        s.wen0 = true ∧ s.wrptr0 = s.intUop.dst ∧ s.wr0 = s.alu.result)) ∧
    (s.wen0 = true → (i.memRspDstValid = true → i.memRspDstPtr ≠ s.wrptr0) →
      (s.wrInt2 = true → s.intUop2.dst ≠ s.wrptr0) → (s.step i).rRam s.wrptr0 = s.wr0) := by
  have hp := portInv_of_reach h
  have hvalid : (s.step i).completeValid1 =
      ((s.rStartInt && s.alu.aluValid) || s.tMulComplete || s.tDivComplete) := rfl
  have hbundle : (s.step i).completeBundle1 = s.nCompleteBundle1 := rfl
  rw [hvalid, hbundle]
  unfold nCompleteBundle1 wen0 wrptr0 wr0
  refine ⟨fun hc => ?_, fun hc => ?_, fun hc => ?_, aluValid_of_wrInt, hp.idle_of_start,
    fun hm => ?_, fun hd => ?_, fun hs hv => ?_, rRam_port0⟩
  · rw [hp.mul_not_div hc.1] at hc
    exact Bool.false_ne_true hc.2
  · rw [(hp.alu_alone hc.2.1 hc.2.2).1] at hc
    exact Bool.false_ne_true hc.1
  · rw [(hp.alu_alone hc.2.1 hc.2.2).2] at hc
    exact Bool.false_ne_true hc.1
  · rw [hm]
    simp [unitBundle]
  · have hm : s.tMulComplete = false := Bool.eq_false_iff.mpr fun hm => by
      rw [hp.mul_not_div hm] at hd
      cases hd
    rw [hm, hd]
    simp [unitBundle]
  · obtain ⟨hm, hd⟩ := hp.alu_alone hs hv
    rw [hm, hd, hs, hv]
    refine ⟨rfl, ?_, fun hw => ?_⟩
    · unfold aluBundle
      simp
    · rw [wrInt, hs, hw]
      exact ⟨rfl, rfl, rfl⟩

/-- `MUL x5,x0,x0`, renamed to write register 40 from ROB slot 3. -/
def mulUop : Uop := { decodeRiscv ⟨0x020002b3, 0, 0, false, 0⟩ with dst := 40, robPtr := 3 }

/-- The multiplication is pushed, allocated, selected and started; it completes in the state
reached here. -/
def mulRun : Exec := execMachine.run init (.push mulUop :: List.replicate 6 .idle)

/-- It is reported in the next cycle. -/
theorem port_uncontended_mul : (mulRun.step .idle).completeBundle1 = unitBundle 3 0 :=
  have h : execMachine.Reach (fun _ _ => True) mulRun :=
    (Machine.Reach.reset isReset_init).run (.of_forall (fun _ _ => trivial) _ _)
  ((port_uncontended h .idle).2.2.2.2.2.1 (by decide +kernel)).2.1.trans (by decide +kernel)

end Exec
end Rv32Core
