import Rv32Core.Exec.WriteBack

/-! # No wakeup is lost

An entry of a scheduler hears of the writes of the integer ports and of the memory in the cycle
of the write, and of the multiplier and the divider one cycle later; a uop allocated reads
`r_prf_inflight` and hears of the former only.  What closes the gap: the inflight bit of a register
is cleared by the write itself, so an entry that is not ready waits for a register still inflight
or for a unit whose completion is on its way in `r_mul_complete` or `r_div_complete`. -/

namespace Rv32Core

open Clocked AgeMatrix

namespace Exec

variable (s : Exec) (i : ExecIn)

/-! ### Outstanding producers -/

/-- The registers written in this cycle. -/
def writes (r : PrfPtr) : Bool :=
  s.wakesNow i r || (s.tMulComplete && s.mul.prfPtrOut == r) ||
    (s.tDivComplete && s.div.prfPtrOut == r)

/-- The destinations pushed in this cycle. -/
def pushes (r : PrfPtr) : Bool :=
  (i.uqPush && i.uqUop.dstValid && i.uqUop.dst == r) ||
    (i.uqPushTwo && i.uqUopTwo.dstValid && i.uqUopTwo.dst == r)

/-- The registers with a producer pushed that has not written yet.  A flush forgets them. -/
def nDue (due : PrfPtr → Bool) (s : Exec) (i : ExecIn) (r : PrfPtr) : Bool :=
  !i.dsDone && (pushes i r || (due r && !s.writes i r))

/-- What an entry that is not ready waits for. -/
def Pending (r : PrfPtr) : Prop :=
  s.rPrfInflight r = true ∨ (s.rMulComplete = true ∧ s.rMulPrfPtr = r) ∨
    (s.rDivComplete = true ∧ s.rDivPrfPtr = r)

/-- The entries of both schedulers that are not ready have something to wait for. -/
structure WakeInv (due : PrfPtr → Bool) : Prop where
  inflight : ∀ r, s.rPrfInflight r = true → due r = true
  srcA : s.sched.Awake s.sched.rSrcARdy Uop.srcAValid Uop.srcA s.Pending
  srcB : s.sched.Awake s.sched.rSrcBRdy Uop.srcBValid Uop.srcB s.Pending
  srcA2 : s.sched2.Awake s.sched2.rSrcARdy Uop.srcAValid Uop.srcA s.Pending
  srcB2 : s.sched2.Awake s.sched2.rSrcBRdy Uop.srcBValid Uop.srcB s.Pending

variable {s i}

/-! ### The inflight bits -/

theorem nPrfInflight_iff {r : PrfPtr} : s.nPrfInflight i r = true ↔
    (pushes i r = true ∨ s.rPrfInflight r = true) ∧ ¬(i.memRspDstValid = true ∧ r = i.memRspDstPtr) ∧
      ¬(s.wrInt = true ∧ r = s.intUop.dst) ∧
      ¬(s.wrInt = false ∧ s.tMulComplete = true ∧ r = s.mul.prfPtrOut) ∧
      ¬(s.wrInt = false ∧ s.tMulComplete = false ∧ s.tDivComplete = true ∧
        r = s.div.prfPtrOut) ∧
      ¬(s.wrInt2 = true ∧ r = s.intUop2.dst) := by
  unfold nPrfInflight pushes
  simp only [writeIf_set, writeIf_clear, Bool.and_eq_true, Bool.or_eq_true, Bool.not_eq_true',
    Bool.and_eq_false_iff, decide_eq_true_eq, decide_eq_false_iff_not, beq_iff_eq, eq_comm (b := r)]
  grind

theorem writes_iff {r : PrfPtr} : s.writes i r = true ↔
    (i.memRspDstValid = true ∧ r = i.memRspDstPtr) ∨ (s.wrInt = true ∧ r = s.intUop.dst) ∨
      (s.wrInt2 = true ∧ r = s.intUop2.dst) ∨ (s.tMulComplete = true ∧ r = s.mul.prfPtrOut) ∨
      (s.tDivComplete = true ∧ r = s.div.prfPtrOut) := by
  unfold writes wakesNow
  simp only [Bool.and_eq_true, Bool.or_eq_true, beq_iff_eq, eq_comm (b := r)]
  grind

/-- **The inflight bits follow the writes**: a register is inflight after a cycle when it was pushed
or inflight before, and not written.  The priority between the integer port and the two units loses
no write, as the port is never contended. -/
theorem PortInv.nPrfInflight_iff (h : PortInv s) {r : PrfPtr} : s.nPrfInflight i r = true ↔
    (pushes i r = true ∨ s.rPrfInflight r = true) ∧ s.writes i r = false := by
  have hint : s.wrInt = true → s.tMulComplete = false ∧ s.tDivComplete = false := fun hw => by
    obtain ⟨hs, hv⟩ := aluValid_of_wrInt hw
    exact h.alu_alone hs hv
  have hmul := h.mul_not_div
  rw [Exec.nPrfInflight_iff, ← Bool.not_eq_true (s.writes i r), writes_iff]
  grind

theorem step_inflight (s : Exec) (i : ExecIn) (r : PrfPtr) :
    (s.step i).rPrfInflight r = (!i.dsDone && s.nPrfInflight i r) := by
  show (if i.dsDone then fun _ => false else s.nPrfInflight i) r = _
  cases i.dsDone <;> rfl

/-- What is inflight and not written by the memory or an integer port stays pending. -/
theorem PortInv.pending_of_inflight (h : PortInv s) {r : PrfPtr}
    (hr : pushes i r = true ∨ s.rPrfInflight r = true)
    (hn : s.wakesNow i r = false) (hd : i.dsDone = false) : (s.step i).Pending r := by
  cases hw : s.writes i r
  · refine .inl ?_
    rw [step_inflight, hd, h.nPrfInflight_iff.mpr ⟨hr, hw⟩]
    rfl
  · unfold writes at hw
    rw [hn, Bool.false_or, Bool.or_eq_true, Bool.and_eq_true, Bool.and_eq_true, beq_iff_eq,
      beq_iff_eq] at hw
    exact .inr hw

theorem wakes_iff {r : PrfPtr} : s.wakes i r = true ↔ s.wakesNow i r = true ∨
    (s.rMulComplete = true ∧ s.rMulPrfPtr = r) ∨ (s.rDivComplete = true ∧ s.rDivPrfPtr = r) := by
  unfold wakes wakesNow
  simp only [Bool.and_eq_true, Bool.or_eq_true, beq_iff_eq]
  grind

theorem PortInv.pending_step (h : PortInv s) {r : PrfPtr} (hp : s.Pending r) :
    s.wakes i r = true ∨ (i.dsDone = false → (s.step i).Pending r) := by
  obtain hr | hu := hp
  · cases hn : s.wakesNow i r
    · exact .inr (h.pending_of_inflight (.inr hr) hn)
    · exact .inl (wakes_iff.mpr (.inl hn))
  · exact .inl (wakes_iff.mpr (.inr hu))

/-! ### One step -/

theorem PortInv.match_or_pending (h : PortInv s) {u : Uop} {valid : Uop → Bool}
    {src : Uop → PrfPtr} (hv : valid u = true) (hp : s.Pending (src u)) :
    (valid u && s.wakes i (src u)) = true ∨ (i.dsDone = false → (s.step i).Pending (src u)) := by
  rw [hv, Bool.true_and]
  exact h.pending_step hp

theorem PortInv.allocRdy_or_pending (h : PortInv s) {valid : Bool} {r : PrfPtr}
    (hv : valid = true) (hd : i.dsDone = false) :
    s.allocRdy i valid r = true ∨ (s.step i).Pending r := by
  rw [allocRdy, if_pos hv, hv, Bool.true_and]
  cases hr : s.rPrfInflight r
  · exact .inl rfl
  · cases hn : s.wakesNow i r
    · exact .inr (h.pending_of_inflight (.inr hr) hn hd)
    · exact .inl rfl

theorem WakeInv.step {due : PrfPtr → Bool} (h : s.WakeInv due) (hp : PortInv s)
    {age age2 : SchedIdx → ℕ} (ho : Ordered s.sched.rValid s.sched.rMatrix age)
    (ho2 : Ordered s.sched2.rValid s.sched2.rMatrix age2) :
    (s.step i).WakeInv (nDue due s i) := by
  have hoff := offers_schedIn s i
  have hoff2 := offers_schedIn2 s i
  refine ⟨fun r hr => ?_, h.srcA.step ho hoff ?_ ?_, h.srcB.step ho hoff ?_ ?_,
    h.srcA2.step ho2 hoff2 ?_ ?_, h.srcB2.step ho2 hoff2 ?_ ?_⟩
  · rw [step_inflight, Bool.and_eq_true, Bool.not_eq_true', hp.nPrfInflight_iff] at hr
    obtain ⟨hd, hpr, hw⟩ := hr
    unfold nDue
    rw [hd, hw]
    obtain hpush | hin := hpr
    · rw [hpush]
      rfl
    · rw [h.inflight r hin]
      exact Bool.or_true _
  · exact fun j hv hc => hp.match_or_pending hv hc
  · exact fun hpop hv => hp.allocRdy_or_pending hv (hoff hpop).2
  · exact fun j hv hc => hp.match_or_pending hv hc
  · exact fun hpop hv => hp.allocRdy_or_pending hv (hoff hpop).2
  · exact fun j hv hc => hp.match_or_pending hv hc
  · exact fun hpop hv => hp.allocRdy_or_pending hv (hoff2 hpop).2
  · exact fun j hv hc => hp.match_or_pending hv hc
  · exact fun hpop hv => hp.allocRdy_or_pending hv (hoff2 hpop).2

theorem wakeInv_reset (h : s.IsReset) : s.WakeInv fun _ => false := by
  obtain ⟨uops, hs⟩ := h.sched
  obtain ⟨uops2, hs2⟩ := h.sched2
  refine ⟨fun r hr => ?_, ?_, ?_, ?_, ?_⟩
  · rw [h.rPrfInflight] at hr
    cases hr
  all_goals
    intro j hj
    first | rw [hs] at hj | rw [hs2] at hj
    cases hj

/-! ### Runs -/

variable {env : Exec → ExecIn → Prop}

/-- The execution unit with the outstanding producers of its run. -/
def dueExec : Machine (Exec × (PrfPtr → Bool)) ExecIn :=
  execMachine.observed (fun _ => false) nDue

theorem wakeInv_of_reach {x : Exec × (PrfPtr → Bool)}
    (h : dueExec.Reach (fun x i => env x.1 i) x) : x.1.WakeInv x.2 := by
  induction h with
  | reset h0 =>
      rw [h0.2]
      exact wakeInv_reset h0.1
  | @step x i hr _ ih =>
      have hx : execMachine.Reach env x.1 := hr.of_observed
      obtain ⟨age, ho⟩ := AluSched.ordered_of_reach (reach_sched hx)
      obtain ⟨age2, ho2⟩ := AluSched.ordered_of_reach (reach_sched2 hx)
      exact ih.step (portInv_of_reach hx) ho ho2

/-- An entry is ready for a source, or hears of it in this cycle, once its producer is done. -/
theorem WakeInv.ready {due : PrfPtr → Bool} (h : s.WakeInv due) {sch : AluSched}
    {rdy : SchedIdx → Bool} {valid : Uop → Bool} {src : Uop → PrfPtr}
    (ha : sch.Awake rdy valid src s.Pending) {j : SchedIdx} (hj : sch.rValid j = true)
    (hv : valid (sch.rUops j) = true)
    (hdone : due (src (sch.rUops j)) = false ∨ s.wakesNow i (src (sch.rUops j)) = true) :
    rdy j = true ∨ (valid (sch.rUops j) && s.wakes i (src (sch.rUops j))) = true := by
  rw [hv, Bool.true_and, wakes_iff]
  obtain hd | hw := hdone
  · obtain hr | hin | hu := ha j hj hv
    · exact .inl hr
    · rw [h.inflight _ hin] at hd
      cases hd
    · exact .inr (.inr hu)
  · exact .inr (.inl hw)

/-- **No wakeup is lost.**  In every cycle of every run and for every valid entry of either
scheduler: a valid source whose producer has written, in an earlier cycle or, by an integer port or
the memory, in this one, has its ready bit set or matches in this cycle. -/
theorem no_lost_wakeup {x : Exec × (PrfPtr → Bool)}
    (h : dueExec.Reach (fun x i => env x.1 i) x) (i : ExecIn) (j : SchedIdx) :
    (x.1.sched.rValid j = true →
      ((x.1.sched.rUops j).srcAValid = true →
        x.2 (x.1.sched.rUops j).srcA = false ∨ x.1.wakesNow i (x.1.sched.rUops j).srcA = true →
        x.1.sched.rSrcARdy j = true ∨ (x.1.schedIn i).srcAMatch j = true) ∧
      ((x.1.sched.rUops j).srcBValid = true →
        x.2 (x.1.sched.rUops j).srcB = false ∨ x.1.wakesNow i (x.1.sched.rUops j).srcB = true →
        x.1.sched.rSrcBRdy j = true ∨ (x.1.schedIn i).srcBMatch j = true)) ∧
    (x.1.sched2.rValid j = true →
      ((x.1.sched2.rUops j).srcAValid = true →
        x.2 (x.1.sched2.rUops j).srcA = false ∨ x.1.wakesNow i (x.1.sched2.rUops j).srcA = true →
        x.1.sched2.rSrcARdy j = true ∨ (x.1.schedIn2 i).srcAMatch j = true) ∧
      ((x.1.sched2.rUops j).srcBValid = true →
        x.2 (x.1.sched2.rUops j).srcB = false ∨ x.1.wakesNow i (x.1.sched2.rUops j).srcB = true →
        x.1.sched2.rSrcBRdy j = true ∨ (x.1.schedIn2 i).srcBMatch j = true)) := by
  have hx := wakeInv_of_reach h
  exact ⟨fun hj => ⟨fun hv hd => hx.ready hx.srcA hj hv hd, fun hv hd => hx.ready hx.srcB hj hv hd⟩,
    fun hj => ⟨fun hv hd => hx.ready hx.srcA2 hj hv hd, fun hv hd => hx.ready hx.srcB2 hj hv hd⟩⟩

/-- `ADDI x6,x5,1` behind the multiplication: it reads register 40. -/
def addiUop : Uop :=
  { decodeRiscv ⟨0x00128313, 0, 0, false, 0⟩ with srcA := 40, dst := 41, robPtr := 4 }

/-- The multiplication has written, and the `ADDI` waits in slot 6. -/
def waitRun : Exec × (PrfPtr → Bool) :=
  dueExec.run (init, fun _ => false) (.push mulUop :: .push addiUop :: List.replicate 6 .idle)

theorem no_lost_wakeup_mul :
    waitRun.1.sched.rSrcARdy 6 = true ∨ (waitRun.1.schedIn .idle).srcAMatch 6 = true :=
  have h0 : dueExec.reset (init, fun _ => false) := ⟨isReset_init, rfl⟩
  have h : dueExec.Reach (fun _ _ => True) waitRun :=
    (Machine.Reach.reset h0).run (.of_forall (fun _ _ => trivial) _ _)
  (((@no_lost_wakeup (fun _ _ => True) _ h .idle 6).1 (by decide +kernel)).1 (by decide +kernel)
    (.inl (by decide +kernel)))

end Exec
end Rv32Core
