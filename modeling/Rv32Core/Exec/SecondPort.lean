import Rv32Core.Exec.InFlight

/-! # Reports complete what they report on

The second port reports on every uop it starts, with the completion bit its arithmetic computes;
for an operation it does not know this bit is low, and the core would wait for ever.  It is only
given uops marked cheap, and the uops the core pushes carry this mark only for operations that
both ports execute. -/

namespace Rv32Core

open Clocked AgeMatrix

theorem Port2.aluValid_of_onBothPorts {u : Uop} (h : OnBothPorts u.op = true) (c : Counters)
    (a b : Word) : (Port2.alu c u a b).aluValid = true := by
  rw [Port2.alu_eq_eval c u a b h, ← Port1.alu_eq_eval c u a b h, Port1.aluValid_eq]
  revert h
  cases u.op <;> intro h <;> first | rfl | cases h

/-- A uop marked cheap can go to either port. -/
def Uop.EitherPort (u : Uop) : Prop := u.isCheapInt = true → OnBothPorts u.op = true

namespace Exec

variable {s : Exec} {i : ExecIn} {l : ExecLog}

/-- The uops with port 2, and in its scheduler. -/
def secondPort (s : Exec) : Multiset Uop := s.sched2.held + single s.rStartInt2 s.intUop2

/-- Only cheap uops go to port 2, and every report completes its slot. -/
structure ReportsInv (s : Exec) : Prop where
  either : ∀ u ∈ s.waiting + s.onPorts, u.EitherPort
  cheap : ∀ u ∈ s.secondPort, u.isCheapInt = true
  one : s.completeValid1 = true → s.completeBundle1.complete = true
  two : s.completeValid2 = true → s.completeBundle2.complete = true

/-- **Uops move on to port 2**: the one allocated in its scheduler comes in. -/
theorem secondPort_step {age : SchedIdx → ℕ} (ho : Ordered s.sched2.rValid s.sched2.rMatrix age)
    (hd : i.dsDone = false) :
    (s.step i).secondPort = s.sched2.held + single (s.tPopUq2 i) s.uq2 := by
  have hst : (s.step i).rStartInt2 = s.sched2.anyRdy (s.schedIn2 i) := by
    show (_ && !i.dsDone) = _
    rw [hd, Bool.not_false, Bool.and_true]
  rw [secondPort, hst]
  exact AluSched.held_step ho (offers_schedIn2 s i) hd

theorem secondPort_flush (hd : i.dsDone = true) : (s.step i).secondPort = 0 := by
  have hs2 : (s.step i).sched2.held = 0 := AluSched.held_flash hd
  have h2 : (s.step i).rStartInt2 = false := by
    show (_ && !i.dsDone) = _
    rw [hd, Bool.not_true, Bool.and_false]
  rw [secondPort, hs2, h2]
  rfl

theorem ReportsInv.step (h : s.ReportsInv) (hq : s.QueuesInv l) (he : s.Polite i)
    {age age2 : SchedIdx → ℕ} (ho : Ordered s.sched.rValid s.sched.rMatrix age)
    (ho2 : Ordered s.sched2.rValid s.sched2.rMatrix age2)
    (hp : ∀ u ∈ accepted Uop.isInt i, u.EitherPort) : (s.step i).ReportsInv := by
  refine ⟨fun u hu => ?_, fun u hu => ?_, fun hv => ?_, fun hv => ?_⟩
  · cases hd : i.dsDone
    · rw [hq.waiting_step he ho ho2 hd] at hu
      rcases Multiset.mem_add.mp hu with hu | hu
      · exact h.either u (Multiset.mem_add.mpr (.inl hu))
      · exact hp u hu
    · obtain ⟨hw, hports, -⟩ := waiting_flush (s := s) hd
      rw [hw, hports] at hu
      exact absurd hu (Multiset.notMem_zero u)
  · cases hd : i.dsDone
    · rw [secondPort_step ho2 hd] at hu
      rcases Multiset.mem_add.mp hu with hu | hu
      · exact h.cheap u (Multiset.mem_add.mpr (.inl hu))
      · obtain ⟨hpop, rfl⟩ := mem_single.mp hu
        exact (tPopUq_of_tPopUq2 hpop).2.1
    · rw [secondPort_flush hd] at hu
      exact absurd hu (Multiset.notMem_zero u)
  · have hv' : ((s.rStartInt && s.alu.aluValid) || s.tMulComplete || s.tDivComplete) = true := hv
    show s.nCompleteBundle1.complete = true
    unfold nCompleteBundle1
    by_cases hunit : (s.tMulComplete || s.tDivComplete) = true
    · rw [if_pos hunit]
    · rw [if_neg hunit]
      rw [Bool.or_assoc, Bool.or_eq_true, Bool.and_eq_true] at hv'
      exact (hv'.resolve_right hunit).2
  · -- the uop on port 2 is cheap, so its operation is one of port 2
    have hst : s.rStartInt2 = true := hv
    have hmem : s.intUop2 ∈ single s.rStartInt2 s.intUop2 := mem_single.mpr ⟨hst, rfl⟩
    have hc : s.intUop2.isCheapInt = true := h.cheap _ (Multiset.mem_add.mpr (.inr hmem))
    have hin : s.intUop2 ∈ s.waiting + s.onPorts :=
      Multiset.mem_add.mpr (.inr (Multiset.mem_add.mpr (.inr hmem)))
    exact Port2.aluValid_of_onBothPorts (h.either _ hin hc) _ _ _

theorem reportsInv_reset (h : s.IsReset) : s.ReportsInv := by
  obtain ⟨hw, hports, -⟩ := waiting_reset h
  refine ⟨fun u hu => ?_, fun u hu => ?_, fun hv => ?_, fun hv => ?_⟩
  · rw [hw, hports] at hu
    exact absurd hu (Multiset.notMem_zero u)
  · obtain ⟨uops, hs⟩ := h.sched2
    have hheld : s.sched2.held = 0 := by
      rw [hs]
      exact Finset.sum_const_zero
    have h0 : s.secondPort = 0 := by
      rw [secondPort, hheld, h.rStartInt2]
      rfl
    rw [h0] at hu
    exact absurd hu (Multiset.notMem_zero u)
  · rw [h.completeValid1] at hv
    cases hv
  · rw [h.completeValid2] at hv
    cases hv

/-- When every uop pushed can go where its mark allows, every report completes its slot. -/
theorem reportsInv_of_reach (h : execMachine.Reach
    (fun s i => s.Polite i ∧ ∀ u ∈ accepted Uop.isInt i, u.EitherPort) s) : s.ReportsInv := by
  induction h with
  | reset h0 => exact reportsInv_reset h0
  | step hr he ih =>
      have hr' := hr.mono fun _ _ hx => hx.1
      obtain ⟨l, hl⟩ := hr'.exists_observed emptyLog watchQueues
      obtain ⟨age, ho⟩ := AluSched.ordered_of_reach (reach_sched hr)
      obtain ⟨age2, ho2⟩ := AluSched.ordered_of_reach (reach_sched2 hr)
      exact ih.step (queuesInv_of_reach hl) he.1 ho ho2 he.2

end Exec
end Rv32Core
