import Rv32Core.Core.Moves
import Rv32Core.Core.Queues
import Rv32Core.L1i.Requests

/-! # The core and its instruction cache

The wiring of `core_l1d_l1i` between `core` and `l1i`: the fetch queue, restarts, the flush of
the instruction cache, retired branches, calls and returns.  Everything else at the two modules
(the execution unit, the data cache, the lower level, the host) stays an input. -/

namespace Rv32Core

/-- The registers of both modules. -/
structure Front where
  core : Core
  l1i : L1i

/-- The inputs that neither of the two drives; the fields of `core` that the instruction cache
drives are ignored. -/
structure FrontIn where
  core : CoreIn
  memRspValid : Bool
  memRspLoadData : Line

namespace Front

variable (s : Front) (i : FrontIn)

/-- The ports of the core. -/
def coreIn : CoreIn :=
  { i.core with
    insn := s.l1i.insn
    insnValid := s.l1i.insnValid
    insnTwo := s.l1i.insnTwo
    insnValidTwo := s.l1i.insnValidTwo
    restartAck := s.l1i.rRestartAck
    l1iFlushComplete := s.l1i.rFlushComplete }

/-- The ports of the instruction cache. -/
def l1iIn : L1iIn where
  flushReq := s.core.rFlushReqL1i
  restartPc := s.core.rRestartPc
  restartSrcPc := s.core.rRestartSrcPc
  restartSrcIsIndirect := s.core.rRestartSrcIsIndirect
  restartValid := s.core.rRestartValid
  retireValid := s.core.retireValid
  retiredCall := s.core.retiredCall
  retiredRet := s.core.retiredRet
  retireRegData := s.core.retireRegData
  retireRegValid := s.core.retireRegValid
  branchPcValid := s.core.rBranchValid
  tookBranch := s.core.rTookBranch
  branchPhtIdx := s.core.rBranchPhtIdx
  insnAck := s.core.insnAck (s.coreIn i)
  insnAckTwo := s.core.insnAckTwo (s.coreIn i)
  memRspValid := i.memRspValid
  memRspLoadData := i.memRspLoadData

/-- One rising clock edge. -/
def step : Front := ⟨s.core.step (s.coreIn i), s.l1i.step (s.l1iIn i)⟩

variable {s i}

theorem acks : s.l1i.Acks (s.l1iIn i) := by
  constructor
  · intro h
    have h' : (!s.core.tDqFull && s.l1i.insnValid && decide (s.core.rState = .active)) = true := h
    simp only [Bool.and_eq_true] at h'
    exact h'.1.2
  · intro h
    have h' : (!s.core.tDqFull && s.l1i.insnValid && !s.core.tDqNextFull && s.l1i.insnValidTwo &&
      decide (s.core.rState = .active)) = true := h
    simp only [Bool.and_eq_true] at h'
    exact h'.1.2

/-- In ACTIVE what the core takes is what it decodes. -/
theorem decoded_eq_popped (hs : s.core.rState = .active)
    (hc : (s.core.ctl (s.coreIn i)).tClrDq = false) :
    s.core.decoded (s.coreIn i) = (s.l1i.popped (s.l1iIn i)).map decodeRiscv := by
  have h1 : (s.l1iIn i).insnAck = s.core.tPushDqOne (s.coreIn i) := by
    show (!s.core.tDqFull && s.l1i.insnValid && decide (s.core.rState = .active)) =
      (!(s.core.ctl (s.coreIn i)).tClrDq && s.l1i.insnValid && !s.core.tDqFull)
    rw [hc, hs]
    cases s.core.tDqFull <;> cases s.l1i.insnValid <;> rfl
  have h2 : (s.l1iIn i).insnAckTwo = s.core.tPushDqTwo (s.coreIn i) := by
    show (!s.core.tDqFull && s.l1i.insnValid && !s.core.tDqNextFull && s.l1i.insnValidTwo &&
      decide (s.core.rState = .active)) =
      (!(s.core.ctl (s.coreIn i)).tClrDq && s.l1i.insnValid && !s.core.tDqFull &&
        !s.core.tDqNextFull && s.l1i.insnValidTwo)
    rw [hc, hs]
    cases s.core.tDqFull <;> cases s.l1i.insnValid <;> cases s.core.tDqNextFull <;>
      cases s.l1i.insnValidTwo <;> rfl
  unfold L1i.popped Core.decoded
  rw [h1, h2]
  cases hp2 : s.core.tPushDqTwo (s.coreIn i)
  · cases s.core.tPushDqOne (s.coreIn i) <;> rfl
  · rw [(Core.tPushDqTwo_tPushDqOne hp2).1]
    rfl

theorem popped_of_not_active (hs : s.core.rState ≠ .active) : s.l1i.popped (s.l1iIn i) = [] := by
  have h1 : (s.l1iIn i).insnAck = false := by
    show (!s.core.tDqFull && s.l1i.insnValid && decide (s.core.rState = .active)) = false
    rw [decide_eq_false hs, Bool.and_false]
  rw [L1i.popped, h1]
  rfl

end Front

/-- Both modules as a synchronous machine. -/
def frontMachine : Clocked.Machine Front FrontIn where
  reset s := coreMachine.reset s.core ∧ l1iMachine.reset s.l1i
  step := Front.step

/-! ### Start-up

While the instruction cache initialises, the core waits in FLUSH_FOR_HALT and changes nothing
but the bank it would allocate a register from. -/

/-- The core in the `n`-th cycle after reset with nothing at its ports. -/
def Core.asleep : ℕ → Core
  | 0 => Core.zeroed
  | n + 1 => { Core.zeroed with rBankSel := !(Core.asleep n).rBankSel, retiredRobPtrTwo := 1 }

/-- A cycle in which the lower level is silent. -/
def FrontIn.quiet (c : CoreIn) : FrontIn := ⟨c, false, 0⟩

namespace Front

/-- Both modules when the instruction cache reports its first flush. -/
def boot : Front := ⟨{ Core.zeroed with rBankSel := true, retiredRobPtrTwo := 1 }, L1i.ready⟩

theorem asleep_odd (k : ℕ) : Core.asleep (2 * k + 1) = boot.core := by
  induction k with
  | zero => rfl
  | succ k ih =>
      rw [show 2 * (k + 1) + 1 = 2 * k + 1 + 1 + 1 from rfl, Core.asleep, Core.asleep, ih]
      rfl

theorem step_asleep {n : ℕ} {s : L1i} (h : L1i.Starting s) :
    step ⟨Core.asleep n, s⟩ (.quiet CoreIn.idle) = ⟨Core.asleep (n + 1), s.step L1iIn.idle⟩ := by
  cases h with
  | initial => cases n <;> rfl
  | initPht k => cases n <;> rfl
  | flush j => cases n <;> rfl

/-- **Start-up ends in `boot`**, in any machine that holds the front end: `P s` is its state
when the front end is in state `s`. -/
theorem reach_boot {σ ι : Type*} {M : Clocked.Machine σ ι} {env : σ → ι → Prop} (P : Front → σ)
    (i : ι) (h0 : M.Reach env (P ⟨Core.zeroed, L1i.init L1iPowerUp.cleared⟩))
    (hs : ∀ n s, L1i.Starting s → env (P ⟨Core.asleep n, s⟩) i ∧
      M.step (P ⟨Core.asleep n, s⟩) i = P (step ⟨Core.asleep n, s⟩ (.quiet CoreIn.idle))) :
    M.Reach env (P boot) := by
  have h := L1i.reach_ready (M := M) (fun n s => P ⟨Core.asleep n, s⟩) i h0
    fun n s hst => ⟨(hs n s hst).1, (hs n s hst).2.trans (congrArg P (step_asleep hst))⟩
  have hodd : Core.asleep 69633 = boot.core := asleep_odd 34816
  rw [hodd] at h
  exact h

end Front

end Rv32Core
