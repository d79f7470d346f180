import Rv32Core.Front.Model
import Rv32Core.Core.Inflight
import Rv32Core.Exec.InFlight
import Rv32Core.L1d.Outstanding

/-! # The core, its execution unit and its data cache

The wiring of `exec` inside `core` and of `core` with `l1d` in `core_l1d_l1i`: renamed uops,
completions, memory requests and answers, store data, retired slots, drains and flushes.  What the
fetch unit, the host and the lower level of the memory present are the inputs; nothing is assumed
of them. -/

namespace Rv32Core

open Clocked

/-- The registers of the three modules. -/
structure Back where
  core : Core
  exec : Exec
  l1d : L1d

/-- The inputs that none of the three drives. -/
structure BackIn where
  externIrq : Bool
  resume : Bool
  resumePc : Word
  monitorAck : Bool
  restartAck : Bool
  insn : InsnFetch
  insnValid : Bool
  insnTwo : InsnFetch
  insnValidTwo : Bool
  l1iFlushComplete : Bool
  l2FlushComplete : Bool
  memRspValid : Bool
  memRspLoadData : Line

/-- A cycle in which nothing arrives. -/
def BackIn.idle : BackIn where
  externIrq := false
  resume := false
  resumePc := 0
  monitorAck := false
  restartAck := false
  insn := ⟨0, 0, 0, false, 0⟩
  insnValid := false
  insnTwo := ⟨0, 0, 0, false, 0⟩
  insnValidTwo := false
  l1iFlushComplete := false
  l2FlushComplete := false
  memRspValid := false
  memRspLoadData := 0

namespace Back

variable (s : Back) (i : BackIn)

/-- The ports of the data cache. -/
def l1dIn : L1dIn where
  retiredRobPtrValid := s.core.retiredRobPtrValid
  retiredRobPtrTwoValid := s.core.retiredRobPtrTwoValid
  retiredRobPtr := s.core.retiredRobPtr
  retiredRobPtrTwo := s.core.retiredRobPtrTwo
  drainDsComplete := s.core.drainDsComplete
  deadRobMask := s.core.rRobDeadInsns
  flushReq := s.core.rFlushReqL1d
  flushClReq := s.core.rFlushClReq
  flushClAddr := s.core.rFlushClAddr
  coreMemReqValid := s.exec.memReqValid
  coreMemReq := s.exec.memReq
  coreStoreDataValid := s.exec.coreStoreDataValid
  coreStoreData := s.exec.coreStoreData
  memRspValid := i.memRspValid
  memRspLoadData := i.memRspLoadData

/-- The outputs of the data cache in this cycle. -/
def l1dCtl : L1dCtl := s.l1d.ctl (s.l1dIn i)

/-- The ports of the core.  Of the inputs of the execution unit `divide_ready` looks at `ds_done`
only. -/
def coreIn : CoreIn where
  externIrq := i.externIrq
  resume := i.resume
  memqEmpty := s.l1d.memqEmpty
  resumePc := i.resumePc
  l1dFlushComplete := s.l1d.rFlushComplete
  l1iFlushComplete := i.l1iFlushComplete
  l2FlushComplete := i.l2FlushComplete
  insn := i.insn
  insnValid := i.insnValid
  insnTwo := i.insnTwo
  insnValidTwo := i.insnValidTwo
  restartAck := i.restartAck
  coreMemRsp := (s.l1dCtl i).nCoreMemRsp
  coreMemRspValid := (s.l1dCtl i).nCoreMemRspValid
  monitorAck := i.monitorAck
  tCompleteBundle1 := s.exec.completeBundle1
  tCompleteValid1 := s.exec.completeValid1
  tCompleteBundle2 := s.exec.completeBundle2
  tCompleteValid2 := s.exec.completeValid2
  tCoreStoreDataPtrValid := s.exec.coreStoreDataPtrValid
  tCoreStoreDataPtr := s.exec.coreStoreDataPtr
  tUqFull := s.exec.uqFull
  tUqNextFull := s.exec.uqNextFull
  uqWait := s.exec.rUqWait
  mqWait := s.exec.rMqWait
  tDivideReady := s.exec.tDivReady { ExecIn.idle with dsDone := s.core.rDsDone }

/-- The outputs of the core in this cycle. -/
def coreCtl : Ctl := s.core.ctl (s.coreIn i)

/-- The ports of the execution unit. -/
def execIn : ExecIn where
  dsDone := s.core.rDsDone
  memDqClr := (s.coreCtl i).tClrRob
  restartComplete := (s.coreCtl i).tRestartComplete
  uqPush := s.core.uqPush (s.coreIn i)
  uqPushTwo := s.core.uqPushTwo (s.coreIn i)
  uqUop := s.core.uqUop (s.coreIn i)
  uqUopTwo := s.core.uqUopTwo (s.coreIn i)
  memReqAck := (s.l1dCtl i).coreMemReqAck
  coreStoreDataAck := (s.l1dCtl i).coreStoreDataAck
  memRspDstValid := (s.l1dCtl i).nCoreMemRsp.dstValid
  memRspDstPtr := (s.l1dCtl i).nCoreMemRsp.dstPtr
  memRspLoadData := (s.l1dCtl i).nCoreMemRsp.data
  retire := (s.coreCtl i).tRetire
  retireTwo := (s.coreCtl i).tRetireTwo
  branchValid := s.core.rBranchValid
  branchFault := s.core.rBranchFault

/-- One rising clock edge. -/
def step : Back :=
  ⟨s.core.step (s.coreIn i), s.exec.step (s.execIn i), s.l1d.step (s.l1dIn i)⟩

end Back

/-- The three modules as a synchronous machine. -/
def backMachine : Machine Back BackIn where
  reset s := coreMachine.reset s.core ∧ execMachine.reset s.exec ∧ l1dMachine.reset s.l1d
  step := Back.step

namespace Back

variable {s : Back} {i : BackIn} {env : Back → BackIn → Prop}

/-! ### The modules in a run -/

/-- The core pushes and the data cache acknowledges as the execution unit allows. -/
theorem polite : s.exec.Polite (s.execIn i) where
  push h := Exec.core_push_allowed.1 h
  pushTwo h := Exec.core_push_allowed.2 h
  reqAck h := (L1d.accepts_spec (L1d.reqAck_accepts h)).1
  dataAck h := L1d.dataAck_valid h

theorem reach_core (h : backMachine.Reach env s) : coreMachine.Reach (fun _ _ => True) s.core :=
  h.map (N := coreMachine) Back.core coreIn (fun _ (h0 : backMachine.reset _) => h0.1)
    (fun _ _ _ => rfl) fun _ _ _ _ => trivial

theorem reach_exec (h : backMachine.Reach env s) : execMachine.Reach Exec.Polite s.exec :=
  h.map (N := execMachine) Back.exec execIn (fun _ (h0 : backMachine.reset _) => h0.2.1)
    (fun _ _ _ => rfl) fun _ _ _ _ => polite

theorem reach_l1d (h : backMachine.Reach env s) : l1dMachine.Reach (fun _ _ => True) s.l1d :=
  h.map (N := l1dMachine) Back.l1d l1dIn (fun _ (h0 : backMachine.reset _) => h0.2.2)
    (fun _ _ _ => rfl) fun _ _ _ _ => trivial

end Back

/-! ### Start-up

While the data cache initialises its 4096 sets, the core waits in FLUSH_FOR_HALT, and the execution
unit counts cycles.  From zeroed memories this ends in a state that can be written down (`boot`);
concrete runs of the composed machine start there. -/

/-- The execution unit in the `n`-th cycle after reset with nothing at its ports. -/
def Exec.asleep : ℕ → Exec
  | 0 => Exec.init
  | n + 1 =>
      { Exec.init with
        div := { Divider.init 5 with rIdx := 31 }
        counters := ⟨BitVec.ofNat 64 (n + 1), 0, 0, 0⟩
        completeBundle1 := ⟨0, true, false, 0, false, false, 0⟩
        completeBundle2 := ⟨0, true, false, 0, false, false, 0⟩ }

theorem Mul.shift_const {α : Type*} (v : α) : Mul.shift v (fun _ => v) = fun _ => v :=
  funext fun _ => ite_self _

theorem Divider.rest_step (r : BitVec 5) :
    ({ Divider.init 5 with rIdx := r } : Divider 5).step ⟨0, 0, 0, 0, false, false, false⟩ =
      { Divider.init 5 with rIdx := 31 } := by
  simp only [Divider.step, Divider.init, magnitude]
  congr 1

namespace Exec

/-- Nothing is pushed, acknowledged or flushed. -/
def quietIn (u u2 : Uop) : ExecIn := { ExecIn.idle with uqUop := u, uqUopTwo := u2 }

variable (n : ℕ) (u u2 : Uop)

theorem asleep_mul :
    (asleep n).mul.step ((asleep n).mulIn (quietIn u u2)) = (asleep n).mul := by
  have hc : ∀ {a b : Fin 4 → Bool} {r : Fin 4 → RobPtr} {g : Fin 4 → PrfPtr}
      {m : Fin 4 → BitVec 64}, a = (fun _ => false) → b = (fun _ => false) → r = (fun _ => 0) →
      g = (fun _ => 0) → m = (fun _ => 0) →
      Mul.mk a b r g m = ⟨fun _ => false, fun _ => false, fun _ => 0, fun _ => 0, fun _ => 0⟩ := by
    rintro _ _ _ _ _ rfl rfl rfl rfl rfl
    rfl
  cases n <;> exact hc (Mul.shift_const false) (Mul.shift_const false) (Mul.shift_const 0)
    (Mul.shift_const 0) (Mul.shift_const 0)

theorem asleep_div : (asleep n).div.step ((asleep n).divIn (quietIn u u2)) =
    { Divider.init 5 with rIdx := 31 } := by
  have hin : (asleep n).divIn (quietIn u u2) = ⟨0, 0, 0, 0, false, false, false⟩ := by
    cases n <;> rfl
  rw [hin]
  cases n with
  | zero => exact Divider.rest_step 0
  | succ n => exact Divider.rest_step 31

theorem asleep_wb : (asleep n).nWbBitvec (quietIn u u2) = fun _ => false := by
  funext k
  have h1 : (asleep n).tStartDiv32 (quietIn u u2) = false := by cases n <;> rfl
  have h2 : (asleep n).tStartMul (quietIn u u2) = false := by cases n <;> rfl
  have h3 : (asleep n).rWbBitvec = fun _ => false := by cases n <;> rfl
  rw [nWbBitvec, h1, h2, h3]
  split_ifs with _ hb
  · rfl
  · exact absurd hb.2 Bool.false_ne_true
  · rfl

theorem asleep_alu : (asleep n).alu = Port1.alu ⟨0, 0, 0, 0⟩ Uop.zero 0 0 ∧
    (asleep n).alu2 = Port2.alu ⟨0, 0, 0, 0⟩ Uop.zero 0 0 := by
  have hc : ∀ c, Port1.alu c Uop.zero 0 0 = Port1.alu ⟨0, 0, 0, 0⟩ Uop.zero 0 0 := fun _ => rfl
  have hc2 : ∀ c, Port2.alu c Uop.zero 0 0 = Port2.alu ⟨0, 0, 0, 0⟩ Uop.zero 0 0 := fun _ => rfl
  rw [← hc (asleep n).counters, ← hc2 (asleep n).counters]
  cases n <;> exact ⟨rfl, rfl⟩

theorem asleep_step : (asleep n).step (quietIn u u2) = asleep (n + 1) := by
  have hcount : (asleep n).nCounters (quietIn u u2) = ⟨BitVec.ofNat 64 (n + 1), 0, 0, 0⟩ := by
    rw [BitVec.ofNat_add n 1]
    cases n <;> rfl
  unfold Exec.step nCompleteBundle1 nCompleteBundle2
  rw [asleep_mul, asleep_div, asleep_wb, hcount, (asleep_alu n).1, (asleep_alu n).2]
  cases n <;> rfl

end Exec

namespace L1d

/-- The data cache answers nothing while it initialises. -/
theorem walking_quiet (a b : SetIdx) (i : L1dIn) :
    ((walking a b).ctl i).nCoreMemRspValid = false ∧
      ((walking a b).ctl i).coreMemReqAck = false ∧
      ((walking a b).ctl i).coreStoreDataAck = false ∧
      ((walking a b).ctl i).nCoreMemRsp = ⟨0, 0, 0, false, false, 0⟩ := by
  have h : (walking a b).ctl i = (walking a b).initCacheCtl i := rfl
  rw [h, initCacheCtl]
  split_ifs <;> exact ⟨rfl, rfl, rfl, rfl⟩

end L1d

namespace Back

/-- The machine in the `n`-th cycle, with the walk of the data cache at set `a`. -/
def asleep (n : ℕ) (a b : SetIdx) : Back := ⟨Core.asleep n, Exec.asleep n, L1d.walking a b⟩

/-- The machine after reset from zeroed memories. -/
def start : Back := ⟨Core.zeroed, Exec.init, L1d.init L1dPowerUp.zero⟩

/-- The machine when the data cache reports its first flush. -/
def boot : Back := ⟨Front.boot.core, Exec.asleep 4097, L1d.ready⟩

theorem core_asleep (n : ℕ) (a b : SetIdx) :
    (asleep n a b).core.step ((asleep n a b).coreIn BackIn.idle) = Core.asleep (n + 1) := by
  obtain ⟨h1, -, -, h4⟩ := L1d.walking_quiet a b ((asleep n a b).l1dIn BackIn.idle)
  have h : (asleep n a b).coreIn BackIn.idle =
      { CoreIn.idle with
        memqEmpty := false
        tCompleteBundle1 := (Exec.asleep n).completeBundle1
        tCompleteBundle2 := (Exec.asleep n).completeBundle2
        coreMemRsp := ((L1d.walking a b).ctl ((asleep n a b).l1dIn BackIn.idle)).nCoreMemRsp
        coreMemRspValid :=
          ((L1d.walking a b).ctl ((asleep n a b).l1dIn BackIn.idle)).nCoreMemRspValid } := by
    cases n <;> rfl
  rw [h, h1, h4]
  cases n <;> rfl

theorem exec_asleep (n : ℕ) (a b : SetIdx) :
    (asleep n a b).exec.step ((asleep n a b).execIn BackIn.idle) = Exec.asleep (n + 1) := by
  obtain ⟨-, h2, h3, h4⟩ := L1d.walking_quiet a b ((asleep n a b).l1dIn BackIn.idle)
  have h : (asleep n a b).execIn BackIn.idle =
      { Exec.quietIn ((asleep n a b).core.uqUop ((asleep n a b).coreIn BackIn.idle))
          ((asleep n a b).core.uqUopTwo ((asleep n a b).coreIn BackIn.idle)) with
        memReqAck := ((L1d.walking a b).ctl ((asleep n a b).l1dIn BackIn.idle)).coreMemReqAck
        coreStoreDataAck :=
          ((L1d.walking a b).ctl ((asleep n a b).l1dIn BackIn.idle)).coreStoreDataAck
        memRspDstValid :=
          ((L1d.walking a b).ctl ((asleep n a b).l1dIn BackIn.idle)).nCoreMemRsp.dstValid
        memRspDstPtr := ((L1d.walking a b).ctl ((asleep n a b).l1dIn BackIn.idle)).nCoreMemRsp.dstPtr
        memRspLoadData :=
          ((L1d.walking a b).ctl ((asleep n a b).l1dIn BackIn.idle)).nCoreMemRsp.data } := by
    cases n <;> rfl
  rw [h, h2, h3, h4]
  exact Exec.asleep_step n _ _

theorem l1d_asleep (n : ℕ) (a b : SetIdx) :
    (L1d.walking a b).step ((asleep n a b).l1dIn BackIn.idle) =
      (L1d.walking a b).step L1dIn.idle := by
  cases n <;> rfl

theorem step_asleep (n : ℕ) (a b : SetIdx) : (asleep n a b).step BackIn.idle =
    ⟨Core.asleep (n + 1), Exec.asleep (n + 1), (L1d.walking a b).step L1dIn.idle⟩ := by
  rw [← core_asleep n a b, ← exec_asleep n a b, ← l1d_asleep n a b]
  rfl

theorem step_start : start.step BackIn.idle = asleep 1 0 0 := by
  have h : start.exec.step (start.execIn BackIn.idle) = Exec.asleep 1 := Exec.asleep_step 0 _ _
  have hc : start.core.step (start.coreIn BackIn.idle) = Core.asleep 1 := rfl
  have hl : start.l1d.step (start.l1dIn BackIn.idle) = L1d.walking 0 0 := rfl
  rw [asleep, ← h, ← hc, ← hl]
  rfl

/-- **Start-up ends in `boot`**, in any machine that holds the composed one: `P s` is its state
when the composed machine is in state `s`. -/
theorem reach_boot {σ ι : Type*} {M : Machine σ ι} {env : σ → ι → Prop} (P : Back → σ) (i : ι)
    (h0 : M.Reach env (P start))
    (hs : ∀ s, (s = start ∨ ∃ n a b, s = asleep n a b) →
      env (P s) i ∧ M.step (P s) i = P (s.step BackIn.idle)) : M.Reach env (P boot) := by
  have hnext : ∀ s, (s = start ∨ ∃ n a b, s = asleep n a b) → M.Reach env (P s) →
      M.Reach env (P (s.step BackIn.idle)) := fun s hst hr =>
    (hs s hst).2 ▸ hr.step (hs s hst).1
  have hwalk : ∀ k ≤ 4095, ∃ b, M.Reach env (P (asleep (k + 1) (BitVec.ofNat 12 k) b)) := by
    intro k hk
    induction k with
    | zero => exact ⟨0, step_start ▸ hnext start (.inl rfl) h0⟩
    | succ k ih =>
        obtain ⟨b, hb⟩ := ih (by omega)
        refine ⟨BitVec.ofNat 12 k, ?_⟩
        have hr := hnext _ (.inr ⟨_, _, _, rfl⟩) hb
        rw [step_asleep, L1d.walk_next hk b] at hr
        exact hr
  obtain ⟨b, hb⟩ := hwalk 4095 le_rfl
  have hr := hnext _ (.inr ⟨_, _, _, rfl⟩) hb
  rw [step_asleep] at hr
  have hl : (L1d.walking (BitVec.ofNat 12 4095) b).step L1dIn.idle = L1d.ready :=
    L1d.step_walking_last b
  have hc : Core.asleep 4097 = Front.boot.core := Front.asleep_odd 2048
  rw [hl, hc] at hr
  exact hr

theorem reset_start : backMachine.reset start :=
  ⟨⟨_, _, _, rfl⟩, Exec.isReset_init, _, rfl⟩

end Back

/-- From `boot`: the other caches report their flush, the host resumes the core, the front end
acknowledges the restart. -/
def BackIn.bootInputs : List BackIn :=
  [{ BackIn.idle with l1iFlushComplete := true, l2FlushComplete := true },
   { BackIn.idle with resume := true },
   { BackIn.idle with restartAck := true }]

/-- A cycle in which the front end offers the instruction `w` at `pc`. -/
def BackIn.fetch (pc w : Word) : BackIn :=
  { BackIn.idle with insn := ⟨w, pc, pc + 4, false, 0⟩, insnValid := true }

end Rv32Core
