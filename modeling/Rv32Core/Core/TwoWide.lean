import Rv32Core.Core.Renaming
import Rv32Core.Exec.Model

/-! # Two at a time is one after the other

The core renames and retires up to two instructions per cycle and patches the dependencies
between the two by hand.  The reference is one instruction at a time: `RenameTables.alloc` renames
and allocates one uop, `RetireTables.retire` retires one entry.  A cycle with one instruction is one
step of the reference, a cycle with two is two steps. -/

namespace Rv32Core

open RingBuffer

/-! ### One uop allocated -/

/-- What renaming reads and writes: `r_alloc_rat` and `r_prf_free`. -/
structure RenameTables where
  rat : ArchReg → PrfPtr
  prfFree : PrfPtr → Bool

/-- The result of renaming a uop: the state after it, the renamed uop and its ROB entry. -/
structure Allocated where
  state : RenameTables
  uop : Uop
  entry : RobEntry

/-- One uop takes the register `p` and the ROB slot `slot`. -/
def RenameTables.alloc (R : RenameTables) (u : Uop) (p : PrfPtr) (slot : RobPtr) : Allocated where
  state :=
    { rat := writeIf u.dstValid (archReg u.dst) p R.rat
      prfFree := writeIf u.dstValid p false R.prfFree }
  uop :=
    { u with
      srcA := if u.srcAValid then R.rat (archReg u.srcA) else u.srcA
      srcB := if u.srcBValid then R.rat (archReg u.srcB) else u.srcB
      dst := if u.dstValid then p else u.dst
      robPtr := slot }
  entry := Core.robEntryOf u true p (R.rat (archReg u.dst))

/-! ### One entry retired -/

/-- What retirement reads and writes: `r_retire_rat`, the two free lists, the head pointers of the
ROB and of the branch order buffer, and `r_retired_insns`. -/
structure RetireTables where
  retireRat : ArchReg → PrfPtr
  retirePrfFree : PrfPtr → Bool
  prfFree : PrfPtr → Bool
  robHeadPtr : BitVec 6
  bobHeadPtr : BitVec 3
  retiredInsns : BitVec 64

/-- One entry retires. -/
def RetireTables.retire (R : RetireTables) (e : RobEntry) : RetireTables where
  retireRat := writeIf e.validDst e.ldst e.pdst R.retireRat
  retirePrfFree := R.retirePrfFree
    |> writeIf e.validDst e.pdst false
    |> writeIf e.validDst e.oldPdst true
  prfFree := writeIf e.validDst e.oldPdst true R.prfFree
  robHeadPtr := R.robHeadPtr + 1
  bobHeadPtr := if e.isBr then R.bobHeadPtr + 1 else R.bobHeadPtr
  retiredInsns := R.retiredInsns + 1

namespace Core

variable {s : Core} {i : CoreIn}

/-! ### Renaming -/

/-- The rename state before the cycle. -/
def renameTables (s : Core) : RenameTables := ⟨s.rAllocRat, s.rPrfFree⟩

/-- The registers freed by the retirements of the cycle. -/
def freed (s : Core) (i : CoreIn) (f : PrfPtr → Bool) : PrfPtr → Bool :=
  f |> writeIf (s.tFreeReg i) s.tRobHead.oldPdst true
    |> writeIf (s.tFreeRegTwo i) s.tRobNextHead.oldPdst true

/-- The first uop of the cycle, allocated alone. -/
def allocFirst (s : Core) : Allocated :=
  s.renameTables.alloc s.tUop s.nPrfEntry (idx s.rRobTailPtr)

/-- The second uop, allocated alone on the tables the first one leaves. -/
def allocSecond (s : Core) : Allocated :=
  s.allocFirst.state.alloc s.tUop2 s.nPrfEntry2 (idx s.rRobNextTailPtr)

theorem one_wide_rename (h : (s.ctl i).tAlloc = true) (h2 : (s.ctl i).tAllocTwo = false) :
    s.nAllocRat i = s.allocFirst.state.rat ∧
      s.nPrfFree i = s.freed i s.allocFirst.state.prfFree ∧
      s.tAllocUop i = s.allocFirst.uop ∧ s.tRobTail i = s.allocFirst.entry := by
  refine ⟨?_, ?_, ?_, ?_⟩
  · unfold nAllocRat
    dsimp only
    rw [h, h2, Bool.true_and, Bool.false_and, writeIf_false]
    rfl
  · unfold nPrfFree
    dsimp only
    rw [h, h2, Bool.true_and, Bool.false_and, writeIf_false]
    rfl
  · unfold tAllocUop
    dsimp only
    rw [h, Bool.true_and, if_pos rfl]
    rfl
  · unfold tRobTail
    rw [h]
    rfl

/-- A source of the second uop is looked up in the table the first one leaves. -/
theorem renameSrc2_eq (s : Core) (r : PrfPtr) :
    s.renameSrc2 r = writeIf s.tUop.dstValid (archReg s.tUop.dst) s.nPrfEntry s.rAllocRat
      (archReg r) := by
  unfold renameSrc2
  rw [writeIf_apply]
  simp only [Bool.and_eq_true, beq_iff_eq]

/-- The decode queue only holds what the decoder made. -/
def DqDecoded (s : Core) : Prop := ∀ u ∈ dqView s, ∃ f, u = decodeRiscv f

theorem DqDecoded.step (hq : s.DqDecoded) (hp : s.DqPtrs) : (s.step i).DqDecoded :=
  forall_dqView_step hp hq fun f => ⟨f, rfl⟩

theorem init_dqDecoded (rob : RobPtr → RobEntry) (bob : BitVec 2 → BobEntry)
    (dq : BitVec 2 → Uop) : (init rob bob dq).DqDecoded := by
  intro u hu
  have hd : dqView (init rob bob dq) = [] := contents_self _ _
  rw [hd] at hu
  cases hu

/-- In every run, whatever the surroundings do. -/
theorem dqDecoded_of_reach {env : Core → CoreIn → Prop} (h : coreMachine.Reach env s) :
    s.DqPtrs ∧ s.DqDecoded := by
  refine h.invariant (P := fun s => s.DqPtrs ∧ s.DqDecoded) ?_
    fun _ _ h _ => ⟨h.1.step, h.2.step h.1⟩
  rintro _ ⟨rob, bob, dq, rfl⟩
  exact ⟨(init_ptrs rob bob dq).toDqPtrs, init_dqDecoded rob bob dq⟩

theorem uops_decoded {env : Core → CoreIn → Prop} (h : coreMachine.Reach env s)
    (ha : (s.ctl i).tAllocTwo = true) :
    (∃ f, s.tUop = decodeRiscv f) ∧ ∃ f, s.tUop2 = decodeRiscv f := by
  obtain ⟨hp, hq⟩ := dqDecoded_of_reach h
  exact ⟨hq _ (tUop_mem (tAllocTwo_tAlloc ha).1), hq _ (tUop2_mem hp ha)⟩

/-- **Renaming two uops in a cycle is renaming them one after the other.**  For every rename state
and every pair of decoded uops allocated together, the new alias table, the free list up to the
registers the cycle frees, both renamed uops and both ROB entries are those of allocating the first
uop alone with `n_prf_entry` and then the second alone with `n_prf_entry2`; and the first of these
steps is what a cycle does that allocates one uop. -/
theorem two_wide_rename (hd : ∃ f, s.tUop = decodeRiscv f) (hd2 : ∃ f, s.tUop2 = decodeRiscv f)
    (h : (s.ctl i).tAlloc = true) :
    ((s.ctl i).tAllocTwo = false → s.nAllocRat i = s.allocFirst.state.rat ∧
      s.nPrfFree i = s.freed i s.allocFirst.state.prfFree ∧
      s.tAllocUop i = s.allocFirst.uop ∧ s.tRobTail i = s.allocFirst.entry) ∧
    ((s.ctl i).tAllocTwo = true → s.nAllocRat i = s.allocSecond.state.rat ∧
      s.nPrfFree i = s.freed i s.allocSecond.state.prfFree ∧
      s.tAllocUop i = s.allocFirst.uop ∧ s.tAllocUop2 i = s.allocSecond.uop ∧
      s.tRobTail i = s.allocFirst.entry ∧ s.tRobNextTail i = s.allocSecond.entry) := by
  obtain ⟨f, hf⟩ := hd
  obtain ⟨f2, hf2⟩ := hd2
  have hok : s.tUop.DstOk := hf ▸ decodeRiscv_dstOk f
  have hok2 : s.tUop2.DstOk := hf2 ▸ decodeRiscv_dstOk f2
  refine ⟨one_wide_rename h, fun h2 => ⟨?_, ?_, ?_, ?_, ?_, ?_⟩⟩
  · unfold nAllocRat
    dsimp only
    rw [h, h2, Bool.true_and, Bool.true_and]
    rfl
  · unfold nPrfFree
    dsimp only
    rw [h, h2, Bool.true_and, Bool.true_and]
    rfl
  · unfold tAllocUop
    dsimp only
    rw [h, Bool.true_and, if_pos rfl]
    rfl
  · unfold tAllocUop2
    dsimp only
    rw [h2, Bool.true_and, if_pos rfl, renameSrc2_eq, renameSrc2_eq]
    rfl
  · unfold tRobTail
    rw [h]
    rfl
  · cases hv : s.tUop2.dstValid
    · unfold tRobNextTail allocSecond RenameTables.alloc robEntryOf
      simp only [hv, h2, Bool.and_false, Bool.false_eq_true, if_false]
    · unfold tRobNextTail
      rw [h2, oldPdst_eq h hok hok2 hv]
      rfl

/-- Start-up, then `addi x1, x0, 1` and `addi x1, x1, 1` are fetched together. -/
def pairInputs : List CoreIn := bootInputs ++ [CoreIn.fetchTwo 0 0x00100093 0x00108093]

theorem reach_pairInputs : coreMachine.Reach (fun _ _ => True) (coreMachine.run zeroed pairInputs) :=
  .run reach_zeroed (.of_forall (fun _ _ => trivial) _ _)

/-- The second uop of the pair reads and overwrites the destination of the first. -/
theorem two_wide_rename_pair :
    let s := coreMachine.run zeroed pairInputs
    s.nAllocRat .idle = s.allocSecond.state.rat ∧
      (s.tAllocUop2 .idle).srcA = s.nPrfEntry ∧
      (s.tRobNextTail .idle).oldPdst = s.nPrfEntry := by
  have h2 : ((coreMachine.run zeroed pairInputs).ctl .idle).tAllocTwo = true := by decide +kernel
  obtain ⟨hd, hd2⟩ := uops_decoded reach_pairInputs h2
  obtain ⟨-, hpair⟩ := two_wide_rename hd hd2 (tAllocTwo_tAlloc h2).1
  exact ⟨(hpair h2).1, by decide +kernel, by decide +kernel⟩

/-! ### Retirement -/

/-- The retirement state `s` leaves to the next cycle, with the free list `free` and the counter
of the execution unit `x`. -/
def retireTables (s : Core) (free : PrfPtr → Bool) (x : Exec) : RetireTables :=
  ⟨s.rRetireRat, s.rRetirePrfFree, free, s.rRobHeadPtr, s.rBobHeadPtr, x.counters.retiredInsns⟩

/-- The free list without the registers the cycle hands out. -/
def freeAfterAlloc (s : Core) (i : CoreIn) : PrfPtr → Bool :=
  s.rPrfFree
    |> writeIf ((s.ctl i).tAlloc && s.tUop.dstValid) s.nPrfEntry false
    |> writeIf ((s.ctl i).tAllocTwo && s.tUop2.dstValid) s.nPrfEntry2 false

/-- The execution unit is told what retires in the cycle. -/
def ToldRetired (s : Core) (i : CoreIn) (j : ExecIn) : Prop :=
  j.retire = (s.ctl i).tRetire ∧ j.retireTwo = (s.ctl i).tRetireTwo

/-- The registered ports towards `l1i` and the L1D report that `e` retired from `slot`. -/
structure Reports (s : Core) (e : RobEntry) (slot : RobPtr) : Prop where
  branch : e.isBr = true → s.rBranchValid = true ∧ s.rBranchPc = e.pc ∧
    s.rTookBranch = e.takeBr ∧ s.rBranchPhtIdx = e.phtIdx
  call : e.isCall = true → s.retiredCall = true
  ret : e.isRet = true → s.retiredRet = true
  fault : e.faulted = true → s.rBranchFault = true
  l1d : (s.retiredRobPtrValid = true ∧ s.retiredRobPtr = slot) ∨
    (s.retiredRobPtrTwoValid = true ∧ s.retiredRobPtrTwo = slot)

/-- The second head pointer runs one ahead in every run, whatever the surroundings do. -/
theorem rRobNextHeadPtr_eq {env : Core → CoreIn → Prop} (h : coreMachine.Reach env s) :
    s.rRobNextHeadPtr = s.rRobHeadPtr + 1 := by
  induction h with
  | reset h0 =>
      obtain ⟨rob, bob, dq, rfl⟩ := h0
      rfl
  | @step s i _ _ ih =>
      change s.nRobNextHeadPtr i = s.nRobHeadPtr i + 1
      unfold nRobNextHeadPtr nRobHeadPtr
      split_ifs
      · rfl
      · rw [bumpHead_eq, bumpHead_eq, ih, BitVec.add_assoc, BitVec.add_comm 1, BitVec.add_assoc]

theorem tRetire_noArchFault (hs : s.rState = .active) (h : (s.ctl i).tRetire = true) :
    s.tArchFault = false := by
  rw [ctl_tRetire] at h
  simp only [hs] at h
  rw [activeCtl_tRetire, Bool.and_eq_true, Bool.not_eq_true'] at h
  exact h.2

theorem retireTables_step (hs : s.rState = .active) (x : Exec) (j : ExecIn) :
    (s.step i).retireTables (s.step i).rPrfFree (x.step j) =
      ⟨s.nRetireRat i, s.nRetirePrfFree i, s.nPrfFree i, s.bumpHead i s.rRobHeadPtr,
        s.nBobHeadPtr i, (x.nCounters j).retiredInsns⟩ := by
  have hr : s.rState ≠ .rat := by rw [hs]; decide
  have hc : (s.ctl i).tClrRob = false := by rw [ctl_tClrRob, decide_eq_false hr]
  have hcopy : (s.ctl i).tRatCopy = false := by rw [ctl_tRatCopy, decide_eq_false hr]
  have hfree : (s.step i).rPrfFree = s.nPrfFree i :=
    if_neg (by rw [hcopy]; exact Bool.false_ne_true)
  have hhead : (s.step i).rRobHeadPtr = s.bumpHead i s.rRobHeadPtr :=
    if_neg (by rw [hc]; exact Bool.false_ne_true)
  unfold retireTables
  rw [hfree, hhead]
  rfl

theorem branch_ports (h : (s.ctl i).tRetire = true) :
    (s.step i).rBranchValid = (s.reported i).isBr ∧ (s.step i).rBranchPc = (s.reported i).pc ∧
      (s.step i).rTookBranch = (s.reported i).takeBr ∧
      (s.step i).rBranchPhtIdx = (s.reported i).phtIdx := by
  refine ⟨?_, ?_, ?_, ?_⟩
  · change ((s.ctl i).tRetire && (s.reported i).isBr) = _
    rw [h, Bool.true_and]
  · change (if (s.ctl i).tRetire then (s.reported i).pc else 0) = _
    rw [h, if_pos rfl]
  · change ((s.ctl i).tRetire && (s.reported i).takeBr) = _
    rw [h, Bool.true_and]
  · change (if (s.ctl i).tRetire then (s.reported i).phtIdx else 0) = _
    rw [h, if_pos rfl]

theorem head_ports (hs : s.rState = .active) (h : (s.ctl i).tRetire = true) :
    (s.step i).retiredCall = s.tRobHead.isCall ∧ (s.step i).retiredRet = s.tRobHead.isRet ∧
      (s.step i).rBranchFault = s.tRobHead.faulted := by
  refine ⟨?_, ?_, ?_⟩
  · change (s.tRobHead.isCall && (s.ctl i).tRetire) = _
    rw [h, Bool.and_true]
  · change (s.tRobHead.isRet && (s.ctl i).tRetire) = _
    rw [h, Bool.and_true]
  · have ha := tRetire_noArchFault hs h
    unfold tArchFault at ha
    change ((s.ctl i).tRetire && (s.tRobHead.faulted &&
      !(s.tRobHead.isBreak || s.tRobHead.isIi || s.tRobHead.isBadAddr))) = _
    cases hf : s.tRobHead.faulted
    · rw [Bool.false_and, Bool.and_false]
    · rw [hf, Bool.true_and] at ha
      rw [h, ha]
      rfl

theorem one_wide_retire {x : Exec} {j : ExecIn} (hs : s.rState = .active)
    (h : (s.ctl i).tRetire = true) (h2 : (s.ctl i).tRetireTwo = false) (hj : s.ToldRetired i j) :
    (s.step i).retireTables (s.step i).rPrfFree (x.step j) =
        (s.retireTables (s.freeAfterAlloc i) x).retire s.tRobHead ∧
      (s.step i).Reports s.tRobHead (idx s.rRobHeadPtr) := by
  have hr : s.rState ≠ .rat := by rw [hs]; decide
  have hc : (s.ctl i).tClrRob = false := by rw [ctl_tClrRob, decide_eq_false hr]
  have hrep : s.reported i = s.tRobHead := by
    unfold reported
    rw [h2]
    rfl
  obtain ⟨hvalid, hbranch⟩ := branch_ports h
  obtain ⟨hcall, hret, hfault⟩ := head_ports hs h
  rw [hrep] at hvalid hbranch
  constructor
  · rw [retireTables_step hs]
    unfold nRetireRat nRetirePrfFree nPrfFree bumpHead nBobHeadPtr Exec.nCounters tFreeReg
      tFreeRegTwo
    simp only [hj.1, hj.2, h, h2, hc, Bool.true_and, Bool.false_and, Bool.true_or, writeIf_false,
      if_true, Bool.false_eq_true, if_false]
    rfl
  · exact
      { branch := fun hb => ⟨hvalid.trans hb, hbranch⟩
        call := fun he => hcall.trans he
        ret := fun he => hret.trans he
        fault := fun he => hfault.trans he
        l1d := .inl ⟨h, rfl⟩ }

/-- **Retiring two entries in a cycle is retiring them one after the other.**  In every reachable
state, whatever the surroundings do: when a cycle of ACTIVE retires two entries, the retirement
table, both free lists (up to the registers the cycle hands out), the head pointers and the
retired-instruction counter of the execution unit are those of retiring the head alone and then
the entry behind it alone, as a cycle does that retires one.  Both entries are reported: at most
one is a branch, and it is the one on the branch ports; a call, a return and the slots of both are
reported; neither is faulted. -/
theorem two_wide_retire {env : Core → CoreIn → Prop} (hreach : coreMachine.Reach env s)
    (hs : s.rState = .active) {x : Exec} {j : ExecIn} (hj : s.ToldRetired i j)
    (h : (s.ctl i).tRetire = true) :
    ((s.ctl i).tRetireTwo = false →
      (s.step i).retireTables (s.step i).rPrfFree (x.step j) =
          (s.retireTables (s.freeAfterAlloc i) x).retire s.tRobHead ∧
        (s.step i).Reports s.tRobHead (idx s.rRobHeadPtr)) ∧
    ((s.ctl i).tRetireTwo = true →
      (s.step i).retireTables (s.step i).rPrfFree (x.step j) =
          ((s.retireTables (s.freeAfterAlloc i) x).retire (s.rRob (idx s.rRobHeadPtr))).retire
            (s.rRob (idx (s.rRobHeadPtr + 1))) ∧
        (s.step i).Reports (s.rRob (idx s.rRobHeadPtr)) (idx s.rRobHeadPtr) ∧
        (s.step i).Reports (s.rRob (idx (s.rRobHeadPtr + 1))) (idx (s.rRobHeadPtr + 1)) ∧
        ((s.rRob (idx s.rRobHeadPtr)).isBr && (s.rRob (idx (s.rRobHeadPtr + 1))).isBr) = false ∧
        (s.step i).rBranchValid = ((s.rRob (idx s.rRobHeadPtr)).isBr ||
          (s.rRob (idx (s.rRobHeadPtr + 1))).isBr) ∧
        (s.rRob (idx s.rRobHeadPtr)).faulted = false ∧
        (s.rRob (idx (s.rRobHeadPtr + 1))).faulted = false ∧
        (s.step i).rBranchFault = false) := by
  refine ⟨fun h2 => one_wide_retire hs h h2 hj, fun h2 => ?_⟩
  have hnext : s.rRob (idx (s.rRobHeadPtr + 1)) = s.tRobNextHead := by
    rw [tRobNextHead, rRobNextHeadPtr_eq hreach]
  have hslot : idx s.rRobNextHeadPtr = idx (s.rRobHeadPtr + 1) := by
    rw [rRobNextHeadPtr_eq hreach]
  obtain ⟨-, hb, hf, hf2, hret2, hcall2⟩ := tRetireTwo_spec h2
  have hr : s.rState ≠ .rat := by rw [hs]; decide
  have hc : (s.ctl i).tClrRob = false := by rw [ctl_tClrRob, decide_eq_false hr]
  have hrep : s.reported i = s.tRobNextHead := by
    unfold reported
    rw [h2]
    rfl
  obtain ⟨hvalid, hbranch⟩ := branch_ports h
  obtain ⟨hcall, hret, hfault⟩ := head_ports hs h
  rw [hrep] at hvalid hbranch
  have htables : (s.step i).retireTables (s.step i).rPrfFree (x.step j) =
      ((s.retireTables (s.freeAfterAlloc i) x).retire s.tRobHead).retire s.tRobNextHead := by
    rw [retireTables_step hs]
    unfold nRetireRat nRetirePrfFree nPrfFree bumpHead nBobHeadPtr Exec.nCounters tFreeReg
      tFreeRegTwo
    simp only [hj.1, hj.2, h, h2, hc, hb, Bool.true_and, Bool.true_or, Bool.and_false, if_true,
      Bool.false_eq_true, if_false]
    have h64 (n : BitVec 64) : n + 1 + 1 = n + 2 := BitVec.add_assoc n 1 1
    have h6 (n : BitVec 6) : n + 1 + 1 = n + 2 := BitVec.add_assoc n 1 1
    simp only [RetireTables.retire, retireTables, hb, h64, h6, Bool.false_eq_true, if_false]
    rfl
  have hfirst : (s.step i).Reports s.tRobHead (idx s.rRobHeadPtr) :=
    { branch := fun he => absurd (hb.symm.trans he) Bool.false_ne_true
      call := fun he => hcall.trans he
      ret := fun he => hret.trans he
      fault := fun he => hfault.trans he
      l1d := .inl ⟨h, rfl⟩ }
  have hsecond : (s.step i).Reports s.tRobNextHead (idx (s.rRobHeadPtr + 1)) :=
    { branch := fun he => ⟨hvalid.trans he, hbranch⟩
      call := fun he => absurd (hcall2.symm.trans he) Bool.false_ne_true
      ret := fun he => absurd (hret2.symm.trans he) Bool.false_ne_true
      fault := fun he => absurd (hf2.symm.trans he) Bool.false_ne_true
      l1d := .inr ⟨h2, hslot⟩ }
  rw [hnext]
  refine ⟨htables, hfirst, hsecond, ?_, ?_, hf, hf2, hfault.trans hf⟩
  · exact (congrArg (· && _) hb).trans (Bool.false_and _)
  · exact hvalid.trans ((congrArg (· || _) hb).trans (Bool.false_or _)).symm

/-- The pair is allocated and completed. -/
def retirePairInputs : List CoreIn :=
  pairInputs ++ [CoreIn.idle, CoreIn.complete 1, CoreIn.complete 0]

theorem two_wide_retire_pair :
    let s := coreMachine.run zeroed retirePairInputs
    let j := { ExecIn.idle with retire := true, retireTwo := true }
    (s.step .idle).retireTables (s.step .idle).rPrfFree (Exec.init.step j) =
      ((s.retireTables (s.freeAfterAlloc .idle) Exec.init).retire s.tRobHead).retire
        s.tRobNextHead := by
  have hreach : coreMachine.Reach (fun _ _ => True) (coreMachine.run zeroed retirePairInputs) :=
    .run reach_zeroed (.of_forall (fun _ _ => trivial) _ _)
  have h2 : ((coreMachine.run zeroed retirePairInputs).ctl .idle).tRetireTwo = true := by
    decide +kernel
  have hpair := (two_wide_retire (i := .idle) (x := Exec.init)
    (j := { ExecIn.idle with retire := true, retireTwo := true }) hreach (by decide +kernel)
    ⟨by decide +kernel, by decide +kernel⟩ (by decide +kernel)).2 h2
  have hnext : (coreMachine.run zeroed retirePairInputs).rRobHeadPtr + 1 =
      (coreMachine.run zeroed retirePairInputs).rRobNextHeadPtr := by decide +kernel
  rw [hnext] at hpair
  exact hpair.1

end Core
end Rv32Core
