import Rv32Core.Core.Control

/-! # The core: renaming, reorder buffer and clock edge

The renamed uops, the ROB entries written at allocation, the next values of both register
alias tables and both free lists, and `Core.step`, one rising clock edge. -/

namespace Rv32Core

open RingBuffer

/-- The architectural register a source or destination field names, `[4:0]`. -/
def archReg (p : PrfPtr) : ArchReg := p.setWidth 5

namespace Core

variable (s : Core) (i : CoreIn)

/-! ### Renaming -/

/-- `t_alloc_uop`: the first uop with physical registers. -/
def tAllocUop : Uop :=
  let u := s.tUop
  let c := s.ctl i
  { u with
    srcA := if u.srcAValid then s.rAllocRat (archReg u.srcA) else u.srcA
    srcB := if u.srcBValid then s.rAllocRat (archReg u.srcB) else u.srcB
    dst := if c.tAlloc && u.dstValid then s.nPrfEntry else u.dst
    robPtr := if c.tAlloc then idx s.rRobTailPtr else u.robPtr }

/-- A source of the second uop: the first uop's new register when it writes that register. -/
def renameSrc2 (r : PrfPtr) : PrfPtr :=
  if s.tUop.dstValid && archReg r == archReg s.tUop.dst then s.nPrfEntry
  else s.rAllocRat (archReg r)

/-- `t_alloc_uop2`. -/
def tAllocUop2 : Uop :=
  let u := s.tUop2
  let c := s.ctl i
  { u with
    srcA := if u.srcAValid then s.renameSrc2 u.srcA else u.srcA
    srcB := if u.srcBValid then s.renameSrc2 u.srcB else u.srcB
    dst := if c.tAllocTwo && u.dstValid then s.nPrfEntry2 else u.dst
    robPtr := if c.tAllocTwo then idx s.rRobNextTailPtr else u.robPtr }

theorem tAllocUop_renames : (s.tAllocUop i).Renames s.tUop := ⟨_, _, _, _, rfl⟩

theorem tAllocUop2_renames : (s.tAllocUop2 i).Renames s.tUop2 := ⟨_, _, _, _, rfl⟩

theorem tAllocUop_robPtr (h : (s.ctl i).tAlloc = true) :
    (s.tAllocUop i).robPtr = idx s.rRobTailPtr := if_pos h

theorem tAllocUop2_robPtr (h : (s.ctl i).tAllocTwo = true) :
    (s.tAllocUop2 i).robPtr = idx s.rRobNextTailPtr := if_pos h

theorem tAllocUop_dst (h : (s.ctl i).tAlloc = true) (hv : s.tUop.dstValid = true) :
    (s.tAllocUop i).dst = s.nPrfEntry := if_pos (by rw [h, hv]; rfl)

theorem tAllocUop2_dst (h : (s.ctl i).tAllocTwo = true) (hv : s.tUop2.dstValid = true) :
    (s.tAllocUop2 i).dst = s.nPrfEntry2 := if_pos (by rw [h, hv]; rfl)

def nAllocRat : ArchReg → PrfPtr :=
  let c := s.ctl i
  s.rAllocRat
    |> writeIf (c.tAlloc && s.tUop.dstValid) (archReg s.tUop.dst) s.nPrfEntry
    |> writeIf (c.tAllocTwo && s.tUop2.dstValid) (archReg s.tUop2.dst) s.nPrfEntry2

/-! ### Allocation into the ROB -/

/-- The ROB entry of `u` when `alloc` is raised and its destination register becomes `pdst` in
place of `old`. -/
def robEntryOf (u : Uop) (alloc : Bool) (pdst old : PrfPtr) : RobEntry where
  faulted := alloc && folds u.op && u.op == .ii
  isIi := alloc && folds u.op && u.op == .ii
  isBadAddr := false
  isRet := u.op == .ret
  isCall := u.op == .jal || u.op == .jalr
  validDst := alloc && u.dstValid
  ldst := if alloc && u.dstValid then archReg u.dst else 0
  pdst := if alloc && u.dstValid then pdst else 0
  oldPdst := if alloc && u.dstValid then old else 0
  pc := u.pc
  targetPc := u.pc + 4
  isBr := u.isBr
  isIndirect := u.op == .jalr || u.op == .jr
  takeBr := alloc && folds u.op && u.op == .j
  isBreak := u.op == .brk
  data := 0
  phtIdx := u.phtIdx

/-- `t_rob_tail`. -/
def tRobTail : RobEntry :=
  robEntryOf s.tUop (s.ctl i).tAlloc s.nPrfEntry (s.rAllocRat (archReg s.tUop.dst))

/-- `t_rob_next_tail`: the previous mapping is the first uop's register when both write the
same one. -/
def tRobNextTail : RobEntry :=
  robEntryOf s.tUop2 (s.ctl i).tAllocTwo s.nPrfEntry2
    (if s.tUop.dstValid && s.tUop.dst == s.tUop2.dst then (s.tRobTail i).pdst
     else s.rAllocRat (archReg s.tUop2.dst))

/-- What a completion bundle writes into its ROB entry. -/
def completeEntry (b : Complete) (e : RobEntry) : RobEntry :=
  { e with
    faulted := b.faulted
    targetPc := b.restartPc
    isIi := b.isIi
    takeBr := b.takeBr
    data := b.data }

/-- What an answer of the data cache writes into its ROB entry. -/
def memEntry (r : MemRsp) (e : RobEntry) : RobEntry :=
  { e with data := r.data, faulted := r.badAddr, isBadAddr := r.badAddr }

def nRob : RobPtr → RobEntry :=
  let c := s.ctl i
  if c.tClrRob then fun p => { s.rRob p with faulted := false }
  else
    s.rRob
      |> writeIf c.tAlloc (idx s.rRobTailPtr) (s.tRobTail i)
      |> writeIf c.tAllocTwo (idx s.rRobNextTailPtr) (s.tRobNextTail i)
      |> modifyIf i.tCompleteValid1 i.tCompleteBundle1.robPtr (completeEntry i.tCompleteBundle1)
      |> modifyIf i.tCompleteValid2 i.tCompleteBundle2.robPtr (completeEntry i.tCompleteBundle2)
      |> modifyIf i.coreMemRspValid i.coreMemRsp.robPtr (memEntry i.coreMemRsp)

def nRobComplete : RobPtr → Bool :=
  let c := s.ctl i
  if c.tClrRob then fun _ => false
  else
    s.rRobComplete
      |> writeIf c.tAlloc (idx s.rRobTailPtr) s.tFoldUop
      |> writeIf c.tAllocTwo (idx s.rRobNextTailPtr) s.tFoldUop2
      |> writeIf i.tCompleteValid1 i.tCompleteBundle1.robPtr i.tCompleteBundle1.complete
      |> writeIf i.tCompleteValid2 i.tCompleteBundle2.robPtr i.tCompleteBundle2.complete
      |> writeIf i.coreMemRspValid i.coreMemRsp.robPtr true

def nRobSdComplete : RobPtr → Bool :=
  let c := s.ctl i
  if c.tClrRob then fun _ => false
  else
    s.rRobSdComplete
      |> writeIf c.tAlloc (idx s.rRobTailPtr) (!(s.tUop.isMem && s.tUop.srcBValid))
      |> writeIf c.tAllocTwo (idx s.rRobNextTailPtr) (!(s.tUop2.isMem && s.tUop2.srcBValid))
      |> writeIf i.tCoreStoreDataPtrValid i.tCoreStoreDataPtr true

/-- The branch order buffer.  When both allocated uops are branches nothing is written. -/
def nBob : BitVec 2 → BobEntry :=
  let c := s.ctl i
  if c.tClrRob then fun p => { s.rBob p with valid := false }
  else
    s.rBob
      |> writeIf (c.tAlloc && !c.tAllocTwo && s.tUop.isBr) (idx s.rBobTailPtr)
          ⟨true, idx s.rRobTailPtr⟩
      |> writeIf (c.tAlloc && c.tAllocTwo && s.tUop.isBr && !s.tUop2.isBr) (idx s.rBobTailPtr)
          ⟨true, idx s.rRobTailPtr⟩
      |> writeIf (c.tAlloc && c.tAllocTwo && !s.tUop.isBr && s.tUop2.isBr) (idx s.rBobTailPtr)
          ⟨true, idx s.rRobNextTailPtr⟩

/-- A ROB slot is dead from its allocation until it retires. -/
def nRobDeadInsns : RobPtr → Bool :=
  let c := s.ctl i
  if c.tClrRob then fun _ => false
  else
    s.rRobDeadInsns
      |> writeIf c.tRetire (idx s.rRobHeadPtr) false
      |> writeIf c.tRetireTwo (idx s.rRobNextHeadPtr) false
      |> writeIf c.tAlloc (idx s.rRobTailPtr) true
      |> writeIf c.tAllocTwo (idx s.rRobNextTailPtr) true

/-- `t_clr_mask`: the slots a flush gives up waiting for. -/
def tClrMask : RobPtr → Bool :=
  (fun p => i.uqWait p || i.mqWait p)
    |> writeIf i.tCompleteValid1 i.tCompleteBundle1.robPtr true
    |> writeIf i.tCompleteValid2 i.tCompleteBundle2.robPtr true
    |> writeIf i.coreMemRspValid i.coreMemRsp.robPtr true

def nRobInflight : RobPtr → Bool :=
  let c := s.ctl i
  if s.rDsDone then fun p => s.rRobInflight p && !tClrMask i p
  else
    s.rRobInflight
      |> writeIf i.tCompleteValid1 i.tCompleteBundle1.robPtr false
      |> writeIf i.tCompleteValid2 i.tCompleteBundle2.robPtr false
      |> writeIf i.coreMemRspValid i.coreMemRsp.robPtr false
      |> writeIf (c.tAlloc && !s.tFoldUop) (idx s.rRobTailPtr) true
      |> writeIf (c.tAllocTwo && !s.tFoldUop2) (idx s.rRobNextTailPtr) true

/-! ### Pointers -/

/-- A tail pointer after an allocation of none, one or two uops. -/
def bumpTail (p : BitVec 6) : BitVec 6 :=
  let c := s.ctl i
  if c.tAlloc && !c.tAllocTwo then p + 1 else if c.tAlloc && c.tAllocTwo then p + 2 else p

/-- A head pointer after a retirement of none, one or two entries. -/
def bumpHead (p : BitVec 6) : BitVec 6 :=
  let c := s.ctl i
  if c.tRetire || c.tBumpRobHead then (if c.tRetireTwo then p + 2 else p + 1) else p

def nRobHeadPtr : BitVec 6 := if (s.ctl i).tClrRob then 0 else s.bumpHead i s.rRobHeadPtr
def nRobNextHeadPtr : BitVec 6 := if (s.ctl i).tClrRob then 1 else s.bumpHead i s.rRobNextHeadPtr
def nRobTailPtr : BitVec 6 := if (s.ctl i).tClrRob then 0 else s.bumpTail i s.rRobTailPtr
def nRobNextTailPtr : BitVec 6 := if (s.ctl i).tClrRob then 1 else s.bumpTail i s.rRobNextTailPtr

def nBobTailPtr : BitVec 3 :=
  let c := s.ctl i
  if c.tClrRob then 0
  else if c.tAlloc && !c.tAllocTwo && s.tUop.isBr then s.rBobTailPtr + 1
  else if c.tAlloc && c.tAllocTwo && (s.tUop.isBr || s.tUop2.isBr) then s.rBobTailPtr + 1
  else s.rBobTailPtr

def nBobHeadPtr : BitVec 3 :=
  let c := s.ctl i
  if c.tClrRob then 0
  else if (c.tRetire || c.tBumpRobHead) && s.tRobHead.isBr then s.rBobHeadPtr + 1
  else if c.tRetireTwo && s.tRobNextHead.isBr then s.rBobHeadPtr + 1
  else s.rBobHeadPtr

/-! ### Retirement -/

/-- The head retires and wrote a register (`t_free_reg`). -/
def tFreeReg : Bool := (s.ctl i).tRetire && s.tRobHead.validDst

/-- The entry behind it retires with it and wrote a register (`t_free_reg_two`). -/
def tFreeRegTwo : Bool := (s.ctl i).tRetire && ((s.ctl i).tRetireTwo && s.tRobNextHead.validDst)

def nRetireRat : ArchReg → PrfPtr :=
  s.rRetireRat
    |> writeIf (s.tFreeReg i) s.tRobHead.ldst s.tRobHead.pdst
    |> writeIf (s.tFreeRegTwo i) s.tRobNextHead.ldst s.tRobNextHead.pdst

def nRetirePrfFree : PrfPtr → Bool :=
  s.rRetirePrfFree
    |> writeIf (s.tFreeReg i) s.tRobHead.pdst false
    |> writeIf (s.tFreeReg i) s.tRobHead.oldPdst true
    |> writeIf (s.tFreeRegTwo i) s.tRobNextHead.pdst false
    |> writeIf (s.tFreeRegTwo i) s.tRobNextHead.oldPdst true

def nPrfFree : PrfPtr → Bool :=
  let c := s.ctl i
  s.rPrfFree
    |> writeIf (c.tAlloc && s.tUop.dstValid) s.nPrfEntry false
    |> writeIf (c.tAllocTwo && s.tUop2.dstValid) s.nPrfEntry2 false
    |> writeIf (s.tFreeReg i) s.tRobHead.oldPdst true
    |> writeIf (s.tFreeRegTwo i) s.tRobNextHead.oldPdst true

/-- The retired branch whose outcome is reported: the second entry when two retire. -/
def reported : RobEntry := if (s.ctl i).tRetireTwo then s.tRobNextHead else s.tRobHead

/-- The entries retired in a cycle. -/
def retired : List RobEntry :=
  (if (s.ctl i).tRetire then [s.tRobHead] else []) ++
    if (s.ctl i).tRetireTwo then [s.tRobNextHead] else []

/-! ### The decode queue -/

/-- `insn_ack`. -/
def insnAck : Bool := !s.tDqFull && i.insnValid && decide (s.rState = .active)

/-- `insn_ack_two`. -/
def insnAckTwo : Bool :=
  !s.tDqFull && i.insnValid && !s.tDqNextFull && i.insnValidTwo && decide (s.rState = .active)

/-- `t_push_dq_two`, whatever the state: only the acknowledge looks at it. -/
def tPushDqTwo : Bool :=
  !(s.ctl i).tClrDq && i.insnValid && !s.tDqFull && !s.tDqNextFull && i.insnValidTwo

/-- `t_push_dq_one`. -/
def tPushDqOne : Bool := !(s.ctl i).tClrDq && i.insnValid && !s.tDqFull

def nDq : BitVec 2 → Uop :=
  s.rDq
    |> writeIf (s.tPushDqOne i) (idx s.rDqTailPtr) (decodeRiscv i.insn)
    |> writeIf (s.tPushDqTwo i) (idx s.rDqNextTailPtr) (decodeRiscv i.insnTwo)

/-- A tail pointer of the decode queue after the pushes of the cycle. -/
def bumpDqTail (p : BitVec 3) : BitVec 3 :=
  if s.tPushDqTwo i then p + 2 else if s.tPushDqOne i then p + 1 else p

/-- A head pointer of the decode queue after the allocations of the cycle. -/
def bumpDqHead (p : BitVec 3) : BitVec 3 :=
  let c := s.ctl i
  if c.tAlloc && !c.tAllocTwo then p + 1 else if c.tAlloc && c.tAllocTwo then p + 2 else p

/-- The queue is emptied by `t_clr_dq` and by `t_clr_rob`. -/
def clrDq : Bool := (s.ctl i).tClrRob || (s.ctl i).tClrDq

def nDqHeadPtr : BitVec 3 := if s.clrDq i then 0 else s.bumpDqHead i s.rDqHeadPtr
def nDqNextHeadPtr : BitVec 3 := if s.clrDq i then 1 else s.bumpDqHead i s.rDqNextHeadPtr
def nDqTailPtr : BitVec 3 := if s.clrDq i then 0 else s.bumpDqTail i s.rDqTailPtr
def nDqNextTailPtr : BitVec 3 := if s.clrDq i then 1 else s.bumpDqTail i s.rDqNextTailPtr

/-! ### Outputs towards the execution unit and the caches -/

/-- `t_push_1`. -/
def tPush1 : Bool := (s.ctl i).tAlloc && !s.tFoldUop

/-- `t_push_2`. -/
def tPush2 : Bool := (s.ctl i).tAllocTwo && !s.tFoldUop2

/-- `uq_push`. -/
def uqPush : Bool := s.tPush1 i || (!s.tPush1 i && s.tPush2 i)

/-- `uq_push_two`. -/
def uqPushTwo : Bool := s.tPush2 i && s.tPush1 i

/-- `uq_uop`. -/
def uqUop : Uop := if s.tPush1 i then s.tAllocUop i else s.tAllocUop2 i

/-- `uq_uop_two`. -/
def uqUopTwo : Uop := s.tAllocUop2 i

/-! ### The clock edge -/

/-- One rising clock edge. -/
def step : Core :=
  let c := s.ctl i
  { rState := c.nState
    rPendingFault := c.nPendingFault
    rGotRestartAck := s.nGotRestartAck i
    rFlushReqL1d := c.nFlushReqL1d
    rFlushReqL1i := c.nFlushReqL1i
    rFlushClReq := c.nFlushClReq
    rFlushClAddr := c.nFlushClAddr
    rRestartPc := c.nRestartPc
    rRestartSrcPc := c.nRestartSrcPc
    rRestartSrcIsIndirect := c.nRestartSrcIsIndirect
    rRestartValid := c.nRestartValid
    rBranchPc := if c.tRetire then (s.reported i).pc else 0
    rTookBranch := c.tRetire && (s.reported i).takeBr
    rBranchValid := c.tRetire && (s.reported i).isBr
    rBranchFault :=
      c.tRetire && (s.tRobHead.faulted &&
        !(s.tRobHead.isBreak || s.tRobHead.isIi || s.tRobHead.isBadAddr))
    rBranchPhtIdx := if c.tRetire then (s.reported i).phtIdx else 0
    rGotBreak := c.nGotBreak
    rPendingBreak := c.nPendingBreak
    rPendingBadva := c.nPendingBadva
    rPendingIi := c.nPendingIi
    rGotUd := c.nGotUd
    rGotBadAddr := c.nGotBadAddr
    rGotMonitor := c.nGotMonitor
    rReadyForResume := c.nReadyForResume
    rL1iFlushComplete := c.nL1iFlushComplete
    rL1dFlushComplete := c.nL1dFlushComplete
    rL2FlushComplete := c.nL2FlushComplete
    rEpc := c.nEpc
    rDsDone := c.nDsDone
    drainDsComplete := s.rDsDone
    rExternIrq := if c.tClrExternIrq then false else i.externIrq || s.rExternIrq
    retireRegPtr := s.tRobHead.ldst
    retireRegData := s.tRobHead.data
    retireRegValid := s.tRobHead.validDst && c.tRetire
    retireRegTwoPtr := s.tRobNextHead.ldst
    retireRegTwoData := s.tRobNextHead.data
    retireRegTwoValid := s.tRobNextHead.validDst && c.tRetireTwo
    retireValid := c.tRetire
    retireTwoValid := c.tRetireTwo
    retirePc := s.tRobHead.pc
    retireTwoPc := s.tRobNextHead.pc
    retiredCall := s.tRobHead.isCall && c.tRetire
    retiredRet := s.tRobHead.isRet && c.tRetire
    retiredRobPtrValid := c.tRetire
    retiredRobPtrTwoValid := c.tRetireTwo
    retiredRobPtr := idx s.rRobHeadPtr
    retiredRobPtrTwo := idx s.rRobNextHeadPtr
    rRob := s.nRob i
    rRobComplete := s.nRobComplete i
    rRobSdComplete := s.nRobSdComplete i
    rRobInflight := s.nRobInflight i
    rRobDeadInsns := s.nRobDeadInsns i
    rRobHeadPtr := s.nRobHeadPtr i
    rRobTailPtr := s.nRobTailPtr i
    rRobNextHeadPtr := s.nRobNextHeadPtr i
    rRobNextTailPtr := s.nRobNextTailPtr i
    rBob := s.nBob i
    rBobHeadPtr := s.nBobHeadPtr i
    rBobTailPtr := s.nBobTailPtr i
    rAllocRat := if c.tRatCopy then s.rRetireRat else s.nAllocRat i
    rRetireRat := s.nRetireRat i
    rPrfFree := if c.tRatCopy then s.rRetirePrfFree else s.nPrfFree i
    rRetirePrfFree := s.nRetirePrfFree i
    rBankSel := !s.rBankSel
    rDq := s.nDq i
    rDqHeadPtr := s.nDqHeadPtr i
    rDqTailPtr := s.nDqTailPtr i
    rDqNextHeadPtr := s.nDqNextHeadPtr i
    rDqNextTailPtr := s.nDqNextTailPtr i }

end Core

/-! ### Reset -/

/-- The identity map from architectural to physical registers. -/
def initRat (r : ArchReg) : PrfPtr := r.setWidth 6

/-- The free list after reset: registers 32 to 63. -/
def initPrfFree (p : PrfPtr) : Bool := decide (32 ≤ p)

/-- The state after reset, from power-up contents `rob`, `bob` and `dq` of the memories that
reset leaves alone. -/
def Core.init (rob : RobPtr → RobEntry) (bob : BitVec 2 → BobEntry) (dq : BitVec 2 → Uop) :
    Core where
  rState := .flushForHalt
  rPendingFault := false
  rGotRestartAck := false
  rFlushReqL1d := false
  rFlushReqL1i := false
  rFlushClReq := false
  rFlushClAddr := 0
  rRestartPc := 0
  rRestartSrcPc := 0
  rRestartSrcIsIndirect := false
  rRestartValid := false
  rBranchPc := 0
  rTookBranch := false
  rBranchValid := false
  rBranchFault := false
  rBranchPhtIdx := 0
  rGotBreak := false
  rPendingBreak := false
  rPendingBadva := false
  rPendingIi := false
  rGotUd := false
  rGotBadAddr := false
  rGotMonitor := false
  rReadyForResume := false
  rL1iFlushComplete := false
  rL1dFlushComplete := false
  rL2FlushComplete := false
  rEpc := 0
  rDsDone := false
  drainDsComplete := false
  rExternIrq := false
  retireRegPtr := 0
  retireRegData := 0
  retireRegValid := false
  retireRegTwoPtr := 0
  retireRegTwoData := 0
  retireRegTwoValid := false
  retireValid := false
  retireTwoValid := false
  retirePc := 0
  retireTwoPc := 0
  retiredCall := false
  retiredRet := false
  retiredRobPtrValid := false
  retiredRobPtrTwoValid := false
  retiredRobPtr := 0
  retiredRobPtrTwo := 0
  rRob p := { rob p with faulted := false }
  rRobComplete _ := false
  rRobSdComplete _ := false
  rRobInflight _ := false
  rRobDeadInsns _ := false
  rRobHeadPtr := 0
  rRobTailPtr := 0
  rRobNextHeadPtr := 1
  rRobNextTailPtr := 1
  rBob p := { bob p with valid := false }
  rBobHeadPtr := 0
  rBobTailPtr := 0
  rAllocRat := initRat
  rRetireRat := initRat
  rPrfFree := initPrfFree
  rRetirePrfFree := initPrfFree
  rBankSel := false
  rDq := dq
  rDqHeadPtr := 0
  rDqTailPtr := 0
  rDqNextHeadPtr := 1
  rDqNextTailPtr := 1

/-- The core as a synchronous machine. -/
def coreMachine : Clocked.Machine Core CoreIn where
  reset s := ∃ rob bob dq, s = Core.init rob bob dq
  step := Core.step

/-! ### Start-up -/

/-- The state after reset with zeroed memories. -/
def Core.zeroed : Core :=
  Core.init (fun _ => RobEntry.zero) (fun _ => ⟨false, 0⟩) fun _ => Uop.zero

theorem Core.reach_zeroed {env : Core → CoreIn → Prop} : coreMachine.Reach env Core.zeroed :=
  .reset ⟨_, _, _, rfl⟩

/-- Start-up: the caches report their flush, the host resumes the core, the front end
acknowledges the restart. -/
def bootInputs : List CoreIn :=
  [{ CoreIn.idle with l1dFlushComplete := true, l1iFlushComplete := true, l2FlushComplete := true },
   { CoreIn.idle with resume := true },
   { CoreIn.idle with restartAck := true }]

/-- A cycle in which the front end offers the instruction `w` at `pc`. -/
def CoreIn.fetch (pc w : Word) : CoreIn :=
  { CoreIn.idle with insn := ⟨w, pc, pc + 4, false, 0⟩, insnValid := true }

/-- A cycle in which it offers `w` at `pc` and `w2` behind it. -/
def CoreIn.fetchTwo (pc w w2 : Word) : CoreIn :=
  { CoreIn.fetch pc w with insnTwo := ⟨w2, pc + 4, pc + 8, false, 0⟩, insnValidTwo := true }

/-- A cycle in which the execution unit completes the uop of slot `p` without a fault. -/
def CoreIn.complete (p : RobPtr) : CoreIn :=
  { CoreIn.idle with
    tCompleteValid1 := true
    tCompleteBundle1 := ⟨p, true, false, 0, false, false, 0⟩ }

end Rv32Core
