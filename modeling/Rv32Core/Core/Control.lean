import Rv32Core.Core.State

/-! # The state machine of the core

The `always_comb` block over `r_state`: `Ctl.dflt` is its default assignments, one definition
per state overrides them, and `Core.ctl` selects the arm. -/

namespace Rv32Core

/-- The signals driven by the state machine. -/
structure Ctl where
  tAlloc : Bool
  tAllocTwo : Bool
  tRetire : Bool
  tRetireTwo : Bool
  tRatCopy : Bool
  tClrRob : Bool
  tClrDq : Bool
  tBumpRobHead : Bool
  tClrExternIrq : Bool
  tRestartComplete : Bool
  nState : CoreState
  nRestartPc : Word
  nRestartSrcPc : Word
  nRestartSrcIsIndirect : Bool
  nRestartValid : Bool
  nPendingFault : Bool
  nPendingBreak : Bool
  nPendingBadva : Bool
  nPendingIi : Bool
  nEpc : Word
  nDsDone : Bool
  nFlushReqL1d : Bool
  nFlushReqL1i : Bool
  nFlushClReq : Bool
  nFlushClAddr : Word
  nGotBreak : Bool
  nGotUd : Bool
  nGotBadAddr : Bool
  nGotMonitor : Bool
  nReadyForResume : Bool
  nL1iFlushComplete : Bool
  nL1dFlushComplete : Bool
  nL2FlushComplete : Bool

namespace Core

variable (s : Core) (i : CoreIn)

/-- `n_got_restart_ack`: latched outside ACTIVE. -/
def nGotRestartAck : Bool :=
  if s.rState = .active then false
  else if !s.rGotRestartAck then i.restartAck
  else s.rGotRestartAck

/-- The pending fault before the state's own assignment: any faulting completion sets it. -/
def pendingFault : Bool :=
  if i.tCompleteValid1 || i.tCompleteValid2 then
    s.rPendingFault || (if i.tCompleteValid1 then i.tCompleteBundle1.faulted else false) ||
      (if i.tCompleteValid2 then i.tCompleteBundle2.faulted else false)
  else s.rPendingFault

/-- The assignments before the `case`. -/
def dfltCtl : Ctl where
  tAlloc := false
  tAllocTwo := false
  tRetire := false
  tRetireTwo := false
  tRatCopy := false
  tClrRob := false
  tClrDq := false
  tBumpRobHead := false
  tClrExternIrq := false
  tRestartComplete := false
  nState := s.rState
  nRestartPc := s.rRestartPc
  nRestartSrcPc := s.rRestartSrcPc
  nRestartSrcIsIndirect := s.rRestartSrcIsIndirect
  nRestartValid := false
  nPendingFault := s.pendingFault i
  nPendingBreak := s.rPendingBreak
  nPendingBadva := s.rPendingBadva
  nPendingIi := s.rPendingIi
  nEpc := s.rEpc
  nDsDone := s.rDsDone
  nFlushReqL1d := false
  nFlushReqL1i := false
  nFlushClReq := false
  nFlushClAddr := s.rFlushClAddr
  nGotBreak := s.rGotBreak
  nGotUd := s.rGotUd
  nGotBadAddr := s.rGotBadAddr
  nGotMonitor := s.rGotMonitor
  nReadyForResume := false
  nL1iFlushComplete := s.rL1iFlushComplete || i.l1iFlushComplete
  nL1dFlushComplete := s.rL1dFlushComplete || i.l1dFlushComplete
  nL2FlushComplete := s.rL2FlushComplete || i.l2FlushComplete

/-! ### ACTIVE -/

/-- An interrupt: drain and refetch the head of the ROB. -/
def irqCtl : Ctl :=
  { s.dfltCtl i with
    nState := .drain
    nRestartPc := s.tRobHead.pc
    nDsDone := true
    tClrExternIrq := true
    nRestartValid := true }

/-- A faulted head: an architectural fault halts the machine, a misprediction drains it. -/
def faultCtl : Ctl :=
  let d := s.dfltCtl i
  let c :=
    if s.tArchFault then { d with nState := .archFault }
    else { d with nDsDone := true, nState := .drain, nRestartValid := true, tBumpRobHead := true }
  { c with
    nRestartPc := s.tRobHead.targetPc
    nRestartSrcPc := s.tRobHead.pc
    nRestartSrcIsIndirect := s.tRobHead.isIndirect && !s.tRobHead.isRet }

/-- `t_alloc` in a cycle in which the head can retire. -/
def allocOnRetire : Bool :=
  !s.tRobFull && !s.rPendingFault && !i.tUqFull && !s.tDqEmpty && s.tEnoughIprfs && s.tEnoughBob

/-- `t_alloc` in a cycle in which it cannot. -/
def allocNoRetire : Bool :=
  !s.tRobFull && !s.tUop.serializingOp && !i.tUqFull && !s.tDqEmpty && s.tEnoughIprfs &&
    s.tEnoughBob

/-- What `t_alloc_two` asks beyond `t_alloc` (`t_enough_bob`, which one of the two cases asks
again, is part of `t_alloc`). -/
def allocTwoToo : Bool :=
  !s.tUop.isBr && !s.tUop2.serializingOp && !s.tDqNextEmpty && !s.tRobNextFull &&
    !i.tUqNextFull && s.tEnoughNextIprfs

/-- The head can retire and the machine goes on. -/
def retireCtl : Ctl :=
  let d := s.dfltCtl i
  if s.tDqEmpty then d
  else if s.tUop.serializingOp then
    if s.tRobEmpty then
      { d with nState := if s.tUop.op = .monitor then .handleMonitor else .allocForSerialize }
    else d
  else
    { d with
      tAlloc := s.allocOnRetire i
      tAllocTwo := s.allocOnRetire i && s.allocTwoToo i }

/-- The head can retire. -/
def canRetireCtl : Ctl :=
  { (if s.tRobHead.faulted then s.faultCtl i else s.retireCtl i) with
    tRetire := s.tRobHeadComplete && !s.tArchFault
    tRetireTwo := !s.tRobNextEmpty && !s.tRobHead.faulted && !s.tRobNextHead.faulted &&
      s.tRobHeadComplete && s.tRobNextHeadComplete && !s.tRobHead.isBr &&
      !s.tRobNextHead.isRet && !s.tRobNextHead.isCall }

/-- The head cannot retire: allocate, or start a serializing uop on an empty ROB. -/
def noRetireCtl : Ctl :=
  let d := s.dfltCtl i
  if s.tDqEmpty then d
  else if s.tUop.serializingOp && s.tRobEmpty then
    if s.tUop.op = .monitor then
      { d with nFlushReqL1i := false, nFlushReqL1d := true, nState := .monitorFlushCache }
    else { d with nState := .allocForSerialize }
  else if !s.tUop.serializingOp then
    { d with
      tAlloc := s.allocNoRetire i
      tAllocTwo := s.allocNoRetire i && s.allocTwoToo i && s.tEnoughBob }
  else d

def activeCtl : Ctl :=
  if s.rExternIrq && !s.tRobEmpty then s.irqCtl i
  else if s.tCanRetireRobHead then s.canRetireCtl i
  else s.noRetireCtl i

/-! ### The other states -/

def drainCtl : Ctl :=
  let d := s.dfltCtl i
  if (∀ p, s.rRobInflight p = false) ∧ i.memqEmpty = true ∧ i.tDivideReady = true then
    { d with nState := .rat }
  else d

def ratCtl : Ctl :=
  let d := { s.dfltCtl i with tRatCopy := true, tClrRob := true, tClrDq := true }
  if s.nGotRestartAck i then
    { d with
      nState := .active
      nDsDone := false
      nPendingFault := false
      tRestartComplete := true }
  else d

/-- `t_alloc` of a serializing uop: any free register will do. -/
def allocSerial : Bool :=
  !s.tRobFull && !i.tUqFull && !isZero s.rPrfFree && !s.tDqEmpty

def allocForSerializeCtl : Ctl :=
  { s.dfltCtl i with
    tAlloc := s.allocSerial i
    nState :=
      if s.allocSerial i then .waitForSerializeAndRestart else .allocForSerialize }

def waitForSerializeAndRestartCtl : Ctl :=
  let d := s.dfltCtl i
  if s.tRobHeadComplete then
    { d with
      tClrDq := true
      nRestartPc := s.tRobHead.targetPc
      nRestartSrcPc := s.tRobHead.pc
      nRestartSrcIsIndirect := false
      nRestartValid := true
      nPendingFault := false
      nState := if s.nGotRestartAck i then .active else s.rState }
  else d

def monitorFlushCacheCtl : Ctl :=
  let d := s.dfltCtl i
  if d.nL1dFlushComplete && d.nL2FlushComplete then
    { d with
      nGotMonitor := true
      nState := .handleMonitor
      nL1iFlushComplete := false
      nL1dFlushComplete := false
      nL2FlushComplete := false }
  else d

def handleMonitorCtl : Ctl :=
  let d := s.dfltCtl i
  if i.monitorAck then { d with nGotMonitor := false, nState := .allocForMonitor } else d

def allocForMonitorCtl : Ctl :=
  { s.dfltCtl i with tAlloc := s.allocSerial i, nState := .waitForMonitor }

def waitForMonitorCtl : Ctl :=
  let d := s.dfltCtl i
  if s.tRobHeadComplete then
    { d with
      tClrDq := true
      nRestartPc := s.tRobHead.pc + 4
      nRestartSrcPc := s.tRobHead.pc
      nRestartSrcIsIndirect := false
      nRestartValid := true
      nPendingFault := false
      tRetire := s.nGotRestartAck i
      nState := if s.nGotRestartAck i then .active else s.rState }
  else d

def flushForHaltCtl : Ctl :=
  let d := s.dfltCtl i
  if d.nL1iFlushComplete && d.nL1dFlushComplete && d.nL2FlushComplete then
    { d with
      nState := .halt
      nDsDone := false
      nGotBreak := s.rPendingBreak
      nGotUd := s.rPendingIi
      nGotBadAddr := s.rPendingBadva
      nPendingBreak := false
      nPendingBadva := false
      nPendingIi := false
      nReadyForResume := true
      nL1iFlushComplete := false
      nL1dFlushComplete := false
      nL2FlushComplete := false }
  else d

def haltCtl : Ctl :=
  let d := s.dfltCtl i
  if i.resume then
    { d with
      nRestartPc := i.resumePc
      nRestartSrcPc := s.tRobHead.pc
      nRestartSrcIsIndirect := false
      nRestartValid := true
      nState := .haltWaitForRestart
      nGotBreak := false
      nGotUd := false
      tClrDq := true }
  else { d with nReadyForResume := true }

def haltWaitForRestartCtl : Ctl :=
  { s.dfltCtl i with
    nPendingFault := false
    nState := if s.nGotRestartAck i then .active else s.rState }

def archFaultCtl : Ctl :=
  let d := { s.dfltCtl i with nFlushReqL1i := true, nFlushReqL1d := true, nState := .writeEpc }
  if s.tRobHead.isBreak then { d with nPendingBreak := true }
  else if s.tRobHead.isIi then { d with nPendingIi := true }
  else if s.tRobHead.isBadAddr then { d with nPendingBadva := true }
  else d

def writeEpcCtl : Ctl :=
  { s.dfltCtl i with nState := .writeCause, nEpc := s.tRobHead.pc }

def writeCauseCtl : Ctl :=
  { s.dfltCtl i with nState := .flushForHalt, tBumpRobHead := true, nDsDone := true }

/-- The state machine. -/
def ctl : Ctl :=
  match s.rState with
  | .active => s.activeCtl i
  | .drain => s.drainCtl i
  | .rat => s.ratCtl i
  | .allocForSerialize => s.allocForSerializeCtl i
  | .waitForSerializeAndRestart => s.waitForSerializeAndRestartCtl i
  | .monitorFlushCache => s.monitorFlushCacheCtl i
  | .handleMonitor => s.handleMonitorCtl i
  | .allocForMonitor => s.allocForMonitorCtl i
  | .waitForMonitor => s.waitForMonitorCtl i
  | .flushForHalt => s.flushForHaltCtl i
  | .halt => s.haltCtl i
  | .haltWaitForRestart => s.haltWaitForRestartCtl i
  | .archFault => s.archFaultCtl i
  | .writeEpc => s.writeEpcCtl i
  | .writeCause => s.writeCauseCtl i

end Core
end Rv32Core
