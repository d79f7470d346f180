import Rv32Core.Exec.Alu
import Rv32Core.Exec.Divider
import Rv32Core.Exec.Sched
import Rv32Core.Queue

/-! # The execution unit

`exec` takes up to two renamed uops per cycle into its queues: integer uops go through the uop
queue and one of two schedulers to the integer ports, memory uops through the memory uop queue
to the request queue of the L1 data cache, and the data of stores through a queue of their own.
Port 1 also starts the multiplier and the divider, which write back through it.

`alu`, `wakes` and the other wires are functions of the registers and, where they look at the
ports, of the inputs of the cycle.  `ds_done` flushes the integer side, `mem_dq_clr` the store
data; the two cases of `reset` are the start of a run. -/

namespace Rv32Core

open Clocked RingBuffer

/-! ### Queues with a second tail pointer -/

/-- A queue of the execution unit with its pointers `r_*_head_ptr`, `r_*_tail_ptr` and
`r_*_next_tail_ptr`. -/
structure ExecQueue (k : ℕ) (α : Type*) where
  buf : BitVec k → α
  headPtr : BitVec (k + 1)
  tailPtr : BitVec (k + 1)
  nextTailPtr : BitVec (k + 1)

namespace ExecQueue

variable {k : ℕ} {α : Type*} (q : ExecQueue k α)

def empty : Bool := q.headPtr == q.tailPtr
def full : Bool := isFull q.headPtr q.tailPtr
def nextFull : Bool := isFull q.headPtr q.nextTailPtr

/-- The entry at the head. -/
def head : α := q.buf (idx q.headPtr)

/-- One rising clock edge: both entries of a pair are pushed, or one of them, and `pop` entries
leave; `clear` empties the queue. -/
def step (clear two one first : Bool) (a b : α) (pop : BitVec (k + 1)) : ExecQueue k α where
  buf :=
    if two then q.buf |> writeIf true (idx q.nextTailPtr) b |> writeIf true (idx q.tailPtr) a
    else q.buf |> writeIf one (idx q.tailPtr) (if first then a else b)
  headPtr := if clear then 0 else q.headPtr + pop
  tailPtr := if clear then 0 else if two then q.tailPtr + 2 else if one then q.tailPtr + 1
    else q.tailPtr
  nextTailPtr := if clear then 1 else if two then q.nextTailPtr + 2
    else if one then q.nextTailPtr + 1 else q.nextTailPtr

/-- The pointers after reset. -/
def IsReset : Prop := q.headPtr = 0 ∧ q.tailPtr = 0 ∧ q.nextTailPtr = 1

end ExecQueue

/-! ### The multiplier -/

/-- The registers of `mul`, one entry per stage; the result is latched in the first stage. -/
structure Mul where
  rComplete : Fin 4 → Bool
  rIsHigh : Fin 4 → Bool
  rRobPtr : Fin 4 → RobPtr
  rGprPtr : Fin 4 → PrfPtr
  rMul : Fin 4 → BitVec 64

/-- The input ports of the multiplier. -/
structure MulIn where
  isSigned : Bool
  isHigh : Bool
  go : Bool
  srcA : Word
  srcB : Word
  robPtrIn : RobPtr
  prfPtrIn : PrfPtr

namespace Mul

variable (m : Mul) (i : MulIn)

/-- `t_mul`. -/
def tMul : BitVec 64 :=
  if i.isSigned then i.srcA.signExtend 64 * i.srcB.signExtend 64
  else i.srcA.setWidth 64 * i.srcB.setWidth 64

def complete : Bool := m.rComplete 3
def robPtrOut : RobPtr := m.rRobPtr 3
def prfPtrOut : PrfPtr := m.rGprPtr 3

/-- `y`. -/
def y : BitVec 64 :=
  if m.rIsHigh 3 then ((m.rMul 3).extractLsb' 32 32).setWidth 64 else m.rMul 3

/-- The index of stage `k`. -/
abbrev stage (k : ℕ) : Fin 4 := Fin.ofNat 4 k

/-- A stage register: the first stage takes the input, every other its predecessor. -/
def shift {α : Type*} (v : α) (r : Fin 4 → α) (k : Fin 4) : α := if k = 0 then v else r (k - 1)

/-- One rising clock edge. -/
def step : Mul where
  rComplete := shift i.go m.rComplete
  rIsHigh := shift i.isHigh m.rIsHigh
  rRobPtr := shift i.robPtrIn m.rRobPtr
  rGprPtr := shift i.prfPtrIn m.rGprPtr
  rMul := shift (tMul i) m.rMul

end Mul

/-! ### Registers and ports -/

/-- A read port of the register file and the forwarding bits that override it:
`r_fwd_int_*`, `r_fwd_int2_*` and `r_fwd_mem_*`. -/
structure ReadPort where
  rFwdInt : Bool
  rFwdInt2 : Bool
  rFwdMem : Bool
  rd : Word

/-- The registers of the execution unit.  `memUq` and `memDq` are the copies of the queue heads
the address and the store data are computed from. -/
structure Exec where
  rUq : ExecQueue 3 Uop
  rUqNextHeadPtr : BitVec 4
  rMemUq : ExecQueue 3 Uop
  rMemDq : ExecQueue 4 Dq
  rMemQ : ExecQueue 2 MemReq
  rMdq : ExecQueue 2 MemData
  memUq : Uop
  memDq : Dq
  rMemReady : Bool
  rDqReady : Bool
  sched : AluSched
  sched2 : AluSched
  intUop : Uop
  intUop2 : Uop
  rStartInt : Bool
  rStartInt2 : Bool
  mul : Mul
  div : Divider 5
  rMulComplete : Bool
  rMulPrfPtr : PrfPtr
  rDivComplete : Bool
  rDivPrfPtr : PrfPtr
  rWbBitvec : Fin 34 → Bool
  rPrfInflight : PrfPtr → Bool
  rUqWait : RobPtr → Bool
  rMqWait : RobPtr → Bool
  counters : Counters
  srcA : ReadPort
  srcB : ReadPort
  srcA2 : ReadPort
  srcB2 : ReadPort
  memSrcA : ReadPort
  memSrcB : ReadPort
  rIntResult : Word
  rIntResult2 : Word
  rMemResult : Word
  rRam : PrfPtr → Word
  completeValid1 : Bool
  completeBundle1 : Complete
  completeValid2 : Bool
  completeBundle2 : Complete

/-- The input ports: the flushes and the uops of the core, the acknowledges and the answer of
the L1 data cache, and what the core retires. -/
structure ExecIn where
  dsDone : Bool
  memDqClr : Bool
  restartComplete : Bool
  uqPush : Bool
  uqPushTwo : Bool
  uqUop : Uop
  uqUopTwo : Uop
  memReqAck : Bool
  coreStoreDataAck : Bool
  memRspDstValid : Bool
  memRspDstPtr : PrfPtr
  memRspLoadData : Word
  retire : Bool
  retireTwo : Bool
  branchValid : Bool
  branchFault : Bool

namespace Exec

variable (s : Exec) (i : ExecIn)

/-! ### The operands -/

/-- `t_srcA`, `t_srcB`, `t_srcA_2` and `t_srcB_2`. -/
def intSrc (p : ReadPort) : Word :=
  if p.rFwdInt then s.rIntResult else if p.rFwdInt2 then s.rIntResult2
  else if p.rFwdMem then s.rMemResult else p.rd

/-- `t_mem_srcA` and `t_mem_srcB`. -/
def memSrc (p : ReadPort) : Word :=
  if p.rFwdInt then s.rIntResult else if p.rFwdMem then s.rMemResult
  else if p.rFwdInt2 then s.rIntResult2 else p.rd

def tSrcA : Word := s.intSrc s.srcA
def tSrcB : Word := s.intSrc s.srcB
def tSrcA2 : Word := s.intSrc s.srcA2
def tSrcB2 : Word := s.intSrc s.srcB2
def tMemSrcA : Word := s.memSrc s.memSrcA
def tMemSrcB : Word := s.memSrc s.memSrcB

/-! ### The integer ports -/

/-- What port 1 computes for `int_uop`. -/
def alu : Alu := Port1.alu s.counters s.intUop s.tSrcA s.tSrcB

/-- What port 2 computes for `int_uop2`. -/
def alu2 : Alu := Port2.alu s.counters s.intUop2 s.tSrcA2 s.tSrcB2

/-- `r_start_int & t_wr_int_prf`. -/
def wrInt : Bool := s.rStartInt && s.alu.wrIntPrf

/-- `r_start_int2 & t_wr_int_prf2`. -/
def wrInt2 : Bool := s.rStartInt2 && s.alu2.wrIntPrf

def tStartMul : Bool := usesMul s.intUop.op && (s.rStartInt && !i.dsDone)
def tStartDiv32 : Bool := usesDiv s.intUop.op && (s.rStartInt && !i.dsDone)
def tSignedDiv : Bool := s.intUop.op == .div || s.intUop.op == .rem
def tIsRem : Bool := s.intUop.op == .rem || s.intUop.op == .remu

/-- The ports of the multiplier. -/
def mulIn : MulIn where
  isSigned := s.intUop.op == .mul || s.intUop.op == .mulh
  isHigh := s.intUop.op == .mulhu || s.intUop.op == .mulh
  go := s.tStartMul i && s.rStartInt
  srcA := s.tSrcA
  srcB := s.tSrcB
  robPtrIn := s.intUop.robPtr
  prfPtrIn := s.intUop.dst

/-- The ports of the divider. -/
def divIn : DivIn 5 where
  srcA := s.tSrcA
  srcB := s.tSrcB
  robPtrIn := s.intUop.robPtr
  prfPtrIn := s.intUop.dst
  isSignedDiv := s.tSignedDiv
  isRem := s.tIsRem
  startDiv := s.tStartDiv32 i

def tMulComplete : Bool := s.mul.complete
def tDivComplete : Bool := s.div.complete
def tDivReady : Bool := s.div.ready (s.divIn i)

/-- The reservations of write-back port 1 after the cycle. -/
def nWbBitvec (k : Fin 34) : Bool :=
  if k = 33 then s.tStartDiv32 i && s.rStartInt
  else if k = 3 ∧ (s.tStartMul i && s.rStartInt) = true then true
  else s.rWbBitvec (k + 1)

/-! ### Wakeup -/

/-- A register written in this cycle by the memory or by an integer operation. -/
def wakesNow (r : PrfPtr) : Bool :=
  (i.memRspDstValid && i.memRspDstPtr == r) || (s.wrInt2 && s.intUop2.dst == r) ||
    (s.wrInt && s.intUop.dst == r)

/-- A register whose producer wakes the scheduler entries in this cycle: the multiplier and the
divider one cycle after their write. -/
def wakes (r : PrfPtr) : Bool :=
  (i.memRspDstValid && i.memRspDstPtr == r) || (s.rMulComplete && s.rMulPrfPtr == r) ||
    (s.rDivComplete && s.rDivPrfPtr == r) || (s.wrInt2 && s.intUop2.dst == r) ||
    (s.wrInt && s.intUop.dst == r)

/-- The ready bit of a source when its uop enters a scheduler. -/
def allocRdy (valid : Bool) (r : PrfPtr) : Bool :=
  if valid then !s.rPrfInflight r || (valid && s.wakesNow i r) else true

/-! ### The uop queues -/

/-- `uq`. -/
def uq : Uop := s.rUq.head

/-- `uq2`. -/
def uq2 : Uop := s.rUq.buf (idx s.rUqNextHeadPtr)

/-- `t_mem_uq`. -/
def tMemUq : Uop := s.rMemUq.head

/-- `t_mem_dq`. -/
def tMemDq : Dq := s.rMemDq.head

def tUqNextEmpty : Bool := s.rUqNextHeadPtr == s.rUq.tailPtr
def uqFull : Bool := s.rUq.full || s.rMemUq.full || s.rMemDq.full
def uqNextFull : Bool := s.rUq.nextFull || s.rMemUq.nextFull || s.rMemDq.nextFull

/-- Both uops pushed go to the queue of the uops with `p`. -/
def pushTwo (p : Uop → Bool) : Bool := i.uqPush && i.uqPushTwo && p i.uqUop && p i.uqUopTwo

/-- One of the uops pushed goes to the queue of the uops with `p`. -/
def pushOne (p : Uop → Bool) : Bool :=
  ((i.uqPush && p i.uqUop) || (i.uqPushTwo && p i.uqUopTwo)) && !pushTwo i p

/-- `is_mem && srcB_valid`: the uop also waits for store data. -/
def hasData (u : Uop) : Bool := u.isMem && u.srcBValid

/-- `t_dq0` and `t_dq1`. -/
def toDq (u : Uop) : Dq := ⟨u.robPtr, u.srcB⟩

def tPopUq : Bool := !(i.dsDone || s.rUq.empty || s.sched.full)
def tPopUq2 : Bool :=
  if s.tUqNextEmpty then false else s.tPopUq i && s.uq2.isCheapInt && !s.sched2.full

def memSrcAReady : Bool :=
  if s.tMemUq.srcAValid then !s.rPrfInflight s.tMemUq.srcA || s.wakesNow i s.tMemUq.srcA else true

def dqReady : Bool := !s.rPrfInflight s.tMemDq.srcPtr || s.wakesNow i s.tMemDq.srcPtr

def tPopMemUq : Bool :=
  !s.rMemUq.empty && !(s.rMemQ.nextFull || s.rMemQ.full) && s.memSrcAReady i && !i.dsDone

def tPopMemDq : Bool :=
  !s.rMemDq.empty && !i.memDqClr && s.dqReady i && !(s.rMdq.nextFull || s.rMdq.full)

/-! ### The schedulers -/

/-- The inputs of the scheduler of port 1. -/
def schedIn : SchedIn where
  flashClear := i.dsDone
  pop := s.tPopUq i
  uop := s.uq
  srcARdy := s.allocRdy i s.uq.srcAValid s.uq.srcA
  srcBRdy := s.allocRdy i s.uq.srcBValid s.uq.srcB
  srcAMatch j := (s.sched.rUops j).srcAValid && s.wakes i (s.sched.rUops j).srcA
  srcBMatch j := (s.sched.rUops j).srcBValid && s.wakes i (s.sched.rUops j).srcB
  mayStart j :=
    if usesDiv (s.sched.rUops j).op then s.tDivReady i
    else if usesMul (s.sched.rUops j).op then !s.rWbBitvec 5 else !s.rWbBitvec 1

/-- The inputs of the scheduler of port 2. -/
def schedIn2 : SchedIn where
  flashClear := i.dsDone
  pop := s.tPopUq2 i
  uop := s.uq2
  srcARdy := s.allocRdy i s.uq2.srcAValid s.uq2.srcA
  srcBRdy := s.allocRdy i s.uq2.srcBValid s.uq2.srcB
  srcAMatch j := (s.sched2.rUops j).srcAValid && s.wakes i (s.sched2.rUops j).srcA
  srcBMatch j := (s.sched2.rUops j).srcBValid && s.wakes i (s.sched2.rUops j).srcB
  mayStart _ := true

/-- `t_picked_uop`. -/
def tPickedUop : Uop := s.sched.picked (s.schedIn i)

/-- `t_picked_uop2`. -/
def tPickedUop2 : Uop := s.sched2.picked (s.schedIn2 i)

/-! ### Memory requests -/

/-- `w_agu32`. -/
def wAgu32 : Word := ppa s.tMemSrcA s.memUq.rvimm

/-- `t_mem_tail`: an access that leaves its cache line becomes a NOP marked as spanning it. -/
def tMemTail : MemReq :=
  let a := s.wAgu32
  let bad16 := a.extractLsb' 0 4 == BitVec.allOnes 4
  let bad32 := a.extractLsb' 2 2 == BitVec.allOnes 2 && a.extractLsb' 0 2 != 0
  let odd := a.getLsbD 0
  let unaligned32 := a.extractLsb' 0 2 != 0
  let base : MemReq := {
    op := .lw, addr := a, robPtr := s.memUq.robPtr, dstValid := false, dstPtr := s.memUq.dst
    isLoad := false, isStore := false, data := 0, spansCacheline := false, unaligned := false
    pc := s.memUq.pc }
  let load : MemReq := { base with isLoad := true, dstValid := s.memUq.dstValid }
  match s.memUq.op with
  | .sb => { base with op := .sb, isStore := true }
  | .sh => { base with
      op := if bad16 then .nop else .sh, isStore := !bad16, spansCacheline := bad16
      unaligned := odd }
  | .sw => { base with
      op := if bad32 then .nop else .sw, isStore := !bad32, spansCacheline := bad32
      unaligned := unaligned32 }
  | .sc => { base with
      op := .sc, isStore := true, dstValid := true, spansCacheline := unaligned32
      unaligned := unaligned32 }
  | .lw => { load with
      op := if bad32 then .nop else .lw, spansCacheline := bad32, unaligned := unaligned32 }
  | .lb => { load with op := .lb }
  | .lbu => { load with op := .lbu }
  | .lhu => { load with op := .lhu, spansCacheline := odd, unaligned := odd }
  | .lh => { load with
      op := if bad16 then .nop else .lh, spansCacheline := bad16, unaligned := odd }
  | _ => base

/-- `t_core_store_data`. -/
def tCoreStoreData : MemData := ⟨s.tMemSrcB, s.memDq.robPtr⟩

/-! ### Outputs -/

def memReq : MemReq := s.rMemQ.head
def memReqValid : Bool := !s.rMemQ.empty
def coreStoreData : MemData := s.rMdq.head
def coreStoreDataValid : Bool := !s.rMdq.empty
def coreStoreDataPtr : RobPtr := s.memDq.robPtr
def coreStoreDataPtrValid : Bool := s.rDqReady

/-! ### Write-back -/

/-- `wrptr0`. -/
def wrptr0 : PrfPtr :=
  if s.tMulComplete then s.mul.prfPtrOut else if s.tDivComplete then s.div.prfPtrOut
  else s.intUop.dst

/-- `wen0`. -/
def wen0 : Bool := s.tMulComplete || s.tDivComplete || s.wrInt

/-- `wr0`. -/
def wr0 : Word :=
  if s.tMulComplete then s.mul.y.setWidth 32 else if s.tDivComplete then s.div.result
  else s.alu.result

/-- The completion of the multiplier, else of the divider, else of the integer operation. -/
def nCompleteBundle1 : Complete :=
  if s.tMulComplete || s.tDivComplete then
    { robPtr := if s.tMulComplete then s.mul.robPtrOut else s.div.robPtrOut
      complete := true
      faulted := false
      restartPc := 0
      isIi := false
      takeBr := false
      data := if s.tMulComplete then s.mul.y.setWidth 32 else s.div.result }
  else
    { robPtr := s.intUop.robPtr
      complete := s.alu.aluValid
      faulted := s.alu.mispredBr || s.alu.unimpOp
      restartPc := s.alu.pc
      isIi := s.alu.unimpOp
      takeBr := s.alu.takeBr
      data := s.alu.result }

/-- The completion of port 2. -/
def nCompleteBundle2 : Complete where
  robPtr := s.intUop2.robPtr
  complete := s.alu2.aluValid
  faulted := s.alu2.mispredBr
  restartPc := s.alu2.pc
  isIi := false
  takeBr := s.alu2.takeBr
  data := s.alu2.result

/-! ### The clock edge -/

/-- A read port after the cycle: register 0 reads as zero, a register written in this cycle reads
its old value and is forwarded. -/
def readPort (r : PrfPtr) : ReadPort where
  rFwdInt := s.wrInt && r == s.intUop.dst
  rFwdInt2 := s.wrInt2 && r == s.intUop2.dst
  rFwdMem := i.memRspDstValid && r == i.memRspDstPtr
  rd := if r = 0 then 0 else s.rRam r

/-- `n_prf_inflight`. -/
def nPrfInflight : PrfPtr → Bool :=
  s.rPrfInflight
    |> writeIf (i.uqPush && i.uqUop.dstValid) i.uqUop.dst true
    |> writeIf (i.uqPushTwo && i.uqUopTwo.dstValid) i.uqUopTwo.dst true
    |> writeIf i.memRspDstValid i.memRspDstPtr false
    |> writeIf s.wrInt s.intUop.dst false
    |> writeIf (!s.wrInt && s.tMulComplete) s.mul.prfPtrOut false
    |> writeIf (!s.wrInt && !s.tMulComplete && s.tDivComplete) s.div.prfPtrOut false
    |> writeIf s.wrInt2 s.intUop2.dst false

/-- The wait bits after the pushes to the queue of the uops with `p`. -/
def pushWait (p : Uop → Bool) (wait : RobPtr → Bool) : RobPtr → Bool :=
  wait
    |> writeIf (pushTwo i p) i.uqUop.robPtr true
    |> writeIf (pushTwo i p) i.uqUopTwo.robPtr true
    |> writeIf (pushOne i p) (if p i.uqUop then i.uqUop.robPtr else i.uqUopTwo.robPtr) true

def nUqWait : RobPtr → Bool :=
  pushWait i Uop.isInt s.rUqWait |> writeIf s.rStartInt s.intUop.robPtr false

def nMqWait : RobPtr → Bool :=
  pushWait i Uop.isMem s.rMqWait |> writeIf (s.tPopMemUq i) s.tMemUq.robPtr false

/-- The counters after the cycle. -/
def nCounters : Counters where
  cycle := s.counters.cycle + 1
  retiredInsns :=
    if i.retireTwo then s.counters.retiredInsns + 2
    else if i.retire then s.counters.retiredInsns + 1 else s.counters.retiredInsns
  branches := if i.branchValid then s.counters.branches + 1 else s.counters.branches
  branchFaults :=
    if i.branchFault then s.counters.branchFaults + 1 else s.counters.branchFaults

/-- One rising clock edge. -/
def step : Exec where
  rUq := s.rUq.step i.dsDone (pushTwo i Uop.isInt) (pushOne i Uop.isInt) i.uqUop.isInt
    i.uqUop i.uqUopTwo (if s.tPopUq2 i then 2 else if s.tPopUq i then 1 else 0)
  rUqNextHeadPtr :=
    if i.dsDone then 1
    else s.rUqNextHeadPtr + (if s.tPopUq2 i then 2 else if s.tPopUq i then 1 else 0)
  rMemUq := s.rMemUq.step i.dsDone (pushTwo i Uop.isMem) (pushOne i Uop.isMem) i.uqUop.isMem
    i.uqUop i.uqUopTwo (if s.tPopMemUq i then 1 else 0)
  rMemDq := s.rMemDq.step i.memDqClr (pushTwo i hasData) (pushOne i hasData) (hasData i.uqUop)
    (toDq i.uqUop) (toDq i.uqUopTwo) (if s.tPopMemDq i then 1 else 0)
  rMemQ := s.rMemQ.step false false s.rMemReady true s.tMemTail s.tMemTail
    (if i.memReqAck then 1 else 0)
  rMdq := s.rMdq.step i.memDqClr false s.rDqReady true s.tCoreStoreData s.tCoreStoreData
    (if i.coreStoreDataAck then 1 else 0)
  memUq := s.tMemUq
  memDq := s.tMemDq
  rMemReady := s.tPopMemUq i
  rDqReady := s.tPopMemDq i
  sched := s.sched.step (s.schedIn i)
  sched2 := s.sched2.step (s.schedIn2 i)
  intUop := s.tPickedUop i
  intUop2 := s.tPickedUop2 i
  rStartInt := s.sched.anyRdy (s.schedIn i) && !i.dsDone
  rStartInt2 := s.sched2.anyRdy (s.schedIn2 i) && !i.dsDone
  mul := s.mul.step (s.mulIn i)
  div := s.div.step (s.divIn i)
  rMulComplete := s.tMulComplete
  rMulPrfPtr := s.mul.prfPtrOut
  rDivComplete := s.tDivComplete
  rDivPrfPtr := s.div.prfPtrOut
  rWbBitvec := s.nWbBitvec i
  rPrfInflight := if i.dsDone then fun _ => false else s.nPrfInflight i
  rUqWait := if i.restartComplete then fun _ => false else s.nUqWait i
  rMqWait := if i.restartComplete then fun _ => false else s.nMqWait i
  counters := s.nCounters i
  srcA := s.readPort i (s.tPickedUop i).srcA
  srcB := s.readPort i (s.tPickedUop i).srcB
  srcA2 := s.readPort i (s.tPickedUop2 i).srcA
  srcB2 := s.readPort i (s.tPickedUop2 i).srcB
  memSrcA := s.readPort i s.tMemUq.srcA
  memSrcB := s.readPort i s.tMemDq.srcPtr
  rIntResult := s.alu.result
  rIntResult2 := s.alu2.result
  rMemResult := i.memRspLoadData
  rRam := s.rRam
    |> writeIf s.wen0 s.wrptr0 s.wr0
    |> writeIf i.memRspDstValid i.memRspDstPtr i.memRspLoadData
    |> writeIf s.wrInt2 s.intUop2.dst s.alu2.result
  completeValid1 := (s.rStartInt && s.alu.aluValid) || s.tMulComplete || s.tDivComplete
  completeBundle1 := s.nCompleteBundle1
  completeValid2 := s.rStartInt2
  completeBundle2 := s.nCompleteBundle2

/-- The registers reset clears, and the bits of the arrays it leaves alone are arbitrary. -/
structure IsReset : Prop where
  rUq : s.rUq.IsReset
  rUqNextHeadPtr : s.rUqNextHeadPtr = 1
  rMemUq : s.rMemUq.IsReset
  rMemDq : s.rMemDq.IsReset
  rMemQ : s.rMemQ.IsReset
  rMdq : s.rMdq.IsReset
  rMemReady : s.rMemReady = false
  rDqReady : s.rDqReady = false
  sched : schedMachine.reset s.sched
  sched2 : schedMachine.reset s.sched2
  rStartInt : s.rStartInt = false
  rStartInt2 : s.rStartInt2 = false
  mulComplete : s.mul.rComplete = fun _ => false
  div : s.div = Divider.init 5
  rMulComplete : s.rMulComplete = false
  rDivComplete : s.rDivComplete = false
  rWbBitvec : s.rWbBitvec = fun _ => false
  rPrfInflight : s.rPrfInflight = fun _ => false
  rUqWait : s.rUqWait = fun _ => false
  rMqWait : s.rMqWait = fun _ => false
  counters : s.counters = ⟨0, 0, 0, 0⟩
  completeValid1 : s.completeValid1 = false
  completeValid2 : s.completeValid2 = false

/-- The state after reset from zeroed arrays. -/
def init : Exec where
  rUq := ⟨fun _ => Uop.zero, 0, 0, 1⟩
  rUqNextHeadPtr := 1
  rMemUq := ⟨fun _ => Uop.zero, 0, 0, 1⟩
  rMemDq := ⟨fun _ => ⟨0, 0⟩, 0, 0, 1⟩
  rMemQ := ⟨fun _ => ⟨0, false, false, .nop, false, false, 0, 0, false, 0, 0⟩, 0, 0, 1⟩
  rMdq := ⟨fun _ => ⟨0, 0⟩, 0, 0, 1⟩
  memUq := Uop.zero
  memDq := ⟨0, 0⟩
  rMemReady := false
  rDqReady := false
  sched := AluSched.init fun _ => Uop.zero
  sched2 := AluSched.init fun _ => Uop.zero
  intUop := Uop.zero
  intUop2 := Uop.zero
  rStartInt := false
  rStartInt2 := false
  mul := ⟨fun _ => false, fun _ => false, fun _ => 0, fun _ => 0, fun _ => 0⟩
  div := Divider.init 5
  rMulComplete := false
  rMulPrfPtr := 0
  rDivComplete := false
  rDivPrfPtr := 0
  rWbBitvec _ := false
  rPrfInflight _ := false
  rUqWait _ := false
  rMqWait _ := false
  counters := ⟨0, 0, 0, 0⟩
  srcA := ⟨false, false, false, 0⟩
  srcB := ⟨false, false, false, 0⟩
  srcA2 := ⟨false, false, false, 0⟩
  srcB2 := ⟨false, false, false, 0⟩
  memSrcA := ⟨false, false, false, 0⟩
  memSrcB := ⟨false, false, false, 0⟩
  rIntResult := 0
  rIntResult2 := 0
  rMemResult := 0
  rRam _ := 0
  completeValid1 := false
  completeBundle1 := ⟨0, false, false, 0, false, false, 0⟩
  completeValid2 := false
  completeBundle2 := ⟨0, false, false, 0, false, false, 0⟩

theorem isReset_init : init.IsReset := by
  constructor <;> first | rfl | exact ⟨rfl, rfl, rfl⟩ | exact ⟨_, rfl⟩

end Exec

/-- Nothing arrives in a cycle. -/
def ExecIn.idle : ExecIn where
  dsDone := false
  memDqClr := false
  restartComplete := false
  uqPush := false
  uqPushTwo := false
  uqUop := Uop.zero
  uqUopTwo := Uop.zero
  memReqAck := false
  coreStoreDataAck := false
  memRspDstValid := false
  memRspDstPtr := 0
  memRspLoadData := 0
  retire := false
  retireTwo := false
  branchValid := false
  branchFault := false

/-- One uop is pushed in a cycle. -/
def ExecIn.push (u : Uop) : ExecIn := { ExecIn.idle with uqPush := true, uqUop := u }

/-- The execution unit as a synchronous machine. -/
def execMachine : Machine Exec ExecIn where
  reset := Exec.IsReset
  step := Exec.step

end Rv32Core
