import Rv32Core.Lib.Clocked
import Rv32Core.Lib.RingBuffer
import Rv32Core.FindFirstSet
import Rv32Core.Decode

/-! # The core: registers, ports and combinational wires

`core` decodes fetched instructions into the decode queue, renames and allocates up to two of
them per cycle into the reorder buffer, retires up to two per cycle, and runs the state machine
that drains, restarts, serializes, flushes and halts the machine.  The outputs of the execution
unit instantiated inside `core` are inputs here (`CoreIn`); the two are wired together with
the caches later.

The wires of this module depend on the registers only. -/

namespace Rv32Core

open RingBuffer

/-- `state_t` of the core. -/
inductive CoreState where
  | flushForHalt | halt | active | drain | rat | allocForSerialize | monitorFlushCache
  | handleMonitor | allocForMonitor | waitForMonitor | haltWaitForRestart
  | waitForSerializeAndRestart | archFault | writeEpc | writeCause
deriving DecidableEq, Repr

/-- The registers of the core. -/
structure Core where
  rState : CoreState
  rPendingFault : Bool
  rGotRestartAck : Bool
  rFlushReqL1d : Bool
  rFlushReqL1i : Bool
  rFlushClReq : Bool
  rFlushClAddr : Word
  rRestartPc : Word
  rRestartSrcPc : Word
  rRestartSrcIsIndirect : Bool
  rRestartValid : Bool
  rBranchPc : Word
  rTookBranch : Bool
  rBranchValid : Bool
  rBranchFault : Bool
  rBranchPhtIdx : PhtIdx
  rGotBreak : Bool
  rPendingBreak : Bool
  rPendingBadva : Bool
  rPendingIi : Bool
  rGotUd : Bool
  rGotBadAddr : Bool
  rGotMonitor : Bool
  rReadyForResume : Bool
  rL1iFlushComplete : Bool
  rL1dFlushComplete : Bool
  rL2FlushComplete : Bool
  rEpc : Word
  rDsDone : Bool
  drainDsComplete : Bool
  rExternIrq : Bool
  retireRegPtr : ArchReg
  retireRegData : Word
  retireRegValid : Bool
  retireRegTwoPtr : ArchReg
  retireRegTwoData : Word
  retireRegTwoValid : Bool
  retireValid : Bool
  retireTwoValid : Bool
  retirePc : Word
  retireTwoPc : Word
  retiredCall : Bool
  retiredRet : Bool
  retiredRobPtrValid : Bool
  retiredRobPtrTwoValid : Bool
  retiredRobPtr : RobPtr
  retiredRobPtrTwo : RobPtr
  rRob : RobPtr → RobEntry
  rRobComplete : RobPtr → Bool
  rRobSdComplete : RobPtr → Bool
  rRobInflight : RobPtr → Bool
  rRobDeadInsns : RobPtr → Bool
  rRobHeadPtr : BitVec 6
  rRobTailPtr : BitVec 6
  rRobNextHeadPtr : BitVec 6
  rRobNextTailPtr : BitVec 6
  rBob : BitVec 2 → BobEntry
  rBobHeadPtr : BitVec 3
  rBobTailPtr : BitVec 3
  rAllocRat : ArchReg → PrfPtr
  rRetireRat : ArchReg → PrfPtr
  rPrfFree : PrfPtr → Bool
  rRetirePrfFree : PrfPtr → Bool
  rBankSel : Bool
  rDq : BitVec 2 → Uop
  rDqHeadPtr : BitVec 3
  rDqTailPtr : BitVec 3
  rDqNextHeadPtr : BitVec 3
  rDqNextTailPtr : BitVec 3

/-- What the ports of the core and the outputs of its execution unit carry in one cycle. -/
structure CoreIn where
  externIrq : Bool
  resume : Bool
  memqEmpty : Bool
  resumePc : Word
  l1dFlushComplete : Bool
  l1iFlushComplete : Bool
  l2FlushComplete : Bool
  insn : InsnFetch
  insnValid : Bool
  insnTwo : InsnFetch
  insnValidTwo : Bool
  restartAck : Bool
  coreMemRsp : MemRsp
  coreMemRspValid : Bool
  monitorAck : Bool
  tCompleteBundle1 : Complete
  tCompleteValid1 : Bool
  tCompleteBundle2 : Complete
  tCompleteValid2 : Bool
  tCoreStoreDataPtrValid : Bool
  tCoreStoreDataPtr : RobPtr
  tUqFull : Bool
  tUqNextFull : Bool
  uqWait : RobPtr → Bool
  mqWait : RobPtr → Bool
  tDivideReady : Bool

/-- A cycle in which nothing arrives. -/
def CoreIn.idle : CoreIn where
  externIrq := false
  resume := false
  memqEmpty := true
  resumePc := 0
  l1dFlushComplete := false
  l1iFlushComplete := false
  l2FlushComplete := false
  insn := ⟨0, 0, 0, false, 0⟩
  insnValid := false
  insnTwo := ⟨0, 0, 0, false, 0⟩
  insnValidTwo := false
  restartAck := false
  coreMemRsp := ⟨0, 0, 0, false, false, 0⟩
  coreMemRspValid := false
  monitorAck := false
  tCompleteBundle1 := ⟨0, false, false, 0, false, false, 0⟩
  tCompleteValid1 := false
  tCompleteBundle2 := ⟨0, false, false, 0, false, false, 0⟩
  tCompleteValid2 := false
  tCoreStoreDataPtrValid := false
  tCoreStoreDataPtr := 0
  tUqFull := false
  tUqNextFull := false
  uqWait _ := false
  mqWait _ := false
  tDivideReady := true

namespace Core

variable (s : Core)

/-! ### Queues -/

def tRobEmpty : Bool := s.rRobHeadPtr == s.rRobTailPtr
def tRobNextEmpty : Bool := s.rRobNextHeadPtr == s.rRobTailPtr
def tRobFull : Bool := isFull s.rRobHeadPtr s.rRobTailPtr
def tRobNextFull : Bool := isFull s.rRobHeadPtr s.rRobNextTailPtr

def tBobFull : Bool := isFull s.rBobHeadPtr s.rBobTailPtr

def tRobHead : RobEntry := s.rRob (idx s.rRobHeadPtr)
def tRobNextHead : RobEntry := s.rRob (idx s.rRobNextHeadPtr)

def tRobHeadComplete : Bool :=
  s.rRobSdComplete (idx s.rRobHeadPtr) && s.rRobComplete (idx s.rRobHeadPtr)

def tRobNextHeadComplete : Bool :=
  s.rRobSdComplete (idx s.rRobNextHeadPtr) && s.rRobComplete (idx s.rRobNextHeadPtr)

def tDqEmpty : Bool := s.rDqTailPtr == s.rDqHeadPtr
def tDqNextEmpty : Bool := s.rDqTailPtr == s.rDqNextHeadPtr
def tDqFull : Bool := isFull s.rDqHeadPtr s.rDqTailPtr
def tDqNextFull : Bool := isFull s.rDqHeadPtr s.rDqNextTailPtr

/-- The uop at the head of the decode queue. -/
def tUop : Uop := s.rDq (idx s.rDqHeadPtr)

/-- The uop behind it. -/
def tUop2 : Uop := s.rDq (idx s.rDqNextHeadPtr)

/-! ### The banked free list -/

/-- `w_prf_free_even`: the free registers with an even number. -/
def wPrfFreeEven (p : PrfPtr) : Bool := s.rPrfFree p && !p.getLsbD 0

/-- `w_prf_free_odd`. -/
def wPrfFreeOdd (p : PrfPtr) : Bool := s.rPrfFree p && p.getLsbD 0

def wPrfFreeEvenFull : Bool := isZero s.wPrfFreeEven
def wPrfFreeOddFull : Bool := isZero s.wPrfFreeOdd

def wGprFfsEven : BitVec 7 := findFirstSet 4 s.wPrfFreeEven
def wGprFfsOdd : BitVec 7 := findFirstSet 4 s.wPrfFreeOdd

def tGprFfs : BitVec 7 := if s.rBankSel then s.wGprFfsEven else s.wGprFfsOdd
def tGprFfs2 : BitVec 7 := if s.rBankSel then s.wGprFfsOdd else s.wGprFfsEven
def tGprFfsFull : Bool := if s.rBankSel then s.wPrfFreeEvenFull else s.wPrfFreeOddFull
def tGprFfs2Full : Bool := if s.rBankSel then s.wPrfFreeOddFull else s.wPrfFreeEvenFull

/-- The register offered to the first uop of a cycle. -/
def nPrfEntry : PrfPtr := s.tGprFfs.setWidth 6

/-- The register offered to the second uop, from the other bank. -/
def nPrfEntry2 : PrfPtr := s.tGprFfs2.setWidth 6

/-! ### Allocation conditions -/

def tEnoughIprfs : Bool := !(s.tUop.dstValid && s.tGprFfsFull)
def tEnoughNextIprfs : Bool := !(s.tUop2.dstValid && s.tGprFfs2Full)
def tEnoughBob : Bool := if s.tUop.isBr then !s.tBobFull else true

/-- Operations completed at allocation, without going through the execution unit. -/
def folds (op : Opcode) : Bool := op == .nop || op == .j || op == .ii

def tFoldUop : Bool := folds s.tUop.op
def tFoldUop2 : Bool := folds s.tUop2.op

def tCanRetireRobHead : Bool := s.tRobHeadComplete && !s.tRobEmpty

/-- The head entry faulted with an architectural fault rather than a mispredicted branch. -/
def tArchFault : Bool :=
  s.tRobHead.faulted && (s.tRobHead.isBreak || s.tRobHead.isIi || s.tRobHead.isBadAddr)

/-! ### Where a uop goes -/

/-- A uop that is sent off goes to one of the two uop queues. -/
def OneQueue (u : Uop) : Prop := folds u.op = false → u.isInt = !u.isMem

theorem oneQueue_decoded (f : InsnFetch) : OneQueue (decodeRiscv f) := by
  have h : ∀ k ∈ UopKind.decoded, folds k.op = false → k.isInt = !k.isMem := by decide
  exact h _ (decodeRiscv_kind f)

end Core
end Rv32Core
