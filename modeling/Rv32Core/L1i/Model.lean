import Rv32Core.Lib.Clocked
import Rv32Core.Lib.RingBuffer
import Rv32Core.Decode

/-! # The L1 instruction cache

`l1i` fetches: it looks up one line per cycle, predecodes what it finds and pushes up to four
instructions into the fetch queue, following its own predictions (a gshare table for
conditional branches, a return stack, a target buffer for indirect jumps) until the core
restarts it.  A lookup takes two cycles: the address is presented while the previous line is
used, so `r_pc` runs ahead of `r_cache_pc`, the address whose line is at the outputs of the
RAMs.

As in the data cache the `always_comb` block is a chain of partial assignments, modelled by
functions on the record of its outputs (`L1iCtl`), and the RAMs return the contents before the
write of the same cycle. -/

namespace Rv32Core

open RingBuffer

/-- `state_t` of the instruction cache. -/
inductive L1iState where
  | initialise | idle | active | injectReload | reloadTurnaround | flushCache | waitForNotFull
  | initPht
deriving DecidableEq, Repr

/-- The registers and RAMs of the instruction cache. -/
structure L1i where
  rState : L1iState
  rInitPhtIdx : PhtIdx
  rPc : Word
  rMissPc : Word
  rCachePc : Word
  rBtbPc : Word
  rRestartReq : Bool
  rRestartAck : Bool
  rReq : Bool
  rFlushReq : Bool
  rFlushComplete : Bool
  rResteerBubble : Bool
  rMemReqValid : Bool
  rMemReqAddr : Word
  rCacheIdx : SetIdx
  rCacheTag : Tag
  -- the fetch queue
  rFq : BitVec 3 → InsnFetch
  rFqHeadPtr : BitVec 4
  rFqNextHeadPtr : BitVec 4
  rFqTailPtr : BitVec 4
  rFqNextTailPtr : BitVec 4
  rFqNext3TailPtr : BitVec 4
  rFqNext4TailPtr : BitVec 4
  -- the predictors
  rSpecReturnStack : BitVec 2 → Word
  rArchReturnStack : BitVec 2 → Word
  rSpecRsTos : BitVec 2
  rArchRsTos : BitVec 2
  rSpecGblHist : BitVec 16
  rArchGblHist : BitVec 16
  rBtb : BitVec 7 → Word
  rBtbValid : BitVec 7 → Bool
  pht : PhtIdx → BitVec 2
  rPhtOut : BitVec 2
  rPhtUpdateOut : BitVec 2
  rPhtIdx : PhtIdx
  rPhtUpdateIdx : PhtIdx
  rPhtUpdate : Bool
  rTakeBr : Bool
  -- the lines and their registered outputs
  validArray : SetIdx → Bool
  tagArray : SetIdx → Tag
  insnArray : SetIdx → Line
  pdData : SetIdx → BitVec 16
  rValidOut : Bool
  rTagOut : Tag
  rArrayOut : Line
  rJumpOut : BitVec 16

/-- What the ports of the instruction cache carry in one cycle. -/
structure L1iIn where
  flushReq : Bool
  restartPc : Word
  restartSrcPc : Word
  restartSrcIsIndirect : Bool
  restartValid : Bool
  retireValid : Bool
  retiredCall : Bool
  retiredRet : Bool
  retireRegData : Word
  retireRegValid : Bool
  branchPcValid : Bool
  tookBranch : Bool
  branchPhtIdx : PhtIdx
  insnAck : Bool
  insnAckTwo : Bool
  memRspValid : Bool
  memRspLoadData : Line

/-! ### Words of a line -/

/-- `select_cl32`. -/
def selectCl32 (cl : Line) (pos : BitVec 2) : Word := cl.extractLsb' (32 * pos.toNat) 32

/-- `select_pd`. -/
def selectPd (cl : BitVec 16) (pos : BitVec 2) : BitVec 4 := cl.extractLsb' (4 * pos.toNat) 4

/-- `predecode`: 1 conditional branch, 2 return, 3 jump, 4 indirect jump, 5 call, 6 indirect
call, 0 anything else. -/
def predecode (insn : Word) : BitVec 4 :=
  let rd := insn.extractLsb' 7 5
  let rs1 := insn.extractLsb' 15 5
  if opcodeField insn = 0x63 then 1
  else if opcodeField insn = 0x67 then
    if rd = 0 then (if rs1 = 1 ∨ rs1 = 5 then 2 else 4) else 6
  else if opcodeField insn = 0x6f then
    if rd = 1 ∨ rd = 5 then 5 else 3
  else 0

/-- The predecoded classes of a line, `{w_pd3, w_pd2, w_pd1, w_pd0}`. -/
def predecodeLine (cl : Line) : BitVec 16 :=
  predecode (selectCl32 cl 3) ++ predecode (selectCl32 cl 2) ++ predecode (selectCl32 cl 1) ++
    predecode (selectCl32 cl 0)

/-- `compute_pht_idx`. -/
def computePhtIdx (pc : Word) (hist : BitVec 16) : PhtIdx := hist ^^^ pc.extractLsb' 2 16

/-- The entry of the target buffer for a pc, `pc[LG_BTB_SZ+1:2]`. -/
def btbIdx (pc : Word) : BitVec 7 := pc.extractLsb' 2 7

/-- The signals driven by the state machine. -/
structure L1iCtl where
  nState : L1iState
  nPc : Word
  nMissPc : Word
  nCachePc : Word
  nRestartAck : Bool
  nRestartReq : Bool
  nFlushReq : Bool
  nFlushComplete : Bool
  tCacheIdx : SetIdx
  tCacheTag : Tag
  nReq : Bool
  nMemReqValid : Bool
  nMemReqAddr : Word
  nResteerBubble : Bool
  tClearFq : Bool
  tPushInsn : Bool
  tPushInsn2 : Bool
  tPushInsn3 : Bool
  tPushInsn4 : Bool
  tTakeBr : Bool
  tIsCflow : Bool
  tUpdateSpecHist : Bool
  tIsCall : Bool
  tIsRet : Bool
  tInitPht : Bool
  nInitPhtIdx : PhtIdx

namespace L1i

variable (s : L1i) (i : L1iIn)

/-! ### The fetch queue -/

def fqEmpty : Bool := s.rFqHeadPtr == s.rFqTailPtr
def fqNextEmpty : Bool := s.rFqNextHeadPtr == s.rFqTailPtr
def fqFull : Bool := isFull s.rFqHeadPtr s.rFqTailPtr
def fqFull2 : Bool := isFull s.rFqHeadPtr s.rFqNextTailPtr || s.fqFull
def fqFull3 : Bool := isFull s.rFqHeadPtr s.rFqNext3TailPtr || s.fqFull2
def fqFull4 : Bool := isFull s.rFqHeadPtr s.rFqNext4TailPtr || s.fqFull3

/-- `insn`. -/
def insn : InsnFetch := s.rFq (idx s.rFqHeadPtr)

/-- `insn_two`. -/
def insnTwo : InsnFetch := s.rFq (idx s.rFqNextHeadPtr)

/-- `insn_valid`. -/
def insnValid : Bool := !s.fqEmpty

/-- `insn_valid_two`. -/
def insnValidTwo : Bool := !(s.fqNextEmpty || s.fqEmpty)

/-! ### The line at the outputs of the RAMs -/

def tHit : Bool := s.rReq && (s.rValidOut && s.rTagOut == s.rCacheTag)
def tMiss : Bool := s.rReq && !(s.rValidOut && s.rTagOut == s.rCacheTag)

/-- `t_insn_idx`: the word of the line that `r_cache_pc` addresses. -/
def tInsnIdx : BitVec 2 := s.rCachePc.extractLsb' 2 2

def tPd : BitVec 4 := selectPd s.rJumpOut s.tInsnIdx

def tInsnData : Word := selectCl32 s.rArrayOut s.tInsnIdx
def tInsnData2 : Word := selectCl32 s.rArrayOut (s.tInsnIdx + 1)
def tInsnData3 : Word := selectCl32 s.rArrayOut (s.tInsnIdx + 2)
def tInsnData4 : Word := selectCl32 s.rArrayOut (s.tInsnIdx + 3)

/-- A word of the line is a branch of some kind. -/
def isBranchAt (j : BitVec 2) : Bool := selectPd s.rJumpOut j != 0

/-- The branches of the line and a one behind its end, before the shift. -/
def branchBits : BitVec 5 :=
  1#1 ++ BitVec.ofBool (s.isBranchAt 3) ++ BitVec.ofBool (s.isBranchAt 2) ++
    BitVec.ofBool (s.isBranchAt 1) ++ BitVec.ofBool (s.isBranchAt 0)

/-- `t_spec_branch_marker`: the branches from `r_cache_pc` on; a branch at `r_cache_pc` itself
does not count when it is predicted not taken. -/
def tSpecBranchMarker : BitVec 5 :=
  (s.branchBits >>> s.tInsnIdx.toNat) &&&
    (0b1111#4 ++ BitVec.ofBool (!(s.tPd == 1 && !s.rPhtOut.getLsbD 1)))

/-- `t_first_branch`. -/
def tFirstBranch : BitVec 3 :=
  if s.tSpecBranchMarker.getLsbD 0 then 0
  else if s.tSpecBranchMarker.getLsbD 1 then 1
  else if s.tSpecBranchMarker.getLsbD 2 then 2
  else if s.tSpecBranchMarker.getLsbD 3 then 3
  else if s.tSpecBranchMarker.getLsbD 4 then 4
  else 7

/-- `t_jal_simm`. -/
def tJalSimm : Word := immJ s.tInsnData

/-- `t_br_simm`. -/
def tBrSimm : Word := immB s.tInsnData

/-- `t_next_spec_rs_tos`. -/
def tNextSpecRsTos : BitVec 2 := s.rSpecRsTos + 1

/-! ### The state machine -/

/-- A flush is asked for, now or earlier. -/
def anyFlushReq : Bool := s.rFlushReq || i.flushReq

/-- A restart is asked for, now or earlier. -/
def anyRestartReq : Bool := i.restartValid || s.rRestartReq

/-- The assignments before the `case`. -/
def dfltCtl : L1iCtl where
  nState := s.rState
  nPc := s.rPc
  nMissPc := s.rMissPc
  nCachePc := 0
  nRestartAck := false
  nRestartReq := s.anyRestartReq i
  nFlushReq := s.anyFlushReq i
  nFlushComplete := false
  tCacheIdx := 0
  tCacheTag := 0
  nReq := false
  nMemReqValid := false
  nMemReqAddr := s.rMemReqAddr
  nResteerBubble := false
  tClearFq := false
  tPushInsn := false
  tPushInsn2 := false
  tPushInsn3 := false
  tPushInsn4 := false
  tTakeBr := false
  tIsCflow := false
  tUpdateSpecHist := false
  tIsCall := false
  tIsRet := false
  tInitPht := false
  nInitPhtIdx := s.rInitPhtIdx

/-- A flush is accepted. -/
def flushCtl (c : L1iCtl) : L1iCtl :=
  { c with nFlushReq := false, tClearFq := true, nState := .flushCache, tCacheIdx := 0 }

/-- A restart is accepted and acknowledged. -/
def restartCtl (c : L1iCtl) : L1iCtl :=
  { c with
    nRestartAck := true
    nRestartReq := false
    nPc := i.restartPc
    nReq := false
    nState := .active
    tClearFq := true }

/-- The line is not there: ask for it. -/
def missCtl (c : L1iCtl) : L1iCtl :=
  { c with
    nState := .injectReload
    nMemReqAddr := lineOf s.rCachePc
    nMemReqValid := true
    nMissPc := s.rCachePc
    nPc := s.rPc }

/-- The prediction for the instruction at `r_cache_pc`. -/
def predictCtl (c : L1iCtl) : L1iCtl :=
  if s.tPd = 5 ∨ s.tPd = 3 then
    { c with
      tIsCflow := true
      tTakeBr := true
      tIsCall := s.tPd == 5
      nPc := s.rCachePc + s.tJalSimm }
  else if s.tPd = 1 ∧ s.rPhtOut.getLsbD 1 = true then
    { c with tIsCflow := true, tTakeBr := true, nPc := s.rCachePc + s.tBrSimm }
  else if s.tPd = 2 then
    { c with
      tIsCflow := true
      tIsRet := true
      tTakeBr := true
      nPc := s.rSpecReturnStack s.tNextSpecRsTos }
  else if s.tPd = 4 ∨ s.tPd = 6 then
    { c with tIsCflow := true, tTakeBr := true, tIsCall := s.tPd == 6, nPc := s.rBtbPc }
  else c

/-- How many instructions are pushed when the first is not a taken branch. -/
def pushCtl (c : L1iCtl) : L1iCtl :=
  if s.tFirstBranch = 4 ∧ s.fqFull4 = false then
    { c with
      tPushInsn4 := true
      tCacheIdx := s.rCacheIdx + 1
      nCachePc := s.rCachePc + 16
      tCacheTag := tagOf (s.rCachePc + 16)
      nPc := s.rCachePc + 20 }
  else if s.tFirstBranch = 3 ∧ s.fqFull3 = false then
    { c with
      tPushInsn3 := true
      nCachePc := s.rCachePc + 12
      nPc := s.rCachePc + 16
      tCacheTag := tagOf (s.rCachePc + 12)
      tCacheIdx := if s.tInsnIdx ≠ 0 then s.rCacheIdx + 1 else c.tCacheIdx }
  else if s.tFirstBranch = 2 ∧ s.fqFull2 = false then
    { c with
      tPushInsn2 := true
      nCachePc := s.rCachePc + 8
      tCacheTag := tagOf (s.rCachePc + 8)
      nPc := s.rCachePc + 12
      tCacheIdx := if s.tInsnIdx = 2 then s.rCacheIdx + 1 else c.tCacheIdx }
  else { c with tPushInsn := true }

/-- The line is there and the queue has room. -/
def fetchCtl (c : L1iCtl) : L1iCtl :=
  let c := s.predictCtl { c with tUpdateSpecHist := s.tPd != 0 }
  let c := { c with nResteerBubble := c.tIsCflow }
  if c.tIsCflow then { c with tPushInsn := true } else s.pushCtl c

/-- The line is there but the queue is full. -/
def stallCtl (c : L1iCtl) : L1iCtl :=
  { c with nPc := s.rPc, nMissPc := s.rCachePc, nState := .waitForNotFull }

/-- ACTIVE looks up `r_pc` unless a branch below says otherwise. -/
def lookupCtl : L1iCtl :=
  { s.dfltCtl i with
    tCacheIdx := setOf s.rPc
    tCacheTag := tagOf s.rPc
    nCachePc := s.rPc
    nReq := true
    nPc := s.rPc + 4 }

def activeCtl : L1iCtl :=
  let c := s.lookupCtl i
  if s.rResteerBubble then c
  else if s.anyFlushReq i then flushCtl c
  else if s.anyRestartReq i then restartCtl i c
  else if s.tMiss then s.missCtl c
  else if s.tHit && !s.fqFull then s.fetchCtl c
  else if s.tHit && s.fqFull then s.stallCtl c
  else c

def idleCtl : L1iCtl :=
  if s.anyRestartReq i then restartCtl i (s.dfltCtl i) else s.dfltCtl i

def initPhtCtl : L1iCtl :=
  { s.dfltCtl i with
    tInitPht := true
    nInitPhtIdx := s.rInitPhtIdx + 1
    nState := if s.rInitPhtIdx = 0xffff then .flushCache else s.rState }

def injectReloadCtl : L1iCtl :=
  { s.dfltCtl i with nState := if i.memRspValid then .reloadTurnaround else s.rState }

/-- The lookup of `r_miss_pc`. -/
def missLookupCtl : L1iCtl :=
  { s.dfltCtl i with tCacheIdx := setOf s.rMissPc, tCacheTag := tagOf s.rMissPc }

def reloadTurnaroundCtl : L1iCtl :=
  let c := s.missLookupCtl i
  if s.anyFlushReq i then flushCtl c
  else if s.anyRestartReq i then restartCtl i c
  else if !s.fqFull then { c with nCachePc := s.rMissPc, nReq := true, nState := .active }
  else c

def flushCacheCtl : L1iCtl :=
  { s.dfltCtl i with
    nFlushComplete := s.rCacheIdx == 4095
    nState := if s.rCacheIdx = 4095 then .idle else s.rState
    tCacheIdx := s.rCacheIdx + 1 }

def waitForNotFullCtl : L1iCtl :=
  let c := { s.missLookupCtl i with nCachePc := s.rMissPc }
  if !s.fqFull then { c with nReq := true, nState := .active }
  else if s.anyFlushReq i then flushCtl c
  else if s.anyRestartReq i then restartCtl i c
  else c

/-- The state machine. -/
def ctl : L1iCtl :=
  match s.rState with
  | .initialise => { s.dfltCtl i with nState := .initPht }
  | .initPht => s.initPhtCtl i
  | .idle => s.idleCtl i
  | .active => s.activeCtl i
  | .injectReload => s.injectReloadCtl i
  | .reloadTurnaround => s.reloadTurnaroundCtl i
  | .flushCache => s.flushCacheCtl i
  | .waitForNotFull => s.waitForNotFullCtl i

/-! ### Pushes -/

/-- `t_insn`: the only entry with a prediction. -/
def tInsn : InsnFetch where
  data := s.tInsnData
  pc := s.rCachePc
  predTarget := (s.ctl i).nPc
  pred := (s.ctl i).tTakeBr
  phtIdx := s.rPhtIdx

def tInsn2 : InsnFetch := ⟨s.tInsnData2, s.rCachePc + 4, 0, false, 0⟩
def tInsn3 : InsnFetch := ⟨s.tInsnData3, s.rCachePc + 8, 0, false, 0⟩
def tInsn4 : InsnFetch := ⟨s.tInsnData4, s.rCachePc + 12, 0, false, 0⟩

/-- A tail pointer after the pushes of the cycle. -/
def bumpFqTail (p : BitVec 4) : BitVec 4 :=
  let c := s.ctl i
  if c.tPushInsn4 then p + 4
  else if c.tPushInsn3 then p + 3
  else if c.tPushInsn2 then p + 2
  else if c.tPushInsn then p + 1
  else p

/-- A head pointer after the pops of the cycle. -/
def bumpFqHead (p : BitVec 4) : BitVec 4 :=
  if i.insnAck && !i.insnAckTwo then p + 1 else if i.insnAck && i.insnAckTwo then p + 2 else p

def nFq : BitVec 3 → InsnFetch :=
  let c := s.ctl i
  if c.tPushInsn then s.rFq |> writeIf true (idx s.rFqTailPtr) (s.tInsn i)
  else if c.tPushInsn2 then
    s.rFq
      |> writeIf true (idx s.rFqTailPtr) (s.tInsn i)
      |> writeIf true (idx s.rFqNextTailPtr) s.tInsn2
  else if c.tPushInsn3 then
    s.rFq
      |> writeIf true (idx s.rFqTailPtr) (s.tInsn i)
      |> writeIf true (idx s.rFqNextTailPtr) s.tInsn2
      |> writeIf true (idx s.rFqNext3TailPtr) s.tInsn3
  else if c.tPushInsn4 then
    s.rFq
      |> writeIf true (idx s.rFqTailPtr) (s.tInsn i)
      |> writeIf true (idx s.rFqNextTailPtr) s.tInsn2
      |> writeIf true (idx s.rFqNext3TailPtr) s.tInsn3
      |> writeIf true (idx s.rFqNext4TailPtr) s.tInsn4
  else s.rFq

/-! ### The predictors -/

def nSpecRsTos : BitVec 2 :=
  let c := s.ctl i
  if c.nRestartAck then s.rArchRsTos
  else if c.tIsCall then s.rSpecRsTos - 1
  else if c.tIsRet then s.rSpecRsTos + 1
  else s.rSpecRsTos

def nSpecReturnStack : BitVec 2 → Word :=
  let c := s.ctl i
  if c.tIsCall then s.rSpecReturnStack |> writeIf true s.rSpecRsTos (s.rCachePc + 4)
  else if c.nRestartAck then s.rArchReturnStack
  else s.rSpecReturnStack

def nArchRsTos : BitVec 2 :=
  if i.retireValid && i.retiredCall then s.rArchRsTos - 1
  else if i.retireValid && i.retiredRet then s.rArchRsTos + 1
  else s.rArchRsTos

def nArchReturnStack : BitVec 2 → Word :=
  s.rArchReturnStack
    |> writeIf (i.retireRegValid && i.retireValid && i.retiredCall) s.rArchRsTos i.retireRegData

def nArchGblHist : BitVec 16 :=
  if i.branchPcValid then s.rArchGblHist.extractLsb' 0 15 ++ BitVec.ofBool i.tookBranch
  else s.rArchGblHist

def nSpecGblHist : BitVec 16 :=
  let c := s.ctl i
  if c.nRestartAck then s.nArchGblHist i
  else if c.tUpdateSpecHist then s.rSpecGblHist.extractLsb' 0 15 ++ BitVec.ofBool c.tTakeBr
  else s.rSpecGblHist

/-- `t_pht_val` and `t_do_pht_wr`: the new counter and whether it is written. -/
def phtVal : BitVec 2 × Bool :=
  if s.rPhtUpdateOut = 0 then
    if s.rTakeBr then (1, s.rPhtUpdate) else (s.rPhtUpdateOut, false)
  else if s.rPhtUpdateOut = 1 then (if s.rTakeBr then 2 else 0, s.rPhtUpdate)
  else if s.rPhtUpdateOut = 2 then (if s.rTakeBr then 3 else 1, s.rPhtUpdate)
  else if !s.rTakeBr then (2, s.rPhtUpdate) else (s.rPhtUpdateOut, false)

/-- `n_pht_idx`. -/
def nPhtIdx : PhtIdx := computePhtIdx (s.ctl i).nCachePc s.rSpecGblHist

def nPht : PhtIdx → BitVec 2 :=
  let c := s.ctl i
  s.pht
    |> writeIf (c.tInitPht || s.phtVal.2) (if c.tInitPht then s.rInitPhtIdx else s.rPhtUpdateIdx)
        (if c.tInitPht then 1 else s.phtVal.1)

def nBtbPc : Word :=
  if s.rBtbValid (btbIdx (s.ctl i).nCachePc) then s.rBtb (btbIdx (s.ctl i).nCachePc) else 0

/-! ### The lines -/

/-- `t_wr_valid_ram_en`, `t_valid_ram_idx` and `t_valid_ram_value` at work: FLUSH_CACHE clears
set after set, an arriving line marks its set valid. -/
def nValidArray : SetIdx → Bool :=
  s.validArray
    |> writeIf (i.memRspValid || decide (s.rState = .flushCache))
        (if i.memRspValid then setOf s.rMemReqAddr else s.rCacheIdx)
        (decide (s.rState ≠ .flushCache))

def nTagArray : SetIdx → Tag :=
  s.tagArray |> writeIf i.memRspValid (setOf s.rMemReqAddr) (tagOf s.rMemReqAddr)

def nInsnArray : SetIdx → Line :=
  s.insnArray |> writeIf i.memRspValid (setOf s.rMemReqAddr) i.memRspLoadData

def nPdData : SetIdx → BitVec 16 :=
  s.pdData |> writeIf i.memRspValid (setOf s.rMemReqAddr) (predecodeLine i.memRspLoadData)

/-! ### The clock edge -/

/-- One rising clock edge. -/
def step : L1i :=
  let c := s.ctl i
  { rState := c.nState
    rInitPhtIdx := c.nInitPhtIdx
    rPc := c.nPc
    rMissPc := c.nMissPc
    rCachePc := c.nCachePc
    rBtbPc := s.nBtbPc i
    rRestartReq := c.nRestartReq
    rRestartAck := c.nRestartAck
    rReq := c.nReq
    rFlushReq := c.nFlushReq
    rFlushComplete := c.nFlushComplete
    rResteerBubble := c.nResteerBubble
    rMemReqValid := c.nMemReqValid
    rMemReqAddr := c.nMemReqAddr
    rCacheIdx := c.tCacheIdx
    rCacheTag := c.tCacheTag
    rFq := s.nFq i
    rFqHeadPtr := if c.tClearFq then 0 else bumpFqHead i s.rFqHeadPtr
    rFqNextHeadPtr := if c.tClearFq then 1 else bumpFqHead i s.rFqNextHeadPtr
    rFqTailPtr := if c.tClearFq then 0 else s.bumpFqTail i s.rFqTailPtr
    rFqNextTailPtr := if c.tClearFq then 1 else s.bumpFqTail i s.rFqNextTailPtr
    rFqNext3TailPtr := if c.tClearFq then 2 else s.bumpFqTail i s.rFqNext3TailPtr
    rFqNext4TailPtr := if c.tClearFq then 3 else s.bumpFqTail i s.rFqNext4TailPtr
    rSpecReturnStack := s.nSpecReturnStack i
    rArchReturnStack := s.nArchReturnStack i
    rSpecRsTos := s.nSpecRsTos i
    rArchRsTos := s.nArchRsTos i
    rSpecGblHist := s.nSpecGblHist i
    rArchGblHist := s.nArchGblHist i
    rBtb := s.rBtb |> writeIf (i.restartValid && i.restartSrcIsIndirect) (btbIdx i.restartSrcPc)
      i.restartPc
    rBtbValid := s.rBtbValid |> writeIf (i.restartValid && i.restartSrcIsIndirect)
      (btbIdx i.restartSrcPc) true
    pht := s.nPht i
    rPhtOut := s.pht (s.nPhtIdx i)
    rPhtUpdateOut := s.pht i.branchPhtIdx
    rPhtIdx := s.nPhtIdx i
    rPhtUpdateIdx := i.branchPhtIdx
    rPhtUpdate := i.branchPcValid
    rTakeBr := i.tookBranch
    validArray := s.nValidArray i
    tagArray := s.nTagArray i
    insnArray := s.nInsnArray i
    pdData := s.nPdData i
    rValidOut := s.validArray c.tCacheIdx
    rTagOut := s.tagArray c.tCacheIdx
    rArrayOut := s.insnArray c.tCacheIdx
    rJumpOut := s.pdData c.tCacheIdx }

end L1i

/-! ### Reset -/

/-- Power-up contents of the memories and registers that reset leaves alone. -/
structure L1iPowerUp where
  fq : BitVec 3 → InsnFetch
  specReturnStack : BitVec 2 → Word
  archReturnStack : BitVec 2 → Word
  btb : BitVec 7 → Word
  pht : PhtIdx → BitVec 2
  phtOut : BitVec 2
  phtUpdateOut : BitVec 2
  validArray : SetIdx → Bool
  tagArray : SetIdx → Tag
  insnArray : SetIdx → Line
  pdData : SetIdx → BitVec 16
  validOut : Bool
  tagOut : Tag
  arrayOut : Line
  jumpOut : BitVec 16

/-- The state after reset. -/
def L1i.init (p : L1iPowerUp) : L1i where
  rState := .initialise
  rInitPhtIdx := 0
  rPc := 0
  rMissPc := 0
  rCachePc := 0
  rBtbPc := 0
  rRestartReq := false
  rRestartAck := false
  rReq := false
  rFlushReq := false
  rFlushComplete := false
  rResteerBubble := false
  rMemReqValid := false
  rMemReqAddr := 0
  rCacheIdx := 0
  rCacheTag := 0
  rFq := p.fq
  rFqHeadPtr := 0
  rFqNextHeadPtr := 1
  rFqTailPtr := 0
  rFqNextTailPtr := 1
  rFqNext3TailPtr := 1
  rFqNext4TailPtr := 1
  rSpecReturnStack := p.specReturnStack
  rArchReturnStack := p.archReturnStack
  rSpecRsTos := 3
  rArchRsTos := 3
  rSpecGblHist := 0
  rArchGblHist := 0
  rBtb := p.btb
  rBtbValid _ := false
  pht := p.pht
  rPhtOut := p.phtOut
  rPhtUpdateOut := p.phtUpdateOut
  rPhtIdx := 0
  rPhtUpdateIdx := 0
  rPhtUpdate := false
  rTakeBr := false
  validArray := p.validArray
  tagArray := p.tagArray
  insnArray := p.insnArray
  pdData := p.pdData
  rValidOut := p.validOut
  rTagOut := p.tagOut
  rArrayOut := p.arrayOut
  rJumpOut := p.jumpOut

/-- The instruction cache as a synchronous machine. -/
def l1iMachine : Clocked.Machine L1i L1iIn where
  reset s := ∃ p, s = L1i.init p
  step := L1i.step

/-! ### Start-up

After reset INIT_PHT sets the 65536 counters of the history table and FLUSH_CACHE clears the
4096 valid bits.  From memories that already hold these values the walk ends in a state that
can be written down (`L1i.ready`); concrete runs start there. -/

/-- A cycle in which nothing arrives. -/
def L1iIn.idle : L1iIn where
  flushReq := false
  restartPc := 0
  restartSrcPc := 0
  restartSrcIsIndirect := false
  restartValid := false
  retireValid := false
  retiredCall := false
  retiredRet := false
  retireRegData := 0
  retireRegValid := false
  branchPcValid := false
  tookBranch := false
  branchPhtIdx := 0
  insnAck := false
  insnAckTwo := false
  memRspValid := false
  memRspLoadData := 0

/-- Memories that already hold what start-up writes. -/
def L1iPowerUp.cleared : L1iPowerUp where
  fq _ := ⟨0, 0, 0, false, 0⟩
  specReturnStack _ := 0
  archReturnStack _ := 0
  btb _ := 0
  pht _ := 1
  phtOut := 1
  phtUpdateOut := 1
  validArray _ := false
  tagArray _ := 0
  insnArray _ := 0
  pdData _ := 0
  validOut := false
  tagOut := 0
  arrayOut := 0
  jumpOut := 0

namespace L1i

/-- INIT_PHT at entry `k`. -/
def initPhtAt (k : PhtIdx) : L1i :=
  { init L1iPowerUp.cleared with rState := .initPht, rInitPhtIdx := k }

/-- FLUSH_CACHE at set `j`. -/
def flushAt (j : SetIdx) : L1i :=
  { init L1iPowerUp.cleared with rState := .flushCache, rCacheIdx := j }

/-- The first state in IDLE. -/
def ready : L1i := { init L1iPowerUp.cleared with rState := .idle, rFlushComplete := true }

theorem step_initial : (init L1iPowerUp.cleared).step L1iIn.idle = initPhtAt 0 := by
  rfl

theorem step_initPht {k : PhtIdx} (h : k ≠ 0xffff) :
    (initPhtAt k).step L1iIn.idle = initPhtAt (k + 1) := by
  have hc : (initPhtAt k).ctl L1iIn.idle =
      { (initPhtAt k).dfltCtl L1iIn.idle with tInitPht := true, nInitPhtIdx := k + 1 } := by
    show initPhtCtl _ _ = _
    rw [initPhtCtl, if_neg (show ¬(initPhtAt k).rInitPhtIdx = 0xffff from h)]
    rfl
  have hp : (initPhtAt k).nPht L1iIn.idle = fun _ => 1 := writeIf_const _ _ _
  have hx : (initPhtAt k).nPhtIdx L1iIn.idle = 0 := by
    rw [nPhtIdx, hc]
    show computePhtIdx 0 0 = 0
    decide
  simp only [step, nBtbPc, nFq, bumpFqTail, nSpecReturnStack, nSpecRsTos, nSpecGblHist, hc, hp, hx]
  rfl

theorem step_initPht_last : (initPhtAt 0xffff).step L1iIn.idle = flushAt 0 := by
  have hp : (initPhtAt 0xffff).nPht L1iIn.idle = fun _ => 1 := writeIf_const _ _ _
  rw [step, hp]
  rfl

theorem step_flush {j : SetIdx} (h : j ≠ 4095) :
    (flushAt j).step L1iIn.idle = flushAt (j + 1) := by
  have hc : (flushAt j).ctl L1iIn.idle =
      { (flushAt j).dfltCtl L1iIn.idle with tCacheIdx := j + 1 } := by
    show flushCacheCtl _ _ = _
    rw [flushCacheCtl, if_neg (show ¬(flushAt j).rCacheIdx = 4095 from h),
      beq_eq_false_iff_ne.mpr (show (flushAt j).rCacheIdx ≠ 4095 from h)]
    rfl
  have hv : (flushAt j).nValidArray L1iIn.idle = fun _ => false := writeIf_const _ _ _
  have hx : (flushAt j).nPhtIdx L1iIn.idle = 0 := by
    rw [nPhtIdx, hc]
    show computePhtIdx 0 0 = 0
    decide
  simp only [step, nBtbPc, nFq, bumpFqTail, nSpecReturnStack, nSpecRsTos, nSpecGblHist, nPht, hc,
    hv, hx]
  rfl

theorem step_flush_last : (flushAt 4095).step L1iIn.idle = ready := by
  have hv : (flushAt 4095).nValidArray L1iIn.idle = fun _ => false := writeIf_const _ _ _
  rw [step, hv]
  rfl

theorem initPht_next {k : ℕ} (hk : k + 1 ≤ 65535) :
    (initPhtAt (BitVec.ofNat 16 k)).step L1iIn.idle = initPhtAt (BitVec.ofNat 16 (k + 1)) := by
  have hne : BitVec.ofNat 16 k ≠ 0xffff := fun h => by
    have h' : k % 65536 = 65535 := congrArg BitVec.toNat h
    omega
  rw [step_initPht hne, BitVec.ofNat_add k 1]
  rfl

theorem flush_next {k : ℕ} (hk : k + 1 ≤ 4095) :
    (flushAt (BitVec.ofNat 12 k)).step L1iIn.idle = flushAt (BitVec.ofNat 12 (k + 1)) := by
  have hne : BitVec.ofNat 12 k ≠ 4095 := fun h => by
    have h' : k % 4096 = 4095 := congrArg BitVec.toNat h
    omega
  rw [step_flush hne, BitVec.ofNat_add k 1]
  rfl

/-- The states of start-up before `ready`. -/
inductive Starting : L1i → Prop
  | initial : Starting (init L1iPowerUp.cleared)
  | initPht (k : PhtIdx) : Starting (initPhtAt k)
  | flush (j : SetIdx) : Starting (flushAt j)

/-- **Start-up ends in `ready`** after 69633 cycles, in any machine that holds the instruction
cache: `P n s` is its state in the `n`-th cycle when the instruction cache is in state `s`. -/
theorem reach_ready {σ ι : Type*} {M : Clocked.Machine σ ι} {env : σ → ι → Prop}
    (P : ℕ → L1i → σ) (i : ι) (h0 : M.Reach env (P 0 (init L1iPowerUp.cleared)))
    (hs : ∀ n s, Starting s → env (P n s) i ∧ M.step (P n s) i = P (n + 1) (s.step L1iIn.idle)) :
    M.Reach env (P 69633 ready) := by
  have hstep : ∀ {n s}, Starting s → M.Reach env (P n s) →
      M.Reach env (P (n + 1) (s.step L1iIn.idle)) := fun hst hr => by
    obtain ⟨he, heq⟩ := hs _ _ hst
    exact heq ▸ hr.step he
  have hpht : ∀ k ≤ 65535, M.Reach env (P (k + 1) (initPhtAt (BitVec.ofNat 16 k))) := fun k hk => by
    induction k with
    | zero => exact step_initial ▸ hstep .initial h0
    | succ k ih => exact initPht_next hk ▸ hstep (.initPht _) (ih (by omega))
  have hflush : ∀ k ≤ 4095, M.Reach env (P (k + 65537) (flushAt (BitVec.ofNat 12 k))) := fun k hk => by
    induction k with
    | zero => exact step_initPht_last ▸ hstep (.initPht _) (hpht 65535 (le_refl _))
    | succ k ih =>
        rw [Nat.add_right_comm]
        exact flush_next hk ▸ hstep (.flush _) (ih (by omega))
  exact step_flush_last ▸ hstep (.flush _) (hflush 4095 (le_refl _))

end L1i

end Rv32Core
