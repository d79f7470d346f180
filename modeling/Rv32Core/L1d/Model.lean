import Rv32Core.Lib.Clocked
import Rv32Core.Lib.RingBuffer
import Rv32Core.Machine

/-! # The L1 data cache

`l1d` is a direct-mapped, write-back, write-allocate cache of 4096 lines of 16 bytes with two
read ports.  A new request is looked up on port 2; stores and the loads that cannot be answered
there wait in the miss queue `r_mem_q` and are retried on port 1, stores only after they have
retired and their data has arrived.

The `always_comb` block is a chain of partial assignments in which a later one overrides an
earlier one.  It is modelled the same way: each part of the block is a function on the record
of its outputs (`L1dCtl`), and ACTIVE is the composition of its parts in the order of the
source.  The reads of the four RAMs are registered and return the contents before the write
of the same cycle. -/

namespace Rv32Core

open RingBuffer

/-- The bit offset `{addr[3:0], 3'd0}` of a byte in its line. -/
def bitOffset (addr : Word) : ℕ := 8 * (addr.extractLsb' 0 4).toNat

/-! ### Byte lanes -/

/-- The value a load reads from a line shifted to its address, `t_rsp_data`. -/
def loadValue (op : MemOp) (shifted : Line) : BitVec 64 :=
  match op with
  | .lb => (shifted.setWidth 8).signExtend 64
  | .lbu => (shifted.setWidth 8).setWidth 64
  | .lh => (shifted.setWidth 16).signExtend 64
  | .lhu => (shifted.setWidth 16).setWidth 64
  | .lw => (shifted.setWidth 32).signExtend 64
  | _ => 0

/-- The operations for which `t_rsp_dst_valid` can be raised. -/
def isLoadOp : MemOp → Bool
  | .lb | .lbu | .lh | .lhu | .lw => true
  | _ => false

/-- The operations for which `t_wr_array` can be raised. -/
def isStoreOp : MemOp → Bool
  | .sb | .sh | .sw | .sc => true
  | _ => false

/-- `w_store_mask`. -/
def wStoreMask : MemOp → Word
  | .sb => 0xff
  | .sh => 0xffff
  | .sw => 0xffffffff
  | _ => 0

/-- `t_store_mask`: the bits of the line a store covers. -/
def storeMask (op : MemOp) (addr : Word) : Line := (wStoreMask op).setWidth 128 <<< bitOffset addr

/-- `t_store_shift`: the store data moved to its address. -/
def storeShift (data addr : Word) : Line := data.setWidth 128 <<< bitOffset addr

/-- `t_array_data`: the line after the store. -/
def mergeLine (op : MemOp) (data addr : Word) (line : Line) : Line :=
  (storeShift data addr &&& storeMask op addr) ||| (~~~storeMask op addr &&& line)

/-- The bits enabled by a vector of 16 byte enables. -/
def byteMask (en : ℕ → Bool) : Line :=
  (List.range 16).foldl (fun m j => if en j then m ||| (0xff#128 <<< (8 * j)) else m) 0

/-- A write with byte enables. -/
def writeBytes (en : ℕ → Bool) (data old : Line) : Line :=
  (data &&& byteMask en) ||| (~~~byteMask en &&& old)

/-! ### Registers and ports -/

/-- `state_t` of the data cache. -/
inductive L1dState where
  | initialise | initCache | active | injectReload | waitInjectReload | flushCache
  | flushCacheWait | flushCacheLastWait | flushCl | flushClWait | handleReload
deriving DecidableEq, Repr

/-- The registers and RAMs of the data cache. -/
structure L1d where
  rState : L1dState
  rFlushReq : Bool
  rFlushClReq : Bool
  rFlushComplete : Bool
  memqEmpty : Bool
  rNInflight : BitVec 4
  rGraduated : RobPtr → BitVec 2
  rRobInflight : RobPtr → Bool
  -- port 1
  rGotReq : Bool
  rReq : MemReq
  rLastWr : Bool
  rIsRetry : Bool
  rDidReload : Bool
  rLockCache : Bool
  rInhibitWrite : Bool
  rAckLdEarly : Bool
  rMustForward : Bool
  rCacheIdx : SetIdx
  rCacheTag : Tag
  rrCacheIdx : SetIdx
  rrLastWr : Bool
  rHitBusyAddr : Bool
  rTagOut : Tag
  rValidOut : Bool
  rDirtyOut : Bool
  rArrayOut : Line
  -- port 2
  rGotReq2 : Bool
  rReq2 : MemReq
  rLastWr2 : Bool
  rMustForward2 : Bool
  rCacheIdx2 : SetIdx
  rCacheTag2 : Tag
  rHitBusyAddr2 : Bool
  rHitBusyWordAddr2 : Bool
  rAnyUnaligned : Bool
  rTagOut2 : Tag
  rValidOut2 : Bool
  rArrayOut2 : Line
  -- the line written by the last store
  rArrayWrData : Line
  -- miss queue
  rMemQ : BitVec 3 → MemReq
  rMqHeadPtr : BitVec 4
  rMqTailPtr : BitVec 4
  rMqAddrValid : BitVec 3 → Bool
  -- request to the next level
  rMemReqValid : Bool
  rMemReqAddr : Word
  rMemReqStoreData : Line
  rMemReqOpcode : MemOp
  -- RAMs
  dcTag : SetIdx → Tag
  dcData : SetIdx → Line
  dcDirty : SetIdx → Bool
  dcValid : SetIdx → Bool

/-- The input ports of the data cache. -/
structure L1dIn where
  retiredRobPtrValid : Bool
  retiredRobPtrTwoValid : Bool
  retiredRobPtr : RobPtr
  retiredRobPtrTwo : RobPtr
  drainDsComplete : Bool
  deadRobMask : RobPtr → Bool
  flushReq : Bool
  flushClReq : Bool
  flushClAddr : Word
  coreMemReqValid : Bool
  coreMemReq : MemReq
  coreStoreDataValid : Bool
  coreStoreData : MemData
  memRspValid : Bool
  memRspLoadData : Line

/-- The signals assigned by the state machine. -/
structure L1dCtl where
  nState : L1dState
  tAckLdEarly : Bool
  tGotRdRetry : Bool
  tCacheIdx : SetIdx
  tCacheTag : Tag
  tCacheIdx2 : SetIdx
  tCacheTag2 : Tag
  tGotReq : Bool
  tGotReq2 : Bool
  nLastWr : Bool
  nLastWr2 : Bool
  tGotMiss : Bool
  tPushMiss : Bool
  tPopMq : Bool
  nReq : MemReq
  nReq2 : MemReq
  coreMemReqAck : Bool
  coreStoreDataAck : Bool
  nMemReqValid : Bool
  nMemReqAddr : Word
  nMemReqStoreData : Line
  nMemReqOpcode : MemOp
  nCoreMemRspValid : Bool
  nCoreMemRsp : MemRsp
  nFlushReq : Bool
  nFlushClReq : Bool
  nFlushComplete : Bool
  nInhibitWrite : Bool
  tMarkInvalid : Bool
  nIsRetry : Bool
  tResetGraduated : Bool
  tForceClearBusy : Bool
  tIncrBusy : Bool
  nDidReload : Bool
  nLockCache : Bool

namespace L1d

variable (s : L1d) (i : L1dIn)

/-! ### Wires -/

def tMemHead : MemReq := s.rMemQ (idx s.rMqHeadPtr)
def memQEmpty : Bool := s.rMqHeadPtr == s.rMqTailPtr
def memQFull : Bool := isFull s.rMqHeadPtr s.rMqTailPtr
def memQAlmostFull : Bool := isFull s.rMqHeadPtr (s.rMqTailPtr + 1)

/-- The line read on port 2 hits. -/
def tPort2HitCache : Bool := s.rValidOut2 && s.rTagOut2 == s.rCacheTag2

/-- The line read on port 1 hits. -/
def hitLine : Bool := s.rValidOut && s.rTagOut == s.rCacheTag

/-- The line read on port 1 is another, dirty line. -/
def dirtyMiss : Bool := s.rValidOut && s.rDirtyOut && s.rTagOut != s.rCacheTag

def tHitCache : Bool :=
  s.rValidOut && s.rTagOut == s.rCacheTag && s.rGotReq &&
    (decide (s.rState = .active) || decide (s.rState = .injectReload))

def tHitCache2 : Bool :=
  s.rValidOut2 && s.rTagOut2 == s.rCacheTag2 && s.rGotReq2 && decide (s.rState = .active)

/-- The line port 2 answers from: the one just written by port 1 when it must be forwarded. -/
def tData2 : Line := if s.rGotReq2 && s.rMustForward2 then s.rArrayWrData else s.rArrayOut2

def tRspData2 : BitVec 64 := loadValue s.rReq2.op (s.tData2 >>> bitOffset s.rReq2.addr)
def tRspDstValid2 : Bool := isLoadOp s.rReq2.op && (s.rReq2.dstValid && s.tHitCache2)

/-- The line port 1 works on. -/
def tData : Line :=
  if i.memRspValid then i.memRspLoadData
  else if s.rGotReq && s.rMustForward then s.rArrayWrData
  else s.rArrayOut

def tRspData : BitVec 64 :=
  if s.rReq.op = .sc then 1 else loadValue s.rReq.op (s.tData i >>> bitOffset s.rReq.addr)

def tRspDstValid : Bool :=
  (isLoadOp s.rReq.op || s.rReq.op == .sc) && (s.rReq.dstValid && s.tHitCache)

def tArrayData : Line :=
  if isStoreOp s.rReq.op then mergeLine s.rReq.op s.rReq.data s.rReq.addr (s.tData i) else 0

def tWrArray : Bool :=
  isStoreOp s.rReq.op && (s.tHitCache && (s.rIsRetry || s.rDidReload))

def tMhBlock : Bool := s.rGotReq && s.rLastWr && s.rCacheIdx == setOf s.tMemHead.addr

def tCmBlock : Bool :=
  s.rGotReq && s.rLastWr && s.rCacheIdx == setOf i.coreMemReq.addr &&
    s.rCacheTag == tagOf i.coreMemReq.addr

def tCmBlockStall : Bool := s.tCmBlock i && !(s.rDidReload || s.rIsRetry)

/-! ### The state machine -/

/-- The assignments before the `case`. -/
def dfltCtl : L1dCtl where
  nState := s.rState
  tAckLdEarly := false
  tGotRdRetry := false
  tCacheIdx := 0
  tCacheTag := 0
  tCacheIdx2 := 0
  tCacheTag2 := 0
  tGotReq := false
  tGotReq2 := false
  nLastWr := false
  nLastWr2 := false
  tGotMiss := false
  tPushMiss := false
  tPopMq := false
  nReq := s.rReq
  nReq2 := s.rReq2
  coreMemReqAck := false
  coreStoreDataAck := false
  nMemReqValid := false
  nMemReqAddr := s.rMemReqAddr
  nMemReqStoreData := s.rMemReqStoreData
  nMemReqOpcode := s.rMemReqOpcode
  nCoreMemRspValid := false
  nCoreMemRsp := ⟨s.rReq.addr, s.rReq.robPtr, s.rReq.dstPtr, false, false, s.rReq.pc⟩
  nFlushReq := s.rFlushReq || i.flushReq
  nFlushClReq := s.rFlushClReq || i.flushClReq
  nFlushComplete := false
  nInhibitWrite := s.rInhibitWrite
  tMarkInvalid := false
  nIsRetry := false
  tResetGraduated := false
  tForceClearBusy := false
  tIncrBusy := false
  nDidReload := false
  nLockCache := s.rLockCache

/-- ACTIVE, first part: the request looked up on port 2. -/
def port2 (c : L1dCtl) : L1dCtl :=
  if s.rGotReq2 then
    let r := s.rReq2
    let rsp : MemRsp :=
      { c.nCoreMemRsp with data := r.addr, robPtr := r.robPtr, dstPtr := r.dstPtr, pc := r.pc }
    if i.drainDsComplete || r.op == .nop then
      { c with
        nCoreMemRsp := { rsp with dstValid := r.dstValid, badAddr := r.spansCacheline }
        nCoreMemRspValid := true }
    else if r.isStore then
      { c with
        tPushMiss := true
        tIncrBusy := true
        nCoreMemRsp := { rsp with dstValid := false, badAddr := r.spansCacheline }
        nCoreMemRspValid := true }
    else if s.tPort2HitCache &&
        (!s.rHitBusyAddr2 || (r.op == .lw && !s.rHitBusyWordAddr2 && !s.rAnyUnaligned)) then
      { c with
        nCoreMemRsp :=
          { rsp with
            data := s.tRspData2.setWidth 32
            dstValid := s.tRspDstValid2
            badAddr := r.spansCacheline }
        nCoreMemRspValid := true }
    else { c with nCoreMemRsp := rsp, tPushMiss := true }
  else c

/-- ACTIVE, second part: the request retried on port 1. -/
def port1 (c : L1dCtl) : L1dCtl :=
  if s.rGotReq then
    if s.hitLine then
      if s.rReq.isStore then { c with tResetGraduated := true }
      else
        { c with
          nCoreMemRsp :=
            { c.nCoreMemRsp with
              data := (s.tRspData i).setWidth 32
              dstValid := s.tRspDstValid
              badAddr := s.rReq.spansCacheline }
          nCoreMemRspValid := true }
    else if s.dirtyMiss then
      let c := { c with tGotMiss := true, nInhibitWrite := true }
      if (s.rHitBusyAddr && s.rIsRetry) || !s.rHitBusyAddr then
        let c :=
          { c with
            nMemReqAddr := lineAddr s.rTagOut s.rCacheIdx
            nMemReqOpcode := .sw
            nMemReqStoreData := s.tData i
            nLockCache := true }
        if s.rrCacheIdx == s.rCacheIdx && s.rrLastWr then
          { c with tCacheIdx := s.rCacheIdx, nState := .waitInjectReload, nMemReqValid := false }
        else { c with nState := .injectReload, nMemReqValid := true }
      else c
    else
      let c := { c with tGotMiss := true, nInhibitWrite := false }
      if (s.rHitBusyAddr && s.rIsRetry) || !s.rHitBusyAddr || s.rLockCache then
        let c := { c with tCacheIdx := s.rCacheIdx }
        if s.rrCacheIdx == s.rCacheIdx && s.rrLastWr then
          { c with
            nMemReqAddr := lineAddr s.rTagOut s.rCacheIdx
            nLockCache := true
            nMemReqOpcode := .sw
            nState := .waitInjectReload
            nMemReqValid := false }
        else
          { c with
            nLockCache := false
            nMemReqAddr := lineOf s.rReq.addr
            nMemReqOpcode := .lw
            nState := .injectReload
            nMemReqValid := true }
      else c
  else c

/-- The head of the miss queue is a store that has retired and whose data is there. -/
def storeReady : Bool :=
  s.rGraduated s.tMemHead.robPtr == 2 &&
    (if i.coreStoreDataValid then s.tMemHead.robPtr == i.coreStoreData.robPtr else false)

/-- ACTIVE, third part: fire or drop the head of the miss queue. -/
def fireHead (c : L1dCtl) : L1dCtl :=
  if !s.memQEmpty && !c.tGotMiss && !s.rLockCache && !s.tMhBlock then
    let h := s.tMemHead
    if h.isStore then
      if s.storeReady i then
        { c with
          tPopMq := true
          coreStoreDataAck := true
          nReq := { h with data := i.coreStoreData.data }
          tCacheIdx := setOf h.addr
          tCacheTag := tagOf h.addr
          tGotReq := true
          nIsRetry := true
          nLastWr := true }
      else if i.drainDsComplete && i.deadRobMask h.robPtr then
        { c with tPopMq := true, tForceClearBusy := true }
      else c
    else
      { c with
        tPopMq := true
        nReq := h
        tCacheIdx := setOf h.addr
        tCacheTag := tagOf h.addr
        tGotReq := true
        nIsRetry := true
        tGotRdRetry := true }
  else c

/-- ACTIVE, last part: accept a new request, else start a requested flush. -/
def accept (c : L1dCtl) : L1dCtl :=
  let r := i.coreMemReq
  if i.coreMemReqValid && !c.tGotMiss && !(s.memQAlmostFull || s.memQFull) && !c.tGotRdRetry &&
      !(s.rLastWr2 && s.rCacheIdx2 == setOf r.addr && !r.isStore) && !s.tCmBlockStall i &&
      !s.rRobInflight r.robPtr then
    { c with
      tCacheIdx2 := setOf r.addr
      tCacheTag2 := tagOf r.addr
      nReq2 := r
      coreMemReqAck := true
      tGotReq2 := true
      nLastWr2 := r.isStore }
  else if s.rFlushReq && s.memQEmpty && !(s.rGotReq && s.rLastWr) then
    { c with nState := .flushCache, tCacheIdx := 0, nFlushReq := false }
  else if s.rFlushClReq && s.memQEmpty && !(s.rGotReq && s.rLastWr) then
    { c with tCacheIdx := setOf i.flushClAddr, nFlushClReq := false, nState := .flushCl }
  else c

def activeCtl : L1dCtl :=
  s.dfltCtl i |> s.port2 i |> s.port1 i |> s.fireHead i |> s.accept i

def initCacheCtl : L1dCtl :=
  let c := { s.dfltCtl i with tCacheIdx := s.rCacheIdx + 1, tMarkInvalid := true }
  if s.rCacheIdx = 4095 then { c with nState := .active, nFlushComplete := true } else c

def injectReloadCtl : L1dCtl :=
  let c := s.dfltCtl i
  if i.memRspValid then
    let c := { c with nState := .handleReload, nInhibitWrite := false }
    if !(s.rReq.isStore || s.rLockCache) then
      { c with
        tAckLdEarly := true
        nCoreMemRsp :=
          ⟨(s.tRspData i).setWidth 32, s.rReq.robPtr, s.rReq.dstPtr, s.rReq.dstValid,
            s.rReq.spansCacheline, s.rReq.pc⟩
        nCoreMemRspValid := true }
    else c
  else c

def handleReloadCtl : L1dCtl :=
  { s.dfltCtl i with
    tCacheIdx := setOf s.rReq.addr
    tCacheTag := tagOf s.rReq.addr
    nLastWr := s.rReq.isStore
    tGotReq := s.rReq.isStore || !s.rAckLdEarly
    nDidReload := true
    nState := .active }

def flushClCtl : L1dCtl :=
  let c := s.dfltCtl i
  if s.rDirtyOut then
    { c with
      nMemReqAddr := lineAddr s.rTagOut s.rCacheIdx
      nMemReqOpcode := .sw
      nMemReqStoreData := s.tData i
      nState := .flushClWait
      nInhibitWrite := true
      nMemReqValid := true }
  else { c with nState := .active, tMarkInvalid := true, nFlushComplete := true }

def flushClWaitCtl : L1dCtl :=
  let c := s.dfltCtl i
  if i.memRspValid then
    { c with nState := .active, nInhibitWrite := false, nFlushComplete := true }
  else c

def flushCacheCtl : L1dCtl :=
  let c := { s.dfltCtl i with tCacheIdx := s.rCacheIdx + 1 }
  if !s.rDirtyOut then
    let c := { c with tMarkInvalid := true }
    if s.rCacheIdx = 4095 then { c with nState := .active, nFlushComplete := true } else c
  else
    { c with
      nMemReqAddr := lineAddr s.rTagOut s.rCacheIdx
      nMemReqOpcode := .sw
      nMemReqStoreData := s.tData i
      nState := if s.rCacheIdx = 4095 then .flushCacheLastWait else .flushCacheWait
      nInhibitWrite := true
      nMemReqValid := true }

def flushCacheLastWaitCtl : L1dCtl :=
  let c := { s.dfltCtl i with tCacheIdx := s.rCacheIdx }
  if i.memRspValid then
    { c with nState := .active, nInhibitWrite := false, nFlushComplete := true }
  else c

def flushCacheWaitCtl : L1dCtl :=
  let c := { s.dfltCtl i with tCacheIdx := s.rCacheIdx }
  if i.memRspValid then { c with nState := .flushCache, nInhibitWrite := false } else c

/-- The state machine. -/
def ctl : L1dCtl :=
  match s.rState with
  | .initialise => { s.dfltCtl i with nState := .initCache }
  | .initCache => s.initCacheCtl i
  | .active => s.activeCtl i
  | .waitInjectReload =>
      { s.dfltCtl i with
        nMemReqValid := true
        nState := .injectReload
        nMemReqStoreData := s.tData i }
  | .injectReload => s.injectReloadCtl i
  | .handleReload => s.handleReloadCtl i
  | .flushCl => s.flushClCtl i
  | .flushClWait => s.flushClWaitCtl i
  | .flushCache => s.flushCacheCtl i
  | .flushCacheLastWait => s.flushCacheLastWaitCtl i
  | .flushCacheWait => s.flushCacheWaitCtl i

/-! ### Hazards against the miss queue -/

/-- Some slot of the miss queue satisfies `p`. -/
def anyMq (p : BitVec 3 → Bool) : Bool := decide (∃ j, p j = true)

/-- `w_hit_busy_addrs`. -/
def wHitBusyAddrs (j : BitVec 3) : Bool :=
  let c := s.ctl i
  if c.tPopMq && idx s.rMqHeadPtr == j then false
  else if s.rMqAddrValid j then setOf (s.rMemQ j).addr == c.tCacheIdx
  else false

/-- `w_hit_busy_addrs2`. -/
def wHitBusyAddrs2 (j : BitVec 3) : Bool :=
  if s.rMqAddrValid j then
    if i.coreMemReq.isLoad && (s.rMemQ j).isLoad then false
    else setOf (s.rMemQ j).addr == (s.ctl i).tCacheIdx2
  else false

/-- `w_hit_busy_word_addrs2`. -/
def wHitBusyWordAddrs2 (j : BitVec 3) : Bool :=
  if s.rMqAddrValid j then
    (s.rMemQ j).addr.extractLsb' 2 30 == i.coreMemReq.addr.extractLsb' 2 30
  else false

/-- `w_unaligned_in_mq`. -/
def wUnalignedInMq (j : BitVec 3) : Bool :=
  if s.rMqAddrValid j then (s.rMemQ j).unaligned else false

/-! ### RAM writes -/

/-- `w_store_byte_en`. -/
def wStoreByteEn (j : ℕ) : Bool :=
  if i.memRspValid then true
  else s.tWrArray && (storeMask s.rReq.op s.rReq.addr).getLsbD (8 * j)

def nDcTag : SetIdx → Tag :=
  s.dcTag |> writeIf i.memRspValid (setOf s.rMemReqAddr) (tagOf s.rMemReqAddr)

def nDcData : SetIdx → Line :=
  let a := if i.memRspValid then setOf s.rMemReqAddr else s.rCacheIdx
  let d := if i.memRspValid then i.memRspLoadData else storeShift s.rReq.data s.rReq.addr
  s.dcData
    |> modifyIf (i.memRspValid || s.tWrArray) a (writeBytes (s.wStoreByteEn i) d)

def nDcDirty : SetIdx → Bool :=
  let c := s.ctl i
  if c.tMarkInvalid then s.dcDirty |> writeIf true s.rCacheIdx false
  else if i.memRspValid then s.dcDirty |> writeIf true (setOf s.rMemReqAddr) false
  else s.dcDirty |> writeIf s.tWrArray s.rCacheIdx true

def nDcValid : SetIdx → Bool :=
  let c := s.ctl i
  if c.tMarkInvalid then s.dcValid |> writeIf true s.rCacheIdx false
  else s.dcValid |> writeIf i.memRspValid (setOf s.rMemReqAddr) (!s.rInhibitWrite)

/-! ### The clock edge -/

/-- `r_graduated`: 0 idle, 1 in the miss queue, 2 retired. -/
def nGraduated : RobPtr → BitVec 2 :=
  let c := s.ctl i
  s.rGraduated
    |> writeIf (i.retiredRobPtrValid && s.rGraduated i.retiredRobPtr == 1) i.retiredRobPtr 2
    |> writeIf (i.retiredRobPtrTwoValid && s.rGraduated i.retiredRobPtrTwo == 1)
        i.retiredRobPtrTwo 2
    |> writeIf c.tIncrBusy s.rReq2.robPtr 1
    |> writeIf c.tResetGraduated s.rReq.robPtr 0
    |> writeIf c.tForceClearBusy s.tMemHead.robPtr 0

def nRobInflight : RobPtr → Bool :=
  let c := s.ctl i
  s.rRobInflight
    |> writeIf (s.rGotReq2 && !i.drainDsComplete && c.tPushMiss) s.rReq2.robPtr true
    |> writeIf ((s.rGotReq && s.hitLine) || c.tAckLdEarly) s.rReq.robPtr false
    |> writeIf c.tForceClearBusy s.tMemHead.robPtr false

def nNInflight : BitVec 4 :=
  let c := s.ctl i
  let acked := i.coreMemReqValid && c.coreMemReqAck
  if acked && !c.nCoreMemRspValid then s.rNInflight + 1
  else if !acked && c.nCoreMemRspValid then s.rNInflight - 1
  else s.rNInflight

/-- One rising clock edge. -/
def step : L1d :=
  let c := s.ctl i
  { rState := c.nState
    rFlushReq := c.nFlushReq
    rFlushClReq := c.nFlushClReq
    rFlushComplete := c.nFlushComplete
    memqEmpty :=
      s.memQEmpty && i.drainDsComplete && !i.coreMemReqValid && !c.tGotReq && !c.tGotReq2 &&
        !c.tPushMiss && s.rNInflight == 0
    rNInflight := s.nNInflight i
    rGraduated := s.nGraduated i
    rRobInflight := s.nRobInflight i
    rGotReq := c.tGotReq
    rReq := c.nReq
    rLastWr := c.nLastWr
    rIsRetry := c.nIsRetry
    rDidReload := c.nDidReload
    rLockCache := c.nLockCache
    rInhibitWrite := c.nInhibitWrite
    rAckLdEarly := c.tAckLdEarly
    rMustForward := s.tMhBlock && c.tPopMq
    rCacheIdx := c.tCacheIdx
    rCacheTag := c.tCacheTag
    rrCacheIdx := s.rCacheIdx
    rrLastWr := s.rLastWr
    rHitBusyAddr := anyMq (s.wHitBusyAddrs i)
    rTagOut := s.dcTag c.tCacheIdx
    rValidOut := s.dcValid c.tCacheIdx
    rDirtyOut := s.dcDirty c.tCacheIdx
    rArrayOut := s.dcData c.tCacheIdx
    rGotReq2 := c.tGotReq2
    rReq2 := c.nReq2
    rLastWr2 := c.nLastWr2
    rMustForward2 := s.tCmBlock i && c.coreMemReqAck
    rCacheIdx2 := c.tCacheIdx2
    rCacheTag2 := c.tCacheTag2
    rHitBusyAddr2 := anyMq (s.wHitBusyAddrs2 i)
    rHitBusyWordAddr2 := anyMq (s.wHitBusyWordAddrs2 i)
    rAnyUnaligned := anyMq s.wUnalignedInMq || i.coreMemReq.unaligned
    rTagOut2 := s.dcTag c.tCacheIdx2
    rValidOut2 := s.dcValid c.tCacheIdx2
    rArrayOut2 := s.dcData c.tCacheIdx2
    rArrayWrData := s.tArrayData i
    rMemQ := s.rMemQ |> writeIf c.tPushMiss (idx s.rMqTailPtr) s.rReq2
    rMqHeadPtr := if c.tPopMq then s.rMqHeadPtr + 1 else s.rMqHeadPtr
    rMqTailPtr := if c.tPushMiss then s.rMqTailPtr + 1 else s.rMqTailPtr
    rMqAddrValid :=
      s.rMqAddrValid
        |> writeIf c.tPushMiss (idx s.rMqTailPtr) true
        |> writeIf c.tPopMq (idx s.rMqHeadPtr) false
    rMemReqValid := c.nMemReqValid
    rMemReqAddr := c.nMemReqAddr
    rMemReqStoreData := c.nMemReqStoreData
    rMemReqOpcode := c.nMemReqOpcode
    dcTag := s.nDcTag i
    dcData := s.nDcData i
    dcDirty := s.nDcDirty i
    dcValid := s.nDcValid i }

end L1d

/-- The contents of the registers and memories that reset leaves alone. -/
structure L1dPowerUp where
  req : MemReq
  req2 : MemReq
  rspRegs : Tag × Bool × Bool × Line
  rspRegs2 : Tag × Bool × Line
  arrayWrData : Line
  memQ : BitVec 3 → MemReq
  dcTag : SetIdx → Tag
  dcData : SetIdx → Line
  dcDirty : SetIdx → Bool
  dcValid : SetIdx → Bool

/-- The state after reset. -/
def L1d.init (p : L1dPowerUp) : L1d where
  rState := .initialise
  rFlushReq := false
  rFlushClReq := false
  rFlushComplete := false
  memqEmpty := true
  rNInflight := 0
  rGraduated _ := 0
  rRobInflight _ := false
  rGotReq := false
  rReq := p.req
  rLastWr := false
  rIsRetry := false
  rDidReload := false
  rLockCache := false
  rInhibitWrite := false
  rAckLdEarly := false
  rMustForward := false
  rCacheIdx := 0
  rCacheTag := 0
  rrCacheIdx := 0
  rrLastWr := false
  rHitBusyAddr := false
  rTagOut := p.rspRegs.1
  rValidOut := p.rspRegs.2.1
  rDirtyOut := p.rspRegs.2.2.1
  rArrayOut := p.rspRegs.2.2.2
  rGotReq2 := false
  rReq2 := p.req2
  rLastWr2 := false
  rMustForward2 := false
  rCacheIdx2 := 0
  rCacheTag2 := 0
  rHitBusyAddr2 := false
  rHitBusyWordAddr2 := false
  rAnyUnaligned := false
  rTagOut2 := p.rspRegs2.1
  rValidOut2 := p.rspRegs2.2.1
  rArrayOut2 := p.rspRegs2.2.2
  rArrayWrData := p.arrayWrData
  rMemQ := p.memQ
  rMqHeadPtr := 0
  rMqTailPtr := 0
  rMqAddrValid _ := false
  rMemReqValid := false
  rMemReqAddr := 0
  rMemReqStoreData := 0
  rMemReqOpcode := .lb
  dcTag := p.dcTag
  dcData := p.dcData
  dcDirty := p.dcDirty
  dcValid := p.dcValid

/-- The data cache as a synchronous machine. -/
def l1dMachine : Clocked.Machine L1d L1dIn where
  reset s := ∃ p, s = L1d.init p
  step := L1d.step

/-! ### Start-up

After reset INIT_CACHE walks over all 4096 sets and marks them invalid.  From zeroed memories
the walk ends in a state that can be written down (`L1d.ready`); concrete runs of the cache
start there. -/

/-- The all-zero request. -/
def MemReq.zero : MemReq := ⟨0, false, false, .lb, false, false, 0, 0, false, 0, 0⟩

/-- A cycle in which nothing arrives. -/
def L1dIn.idle : L1dIn where
  retiredRobPtrValid := false
  retiredRobPtrTwoValid := false
  retiredRobPtr := 0
  retiredRobPtrTwo := 0
  drainDsComplete := false
  deadRobMask _ := false
  flushReq := false
  flushClReq := false
  flushClAddr := 0
  coreMemReqValid := false
  coreMemReq := MemReq.zero
  coreStoreDataValid := false
  coreStoreData := ⟨0, 0⟩
  memRspValid := false
  memRspLoadData := 0

/-- Zeroed registers and memories at power-up. -/
def L1dPowerUp.zero : L1dPowerUp where
  req := MemReq.zero
  req2 := MemReq.zero
  rspRegs := (0, false, false, 0)
  rspRegs2 := (0, false, 0)
  arrayWrData := 0
  memQ _ := MemReq.zero
  dcTag _ := 0
  dcData _ := 0
  dcDirty _ := false
  dcValid _ := false

namespace L1d

/-- The walk of INIT_CACHE at set `a`, after set `b`. -/
def walking (a b : SetIdx) : L1d :=
  { init L1dPowerUp.zero with
    rState := .initCache
    rCacheIdx := a
    rrCacheIdx := b
    memqEmpty := false }

/-- The first state in ACTIVE. -/
def ready : L1d :=
  { init L1dPowerUp.zero with
    rState := .active
    rFlushComplete := true
    rrCacheIdx := 4095
    memqEmpty := false }

theorem step_initial : (init L1dPowerUp.zero).step L1dIn.idle = walking 0 0 := by
  rfl

theorem anyMq_false {p : BitVec 3 → Bool} (h : ∀ j, p j = false) : anyMq p = false := by
  simp [anyMq, h]

theorem walking_ctl (a b : SetIdx) :
    (walking a b).ctl L1dIn.idle = (walking a b).initCacheCtl L1dIn.idle := rfl

theorem step_walk {a b : SetIdx} {c : L1dCtl} (hc : (walking a b).ctl L1dIn.idle = c)
    (he : c = { (walking a b).dfltCtl L1dIn.idle with
      tCacheIdx := a + 1, tMarkInvalid := true, nState := c.nState
      nFlushComplete := c.nFlushComplete }) :
    (walking a b).step L1dIn.idle =
      { walking (a + 1) a with rState := c.nState, rFlushComplete := c.nFlushComplete } := by
  have h1 : anyMq ((walking a b).wHitBusyAddrs L1dIn.idle) = false :=
    anyMq_false fun j => by rw [wHitBusyAddrs, hc, he]; rfl
  have h2 : (walking a b).nDcValid L1dIn.idle = fun _ => false := by
    rw [nDcValid, hc, he]
    exact writeIf_const _ _ _
  have h3 : (walking a b).nDcDirty L1dIn.idle = fun _ => false := by
    rw [nDcDirty, hc, he]
    exact writeIf_const _ _ _
  have h4 : anyMq ((walking a b).wHitBusyAddrs2 L1dIn.idle) = false := anyMq_false fun _ => rfl
  simp only [step, nGraduated, nRobInflight, nNInflight, hc, h1, h2, h3, h4]
  rw [he]
  rfl

theorem step_walking {a b : SetIdx} (h : a ≠ 4095) :
    (walking a b).step L1dIn.idle = walking (a + 1) a := by
  rw [step_walk (walking_ctl a b)]
  all_goals
    rw [initCacheCtl, if_neg (show ¬(walking a b).rCacheIdx = 4095 from h)]
    rfl

theorem step_walking_last (b : SetIdx) : (walking 4095 b).step L1dIn.idle = ready := by
  rw [step_walk (walking_ctl 4095 b)]
  all_goals rfl

theorem walk_next {k : ℕ} (hk : k + 1 ≤ 4095) (b : SetIdx) :
    (walking (BitVec.ofNat 12 k) b).step L1dIn.idle =
      walking (BitVec.ofNat 12 (k + 1)) (BitVec.ofNat 12 k) := by
  have hne : BitVec.ofNat 12 k ≠ 4095 := fun h => by
    have h' : k % 4096 = 4095 := congrArg BitVec.toNat h
    omega
  rw [step_walking hne, BitVec.ofNat_add k 1]
  rfl

theorem reach_walking {env : L1d → L1dIn → Prop} (he : ∀ s, s.rState ≠ .active → env s L1dIn.idle)
    {k : ℕ} (hk : k ≤ 4095) : ∃ b, l1dMachine.Reach env (walking (BitVec.ofNat 12 k) b) := by
  induction k with
  | zero =>
      have h0 : l1dMachine.Reach env (init L1dPowerUp.zero) := .reset ⟨_, rfl⟩
      exact ⟨0, step_initial ▸ h0.step (he _ (fun h => by cases h))⟩
  | succ k ih =>
      obtain ⟨b, hb⟩ := ih (by omega)
      refine ⟨BitVec.ofNat 12 k, ?_⟩
      rw [← walk_next hk b]
      exact hb.step (he _ (fun h => by cases h))

/-- **Start-up ends in `ready`.** -/
theorem reach_ready {env : L1d → L1dIn → Prop} (he : ∀ s, s.rState ≠ .active → env s L1dIn.idle) :
    l1dMachine.Reach env ready := by
  obtain ⟨b, hb⟩ := reach_walking he (le_refl 4095)
  exact step_walking_last b ▸ hb.step (he _ (fun h => by cases h))

end L1d

end Rv32Core
