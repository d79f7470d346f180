import Rv32Core.L1d.Model

/-! # What one cycle of the data cache can do

The parts of the ACTIVE block as record updates whose conditions are named (`port2_eq` to
`accept_eq`), and the outputs of the block in terms of those conditions. -/

namespace Rv32Core

open RingBuffer

namespace L1d

variable (s : L1d) (i : L1dIn)

/-! ### Named conditions -/

/-- The request on port 1 misses. -/
def miss : Bool := s.rGotReq && !s.hitLine

/-- The request on port 2 is answered without looking at the cache. -/
def bypass2 : Bool := i.drainDsComplete || s.rReq2.op == .nop

/-- The request on port 2 is a load that hits and is not held up by an older store. -/
def loadHit2 : Bool :=
  s.tPort2HitCache &&
    (!s.rHitBusyAddr2 || (s.rReq2.op == .lw && !s.rHitBusyWordAddr2 && !s.rAnyUnaligned))

/-- The request on port 2 goes to the miss queue. -/
def pushes : Bool := s.rGotReq2 && !s.bypass2 i && (s.rReq2.isStore || !s.loadHit2)

/-- A load on port 1 is answered. -/
def answers1 : Bool := s.rGotReq && s.hitLine && !s.rReq.isStore

/-- A store on port 1 completes. -/
def completes1 : Bool := s.rGotReq && s.hitLine && s.rReq.isStore

def mayRetry : Bool := (s.rHitBusyAddr && s.rIsRetry) || !s.rHitBusyAddr

/-- The line in the way of port 1 is written back. -/
def evicts : Bool := s.miss && s.dirtyMiss && s.mayRetry

/-- The line of port 1 is requested from the next level. -/
def refills : Bool := s.miss && !s.dirtyMiss && (s.mayRetry || s.rLockCache)

/-- The previous cycle wrote the set port 1 reads. -/
def wrConflict : Bool := s.rrCacheIdx == s.rCacheIdx && s.rrLastWr

/-- The head of the miss queue may be looked at. -/
def headGo : Bool := !s.memQEmpty && !s.miss && !s.rLockCache && !s.tMhBlock

/-- The head of the miss queue, a retired store, is fired. -/
def firesStore : Bool := s.headGo && (s.tMemHead.isStore && s.storeReady i)

/-- The head of the miss queue, a store that never retires, is dropped. -/
def dropsStore : Bool :=
  s.headGo &&
    (s.tMemHead.isStore && !s.storeReady i && (i.drainDsComplete && i.deadRobMask s.tMemHead.robPtr))

/-- The head of the miss queue, a load, is retried. -/
def firesLoad : Bool := s.headGo && !s.tMemHead.isStore

/-- The request offered by the core is accepted. -/
def accepts : Bool :=
  i.coreMemReqValid && !s.miss && !(s.memQAlmostFull || s.memQFull) && !s.firesLoad &&
    !(s.rLastWr2 && s.rCacheIdx2 == setOf i.coreMemReq.addr && !i.coreMemReq.isStore) &&
    !s.tCmBlockStall i && !s.rRobInflight i.coreMemReq.robPtr

/-- No store is in port 1 and the miss queue is empty. -/
def flushable : Bool := s.memQEmpty && !(s.rGotReq && s.rLastWr)

/-- A flush of the whole cache starts. -/
def startsFlush : Bool := !s.accepts i && (s.rFlushReq && s.flushable)

/-- A flush of one line starts. -/
def startsFlushCl : Bool :=
  !s.accepts i && !(s.rFlushReq && s.flushable) && (s.rFlushClReq && s.flushable)

variable {s i}

/-! ### The parts of ACTIVE -/

/-- The answer port 2 gives. -/
def rsp2 (s : L1d) (i : L1dIn) (c : MemRsp) : MemRsp :=
  let r := s.rReq2
  let rsp : MemRsp := { c with data := r.addr, robPtr := r.robPtr, dstPtr := r.dstPtr, pc := r.pc }
  if s.bypass2 i then { rsp with dstValid := r.dstValid, badAddr := r.spansCacheline }
  else if r.isStore then { rsp with dstValid := false, badAddr := r.spansCacheline }
  else if s.loadHit2 then
    { rsp with
      data := s.tRspData2.setWidth 32
      dstValid := s.tRspDstValid2
      badAddr := r.spansCacheline }
  else rsp

/-- The answer port 1 gives. -/
def rsp1 (s : L1d) (i : L1dIn) (c : MemRsp) : MemRsp :=
  { c with
    data := (s.tRspData i).setWidth 32
    dstValid := s.tRspDstValid
    badAddr := s.rReq.spansCacheline }

theorem port2_eq (c : L1dCtl) :
    s.port2 i c =
      { c with
        tPushMiss := if s.pushes i then true else c.tPushMiss
        tIncrBusy := if s.pushes i && s.rReq2.isStore then true else c.tIncrBusy
        nCoreMemRsp := if s.rGotReq2 then s.rsp2 i c.nCoreMemRsp else c.nCoreMemRsp
        nCoreMemRspValid :=
          if s.rGotReq2 && !(s.pushes i && !s.rReq2.isStore) then true
          else c.nCoreMemRspValid } := by
  unfold port2 pushes rsp2
  by_cases h : s.rGotReq2 = true
  · by_cases hb : s.bypass2 i = true
    · have hb' := hb
      unfold bypass2 at hb'
      simp [h, hb, hb']
    · have hb' := hb
      unfold bypass2 at hb'
      simp only [Bool.not_eq_true] at hb hb'
      by_cases hs : s.rReq2.isStore = true
      · simp [h, hb, hb', hs]
      · by_cases hl : s.loadHit2 = true
        · have hl' := hl
          unfold loadHit2 at hl'
          simp [h, hb, hb', hs, hl, hl']
        · have hl' := hl
          unfold loadHit2 at hl'
          simp only [Bool.not_eq_true] at hl hl'
          simp [h, hb, hb', hs, hl, hl']
  · simp [h]

theorem port1_eq (c : L1dCtl) :
    s.port1 i c =
      { c with
        tResetGraduated := if s.completes1 then true else c.tResetGraduated
        nCoreMemRsp := if s.answers1 then s.rsp1 i c.nCoreMemRsp else c.nCoreMemRsp
        nCoreMemRspValid := if s.answers1 then true else c.nCoreMemRspValid
        tGotMiss := if s.miss then true else c.tGotMiss
        nInhibitWrite := if s.miss then s.dirtyMiss else c.nInhibitWrite
        nLockCache :=
          if s.evicts then true else if s.refills then s.wrConflict else c.nLockCache
        nMemReqAddr :=
          if s.evicts then lineAddr s.rTagOut s.rCacheIdx
          else if s.refills then
            (if s.wrConflict then lineAddr s.rTagOut s.rCacheIdx else lineOf s.rReq.addr)
          else c.nMemReqAddr
        nMemReqOpcode :=
          if s.evicts then .sw
          else if s.refills then (if s.wrConflict then .sw else .lw)
          else c.nMemReqOpcode
        nMemReqStoreData := if s.evicts then s.tData i else c.nMemReqStoreData
        nMemReqValid := if s.evicts || s.refills then !s.wrConflict else c.nMemReqValid
        tCacheIdx :=
          if (s.evicts && s.wrConflict) || s.refills then s.rCacheIdx else c.tCacheIdx
        nState :=
          if s.evicts || s.refills then
            (if s.wrConflict then .waitInjectReload else .injectReload)
          else c.nState } := by
  unfold port1 completes1 answers1 miss evicts refills rsp1 miss
  by_cases h : s.rGotReq = true
  · by_cases hh : s.hitLine = true
    · by_cases hs : s.rReq.isStore = true <;> simp [h, hh, hs]
    · simp only [Bool.not_eq_true] at hh
      by_cases hd : s.dirtyMiss = true
      · by_cases hm : s.mayRetry = true
        · have hm' := hm
          unfold mayRetry at hm'
          by_cases hw : s.wrConflict = true
          · have hw' := hw
            unfold wrConflict at hw'
            simp [h, hh, hd, hm, hm', hw, hw']
          · have hw' := hw
            unfold wrConflict at hw'
            simp only [Bool.not_eq_true] at hw hw'
            simp [h, hh, hd, hm, hm', hw, hw']
        · have hm' := hm
          unfold mayRetry at hm'
          simp only [Bool.not_eq_true] at hm hm'
          simp [h, hh, hd, hm, hm']
      · simp only [Bool.not_eq_true] at hd
        by_cases hm : (s.mayRetry || s.rLockCache) = true
        · have hm' := hm
          unfold mayRetry at hm'
          by_cases hw : s.wrConflict = true
          · have hw' := hw
            unfold wrConflict at hw'
            simp [h, hh, hd, hm, hm', hw, hw']
          · have hw' := hw
            unfold wrConflict at hw'
            simp only [Bool.not_eq_true] at hw hw'
            simp [h, hh, hd, hm, hm', hw, hw']
        · have hm' := hm
          unfold mayRetry at hm'
          simp only [Bool.not_eq_true] at hm hm'
          simp [h, hh, hd, hm, hm']
  · simp [h]

/-- The head of the miss queue enters port 1. -/
def fires (s : L1d) (i : L1dIn) : Bool := s.firesStore i || s.firesLoad

theorem fireHead_eq {c : L1dCtl} (hm : c.tGotMiss = s.miss) :
    s.fireHead i c =
      { c with
        tPopMq := if s.fires i || s.dropsStore i then true else c.tPopMq
        coreStoreDataAck := if s.firesStore i then true else c.coreStoreDataAck
        nReq :=
          if s.firesStore i then { s.tMemHead with data := i.coreStoreData.data }
          else if s.firesLoad then s.tMemHead else c.nReq
        tCacheIdx := if s.fires i then setOf s.tMemHead.addr else c.tCacheIdx
        tCacheTag := if s.fires i then tagOf s.tMemHead.addr else c.tCacheTag
        tGotReq := if s.fires i then true else c.tGotReq
        nIsRetry := if s.fires i then true else c.nIsRetry
        nLastWr := if s.firesStore i then true else c.nLastWr
        tForceClearBusy := if s.dropsStore i then true else c.tForceClearBusy
        tGotRdRetry := if s.firesLoad then true else c.tGotRdRetry } := by
  have hg : (!s.memQEmpty && !c.tGotMiss && !s.rLockCache && !s.tMhBlock) = s.headGo := by
    rw [hm]
    rfl
  unfold fireHead fires firesStore dropsStore firesLoad
  dsimp only
  rw [hg]
  cases s.headGo
  · rfl
  · cases hs : s.tMemHead.isStore
    · simp
    · cases s.storeReady i
      · cases i.drainDsComplete && i.deadRobMask s.tMemHead.robPtr <;> simp
      · simp

theorem accept_eq {c : L1dCtl} (hm : c.tGotMiss = s.miss) (hr : c.tGotRdRetry = s.firesLoad) :
    s.accept i c =
      { c with
        tCacheIdx2 := if s.accepts i then setOf i.coreMemReq.addr else c.tCacheIdx2
        tCacheTag2 := if s.accepts i then tagOf i.coreMemReq.addr else c.tCacheTag2
        nReq2 := if s.accepts i then i.coreMemReq else c.nReq2
        coreMemReqAck := if s.accepts i then true else c.coreMemReqAck
        tGotReq2 := if s.accepts i then true else c.tGotReq2
        nLastWr2 := if s.accepts i then i.coreMemReq.isStore else c.nLastWr2
        nState :=
          if s.startsFlush i then .flushCache
          else if s.startsFlushCl i then .flushCl else c.nState
        tCacheIdx :=
          if s.startsFlush i then 0
          else if s.startsFlushCl i then setOf i.flushClAddr else c.tCacheIdx
        nFlushReq := if s.startsFlush i then false else c.nFlushReq
        nFlushClReq := if s.startsFlushCl i then false else c.nFlushClReq } := by
  have ha : (i.coreMemReqValid && !c.tGotMiss && !(s.memQAlmostFull || s.memQFull) &&
      !c.tGotRdRetry && !(s.rLastWr2 && s.rCacheIdx2 == setOf i.coreMemReq.addr &&
        !i.coreMemReq.isStore) && !s.tCmBlockStall i && !s.rRobInflight i.coreMemReq.robPtr) =
      s.accepts i := by
    rw [hm, hr]
    rfl
  have hf : ∀ b : Bool, (b && s.memQEmpty && !(s.rGotReq && s.rLastWr)) = (b && s.flushable) :=
    fun b => Bool.and_assoc _ _ _
  unfold accept startsFlush startsFlushCl
  simp only [ha, hf]
  cases s.accepts i
  · cases s.rFlushReq && s.flushable
    · cases s.rFlushClReq && s.flushable <;> rfl
    · rfl
  · rfl

/-- Port 2 answers in this cycle. -/
def answers2 (s : L1d) (i : L1dIn) : Bool := s.rGotReq2 && !(s.pushes i && !s.rReq2.isStore)

/-- **ACTIVE in one piece**: every output in terms of the named conditions. -/
theorem activeCtl_eq :
    s.activeCtl i =
      { s.dfltCtl i with
        nState :=
          if s.startsFlush i then .flushCache
          else if s.startsFlushCl i then .flushCl
          else if s.evicts || s.refills then
            (if s.wrConflict then .waitInjectReload else .injectReload)
          else s.rState
        tGotRdRetry := s.firesLoad
        tCacheIdx :=
          if s.startsFlush i then 0
          else if s.startsFlushCl i then setOf i.flushClAddr
          else if s.fires i then setOf s.tMemHead.addr
          else if (s.evicts && s.wrConflict) || s.refills then s.rCacheIdx else 0
        tCacheTag := if s.fires i then tagOf s.tMemHead.addr else 0
        tCacheIdx2 := if s.accepts i then setOf i.coreMemReq.addr else 0
        tCacheTag2 := if s.accepts i then tagOf i.coreMemReq.addr else 0
        tGotReq := s.fires i
        tGotReq2 := s.accepts i
        nLastWr := s.firesStore i
        nLastWr2 := s.accepts i && i.coreMemReq.isStore
        tGotMiss := s.miss
        tPushMiss := s.pushes i
        tPopMq := s.fires i || s.dropsStore i
        nReq :=
          if s.firesStore i then { s.tMemHead with data := i.coreStoreData.data }
          else if s.firesLoad then s.tMemHead else s.rReq
        nReq2 := if s.accepts i then i.coreMemReq else s.rReq2
        coreMemReqAck := s.accepts i
        coreStoreDataAck := s.firesStore i
        nMemReqValid := (s.evicts || s.refills) && !s.wrConflict
        nMemReqAddr :=
          if s.evicts then lineAddr s.rTagOut s.rCacheIdx
          else if s.refills then
            (if s.wrConflict then lineAddr s.rTagOut s.rCacheIdx else lineOf s.rReq.addr)
          else s.rMemReqAddr
        nMemReqStoreData := if s.evicts then s.tData i else s.rMemReqStoreData
        nMemReqOpcode :=
          if s.evicts then .sw
          else if s.refills then (if s.wrConflict then .sw else .lw)
          else s.rMemReqOpcode
        nCoreMemRspValid := s.answers1 || s.answers2 i
        nCoreMemRsp :=
          let r2 :=
            if s.rGotReq2 then s.rsp2 i (s.dfltCtl i).nCoreMemRsp else (s.dfltCtl i).nCoreMemRsp
          if s.answers1 then s.rsp1 i r2 else r2
        nFlushReq := if s.startsFlush i then false else s.rFlushReq || i.flushReq
        nFlushClReq := if s.startsFlushCl i then false else s.rFlushClReq || i.flushClReq
        nInhibitWrite := if s.miss then s.dirtyMiss else s.rInhibitWrite
        nIsRetry := s.fires i
        tResetGraduated := s.completes1
        tForceClearBusy := s.dropsStore i
        tIncrBusy := s.pushes i && s.rReq2.isStore
        nLockCache :=
          if s.evicts then true else if s.refills then s.wrConflict else s.rLockCache } := by
  unfold activeCtl
  rw [port2_eq, port1_eq, fireHead_eq (by simp [dfltCtl]), accept_eq (by simp [dfltCtl])
    (by simp [dfltCtl])]
  simp [dfltCtl, answers2, fires]

/-! ### The outputs of the whole state machine -/

theorem ctl_active (hs : s.rState = .active) : s.ctl i = s.activeCtl i := by rw [ctl, hs]

/-- What the state machine leaves alone outside ACTIVE. -/
structure Quiet (s : L1d) (c : L1dCtl) : Prop where
  tGotReq2 : c.tGotReq2 = false
  nReq : c.nReq = s.rReq
  nReq2 : c.nReq2 = s.rReq2
  nLastWr2 : c.nLastWr2 = false
  tPushMiss : c.tPushMiss = false
  tPopMq : c.tPopMq = false
  nIsRetry : c.nIsRetry = false
  coreMemReqAck : c.coreMemReqAck = false
  coreStoreDataAck : c.coreStoreDataAck = false
  tResetGraduated : c.tResetGraduated = false
  tForceClearBusy : c.tForceClearBusy = false
  tIncrBusy : c.tIncrBusy = false

theorem quiet (hs : s.rState ≠ .active) : s.Quiet (s.ctl i) := by
  unfold ctl
  cases h : s.rState <;>
    first | exact absurd h hs | skip
  all_goals
    simp only [initCacheCtl, injectReloadCtl, flushClCtl, flushClWaitCtl, flushCacheCtl,
      flushCacheLastWaitCtl, flushCacheWaitCtl]
    (try split_ifs) <;> exact ⟨rfl, rfl, rfl, rfl, rfl, rfl, rfl, rfl, rfl, rfl, rfl, rfl⟩

theorem ctl_request :
    (s.ctl i).tGotReq = (match s.rState with
      | .active => s.fires i
      | .handleReload => s.rReq.isStore || !s.rAckLdEarly
      | _ => false) ∧
    (s.ctl i).nLastWr = (match s.rState with
      | .active => s.firesStore i
      | .handleReload => s.rReq.isStore
      | _ => false) ∧
    (s.ctl i).nDidReload = decide (s.rState = .handleReload) := by
  unfold ctl
  cases s.rState <;>
    simp only [initCacheCtl, activeCtl_eq, injectReloadCtl, handleReloadCtl, flushClCtl,
      flushClWaitCtl, flushCacheCtl, flushCacheLastWaitCtl, flushCacheWaitCtl] <;>
    (try split_ifs) <;> simp [dfltCtl]

theorem ctl_tGotReq :
    (s.ctl i).tGotReq =
      match s.rState with
      | .active => s.fires i
      | .handleReload => s.rReq.isStore || !s.rAckLdEarly
      | _ => false := ctl_request.1

theorem ctl_nLastWr :
    (s.ctl i).nLastWr =
      match s.rState with
      | .active => s.firesStore i
      | .handleReload => s.rReq.isStore
      | _ => false := ctl_request.2.1

theorem ctl_nDidReload : (s.ctl i).nDidReload = decide (s.rState = .handleReload) :=
  ctl_request.2.2

/-- Outside ACTIVE only an early acknowledge of a reloaded load is an answer. -/
theorem ctl_nCoreMemRspValid (hs : s.rState ≠ .active) :
    (s.ctl i).nCoreMemRspValid = (s.ctl i).tAckLdEarly ∧
      (s.ctl i).tAckLdEarly =
        (decide (s.rState = .injectReload) && i.memRspValid &&
          !(s.rReq.isStore || s.rLockCache)) := by
  unfold ctl
  cases h : s.rState <;>
    first | exact absurd h hs | skip
  all_goals
    simp only [initCacheCtl, injectReloadCtl, flushClCtl, flushClWaitCtl, flushCacheCtl,
      flushCacheLastWaitCtl, flushCacheWaitCtl, handleReloadCtl]
    (try split_ifs) <;> simp [dfltCtl, *]

end L1d
end Rv32Core
