import Rv32Core.L1d.Model

/-! # The second-level cache

`l2` is a direct-mapped, write-back cache of 16384 lines of 64 bytes, each kept in four banks of
16 bytes.  It serves the two first-level caches one request at a time and is the only unit that
talks to main memory.  A store is acknowledged when it is granted; a load when its line is there.

As in the data cache, the assignments of the `always_comb` block are functions on the record of
its outputs (`L2Ctl`).  All RAMs have one port, addressed by `t_idx`, and a registered read that
returns the contents before the write of the same cycle.  The statistics counters, the last
addresses and `r_req` are not modelled: nothing depends on them. -/

namespace Rv32Core

/-- A line of main memory and of the second-level cache, 64 bytes. -/
abbrev Block := BitVec 512

/-- A set of the second-level cache, `addr[19:6]`. -/
abbrev L2Idx := BitVec 14

/-- A tag of the second-level cache, `addr[31:20]`. -/
abbrev L2Tag := BitVec 12

/-- A bank of the second-level cache, `addr[5:4]`. -/
abbrev Bank := BitVec 2

/-- `addr[LG_L2_LINES+5:6]`. -/
def l2IdxOf (addr : Word) : L2Idx := addr.extractLsb' 6 14

/-- `addr[31:LG_L2_LINES+6]`. -/
def l2TagOf (addr : Word) : L2Tag := addr.extractLsb' 20 12

/-- `addr[5:4]`. -/
def bankOf (addr : Word) : Bank := addr.extractLsb' 4 2

/-- `{tag, idx, 6'd0}`. -/
def blockAddr (tag : L2Tag) (idx : L2Idx) : Word := tag ++ idx ++ 0#6

/-- `{addr[31:6], 6'd0}`. -/
def blockOf (addr : Word) : Word := addr.extractLsb' 6 26 ++ 0#6

/-- Bank `b` of a block: `[127:0]`, `[255:128]`, `[383:256]`, `[511:384]`. -/
def Block.bank (d : Block) (b : Bank) : Line := d.extractLsb' (128 * b.toNat) 128

/-- `{d3, d2, d1, d0}`. -/
def Block.ofBanks (d : Bank → Line) : Block := d 3 ++ d 2 ++ d 1 ++ d 0

/-! ### Registers and ports -/

/-- `state_t` of the second-level cache. -/
inductive L2State where
  | initialise | idle | checkValidAndTag | cleanReload | dirtyStore | storeTurnaround
  | waitCleanReload | waitStoreIdle | flushStore | flushWait | flushTriage
deriving DecidableEq, Repr

/-- `flush_state_t` of the second-level cache. -/
inductive L2FlushState where
  | waitForFlush | waitForL1FlushDone
deriving DecidableEq, Repr

/-- The registers and RAMs of the second-level cache. -/
structure L2 where
  rState : L2State
  rFlushState : L2FlushState
  rNeedL1i : Bool
  rNeedL1d : Bool
  rFlushReq : Bool
  rFlushComplete : Bool
  -- the request being served
  rIdx : L2Idx
  rTag : L2Tag
  rBank : Bank
  rOpcode : MemOp
  rAddr : Word
  rSaveaddr : Word
  rStoreData : Line
  rReload : Bool
  -- requests and answers of the first level
  rL1dReq : Bool
  rL1iReq : Bool
  rLastGnt : Bool
  rReqAck : Bool
  rL1dRspValid : Bool
  rL1iRspValid : Bool
  rRspData : Line
  -- request to main memory
  rMemReq : Bool
  rMemOpcode : MemOp
  rMemReqStoreData : Block
  -- registered reads of the RAMs
  wD : Bank → Line
  wTag : L2Tag
  wValid : Bool
  wDirty : Bool
  -- RAMs
  dataRam : Bank → L2Idx → Line
  tagRam : L2Idx → L2Tag
  validRam : L2Idx → Bool
  dirtyRam : L2Idx → Bool

/-- The input ports of the second-level cache. -/
structure L2In where
  l1dReq : Bool
  l1iReq : Bool
  l1dAddr : Word
  l1iAddr : Word
  l1dOpcode : MemOp
  l1MemReqStoreData : Line
  l1iFlushReq : Bool
  l1dFlushReq : Bool
  l1iFlushComplete : Bool
  l1dFlushComplete : Bool
  memRspValid : Bool
  memRspLoadData : Block

/-- The signals assigned by the state machine. -/
structure L2Ctl where
  nState : L2State
  nFlushComplete : Bool
  nFlushReq : Bool
  tIdx : L2Idx
  nTag : L2Tag
  nBank : Bank
  nOpcode : MemOp
  nAddr : Word
  nSaveaddr : Word
  nStoreData : Line
  nReload : Bool
  nL1dReq : Bool
  nL1iReq : Bool
  nLastGnt : Bool
  nReqAck : Bool
  nL1dRspValid : Bool
  nL1iRspValid : Bool
  nRspData : Line
  nMemReq : Bool
  nMemOpcode : MemOp
  nMemReqStoreData : Block
  tWrValid : Bool
  tWrDirty : Bool
  tWrTag : Bool
  tWrD : Bank → Bool
  tValid : Bool
  tDirty : Bool
  tD : Bank → Line

namespace L2

variable (s : L2) (i : L2In)

/-! ### The flush handshake with the first level -/

/-- `n_need_l1d` before the `case`. -/
def needL1d : Bool := s.rNeedL1d || i.l1dFlushReq

/-- `n_need_l1i` before the `case`. -/
def needL1i : Bool := s.rNeedL1i || i.l1iFlushReq

def nNeedL1d : Bool :=
  if s.rFlushState = .waitForL1FlushDone && (s.rNeedL1d && i.l1dFlushComplete) then false
  else s.needL1d i

def nNeedL1i : Bool :=
  if s.rFlushState = .waitForL1FlushDone && (s.rNeedL1i && i.l1iFlushComplete) then false
  else s.needL1i i

/-- Both first-level caches have finished: the flush of this cache is requested. -/
def tL2FlushReq : Bool :=
  decide (s.rFlushState = .waitForL1FlushDone) && (!s.nNeedL1d i && !s.nNeedL1i i)

def nFlushState : L2FlushState :=
  match s.rFlushState with
  | .waitForFlush => if s.needL1i i || s.needL1d i then .waitForL1FlushDone else .waitForFlush
  | .waitForL1FlushDone => if s.tL2FlushReq i then .waitForFlush else .waitForL1FlushDone

/-! ### The state machine -/

def wHit : Bool := if s.wValid then s.rTag == s.wTag else false
def wNeedWb : Bool := if s.wValid then s.wDirty else false
def wL1iReq : Bool := s.rL1iReq || i.l1iReq
def wL1dReq : Bool := s.rL1dReq || i.l1dReq

/-- The assignments before the `case`. -/
def dfltCtl : L2Ctl where
  nState := s.rState
  nFlushComplete := false
  nFlushReq := s.rFlushReq || s.tL2FlushReq i
  tIdx := s.rIdx
  nTag := s.rTag
  nBank := s.rBank
  nOpcode := s.rOpcode
  nAddr := s.rAddr
  nSaveaddr := s.rSaveaddr
  nStoreData := s.rStoreData
  nReload := s.rReload
  nL1dReq := s.rL1dReq || i.l1dReq
  nL1iReq := s.rL1iReq || i.l1iReq
  nLastGnt := s.rLastGnt
  nReqAck := false
  nL1dRspValid := false
  nL1iRspValid := false
  nRspData := s.rRspData
  nMemReq := s.rMemReq
  nMemOpcode := s.rMemOpcode
  nMemReqStoreData := s.rMemReqStoreData
  tWrValid := false
  tWrDirty := false
  tWrTag := false
  tWrD _ := false
  tValid := false
  tDirty := false
  tD := i.memRspLoadData.bank

def initialiseCtl : L2Ctl :=
  let c :=
    { s.dfltCtl i with
      tWrValid := true, tWrDirty := true, tWrTag := true, tWrD := fun _ => true
      tIdx := s.rIdx + 1 }
  if s.rIdx = 16383 then { c with nState := .idle, nFlushComplete := true } else c

/-- The instruction side is granted. -/
def grantL1i (c : L2Ctl) : L2Ctl :=
  { c with
    nLastGnt := false
    tIdx := l2IdxOf i.l1iAddr
    nTag := l2TagOf i.l1iAddr
    nBank := bankOf i.l1iAddr
    nAddr := blockOf i.l1iAddr
    nSaveaddr := blockOf i.l1iAddr
    nOpcode := .lw
    nL1iReq := false }

/-- The data side is granted; a store is acknowledged at once. -/
def grantL1d (c : L2Ctl) : L2Ctl :=
  let c :=
    { c with
      nLastGnt := true
      tIdx := l2IdxOf i.l1dAddr
      nTag := l2TagOf i.l1dAddr
      nBank := bankOf i.l1dAddr
      nAddr := blockOf i.l1dAddr
      nSaveaddr := blockOf i.l1dAddr
      nStoreData := i.l1MemReqStoreData
      nOpcode := i.l1dOpcode
      nL1dReq := false }
  if i.l1dOpcode = .sw then { c with nL1dRspValid := true } else c

/-- The instruction side is served next: it asks, and either the data side does not or the data
side was served last. -/
def gntL1i : Bool := s.wL1iReq i && (!s.wL1dReq i || s.rLastGnt)

def idleCtl : L2Ctl :=
  let c := { s.dfltCtl i with tIdx := 0, nOpcode := .lw }
  if c.nFlushReq then { c with nState := .flushWait }
  else if s.wL1dReq i || s.wL1iReq i then
    let c := if s.gntL1i i then grantL1i i c else grantL1d i c
    { c with nReqAck := true, nState := .checkValidAndTag }
  else c

/-- The line is there: the load is answered, the store is written into its bank. -/
def hitCtl : L2Ctl :=
  let c := { s.dfltCtl i with nReload := false }
  match s.rOpcode with
  | .lw =>
      let c := { c with nRspData := s.wD s.rBank, nState := .idle }
      if s.rLastGnt then { c with nL1dRspValid := true } else { c with nL1iRspValid := true }
  | .sw =>
      { c with
        tWrDirty := true
        tDirty := true
        nState := .waitStoreIdle
        tD := Function.update c.tD s.rBank s.rStoreData
        tWrD := Function.update c.tWrD s.rBank true }
  | _ => c

/-- The line is missing: a dirty line in its place is written back first. -/
def missCtl : L2Ctl :=
  let c := s.dfltCtl i
  if s.wDirty then
    { c with
      nMemReqStoreData := Block.ofBanks s.wD
      nAddr := blockAddr s.wTag c.tIdx
      nMemOpcode := .sw
      nMemReq := true
      nState := .dirtyStore }
  else { c with nReload := true, nState := .cleanReload, nMemOpcode := .lw, nMemReq := true }

/-- The condition of the `$stop`: a clean miss although the line has just been loaded. -/
def stops : Bool :=
  decide (s.rState = .checkValidAndTag) && (!s.wHit && (!s.wDirty && s.rReload))

def checkCtl : L2Ctl := if s.wHit then s.hitCtl i else s.missCtl i

def dirtyStoreCtl : L2Ctl :=
  let c := s.dfltCtl i
  if i.memRspValid then
    { c with
      nAddr := s.rSaveaddr, nMemOpcode := .lw, nState := .storeTurnaround, nMemReq := false }
  else c

def cleanReloadCtl : L2Ctl :=
  let c := s.dfltCtl i
  if i.memRspValid then
    { c with
      nMemReq := false
      tValid := true
      tWrValid := true
      tWrTag := true
      tWrD := fun _ => true
      nState := .waitCleanReload }
  else c

/-- The flush is done with the set `r_idx`. -/
def flushNext (c : L2Ctl) : L2Ctl :=
  let c := { c with tIdx := s.rIdx + 1 }
  if s.rIdx = 16383 then
    { c with nState := .idle, nFlushComplete := true, nFlushReq := false }
  else { c with nState := .flushWait }

def flushTriageCtl : L2Ctl :=
  let c := s.dfltCtl i
  if s.wNeedWb then
    { c with
      nMemReqStoreData := Block.ofBanks s.wD
      nAddr := blockAddr s.wTag c.tIdx
      nMemOpcode := .sw
      nMemReq := true
      nState := .flushStore }
  else s.flushNext c

def flushStoreCtl : L2Ctl :=
  let c := s.dfltCtl i
  if i.memRspValid then s.flushNext { c with nMemReq := false } else c

/-- The state machine. -/
def ctl : L2Ctl :=
  match s.rState with
  | .initialise => s.initialiseCtl i
  | .idle => s.idleCtl i
  | .checkValidAndTag => s.checkCtl i
  | .dirtyStore => s.dirtyStoreCtl i
  | .storeTurnaround =>
      { s.dfltCtl i with nState := .cleanReload, nReload := true, nMemReq := true }
  | .cleanReload => s.cleanReloadCtl i
  | .waitCleanReload => { s.dfltCtl i with nState := .checkValidAndTag }
  | .waitStoreIdle => { s.dfltCtl i with nState := .idle }
  | .flushWait => { s.dfltCtl i with nState := .flushTriage, tWrValid := true, tWrDirty := true }
  | .flushTriage => s.flushTriageCtl i
  | .flushStore => s.flushStoreCtl i

/-! ### The clock edge -/

/-- One rising clock edge. -/
def step : L2 :=
  let c := s.ctl i
  { rState := c.nState
    rFlushState := s.nFlushState i
    rNeedL1i := s.nNeedL1i i
    rNeedL1d := s.nNeedL1d i
    rFlushReq := c.nFlushReq
    rFlushComplete := c.nFlushComplete
    rIdx := c.tIdx
    rTag := c.nTag
    rBank := c.nBank
    rOpcode := c.nOpcode
    rAddr := c.nAddr
    rSaveaddr := c.nSaveaddr
    rStoreData := c.nStoreData
    rReload := c.nReload
    rL1dReq := c.nL1dReq
    rL1iReq := c.nL1iReq
    rLastGnt := c.nLastGnt
    rReqAck := c.nReqAck
    rL1dRspValid := c.nL1dRspValid
    rL1iRspValid := c.nL1iRspValid
    rRspData := c.nRspData
    rMemReq := c.nMemReq
    rMemOpcode := c.nMemOpcode
    rMemReqStoreData := c.nMemReqStoreData
    wD := fun b => s.dataRam b c.tIdx
    wTag := s.tagRam c.tIdx
    wValid := s.validRam c.tIdx
    wDirty := s.dirtyRam c.tIdx
    dataRam := fun b => s.dataRam b |> writeIf (c.tWrD b) c.tIdx (c.tD b)
    tagRam := s.tagRam |> writeIf c.tWrTag c.tIdx s.rTag
    validRam := s.validRam |> writeIf c.tWrValid c.tIdx c.tValid
    dirtyRam := s.dirtyRam |> writeIf c.tWrDirty c.tIdx c.tDirty }

end L2

/-- The contents of the registers and memories that reset leaves alone. -/
structure L2PowerUp where
  memReqStoreData : Block
  wD : Bank → Line
  wTag : L2Tag
  wValid : Bool
  wDirty : Bool
  dataRam : Bank → L2Idx → Line
  tagRam : L2Idx → L2Tag
  validRam : L2Idx → Bool
  dirtyRam : L2Idx → Bool

/-- The state after reset. -/
def L2.init (p : L2PowerUp) : L2 where
  rState := .initialise
  rFlushState := .waitForFlush
  rNeedL1i := false
  rNeedL1d := false
  rFlushReq := false
  rFlushComplete := false
  rIdx := 0
  rTag := 0
  rBank := 0
  rOpcode := .lb
  rAddr := 0
  rSaveaddr := 0
  rStoreData := 0
  rReload := false
  rL1dReq := false
  rL1iReq := false
  rLastGnt := false
  rReqAck := false
  rL1dRspValid := false
  rL1iRspValid := false
  rRspData := 0
  rMemReq := false
  rMemOpcode := .lb
  rMemReqStoreData := p.memReqStoreData
  wD := p.wD
  wTag := p.wTag
  wValid := p.wValid
  wDirty := p.wDirty
  dataRam := p.dataRam
  tagRam := p.tagRam
  validRam := p.validRam
  dirtyRam := p.dirtyRam

/-- The second-level cache as a synchronous machine. -/
def l2Machine : Clocked.Machine L2 L2In where
  reset s := ∃ p, s = L2.init p
  step := L2.step

end Rv32Core
