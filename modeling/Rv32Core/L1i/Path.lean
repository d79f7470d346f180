import Rv32Core.Lib.Walk
import Rv32Core.L1i.Requests

/-! # The predicted path

Between a restart and the next restart or flush the instructions pushed into the fetch queue
form the path the predictions describe: they start at the restart pc, each is followed by the
one it predicts, and each carries the word of memory at its pc (`fetch_path`).

The observer `Fetch` remembers the instructions of the current epoch, those the core has taken,
and the request to the lower level that is still open.  The registers that carry the path
through hits, misses, full queues and bubbles are `expectedPc`, the pc of the next instruction
to be pushed, and `r_pc`, which is four bytes further (`Registers`). -/

namespace Rv32Core

open RingBuffer Walk

/-- Where fetch continues behind an instruction. -/
def InsnFetch.nextPc (x : InsnFetch) : Word := if x.pred then x.predTarget else x.pc + 4

/-- The word of memory that contains `pc`. -/
def wordAt (mem : Word → Line) (pc : Word) : Word := selectCl32 (mem (lineOf pc)) (wordIdx pc)

/-! ### The observer -/

/-- What was fetched since a restart. -/
structure Epoch where
  restartPc : Word
  /-- The instructions pushed, one group for each cycle. -/
  groups : List (List InsnFetch)
  /-- The instructions the core has taken. -/
  popped : List InsnFetch

/-- The instructions pushed since the restart. -/
def Epoch.pushed (e : Epoch) : List InsnFetch := e.groups.flatten

/-- The surroundings of the instruction cache as far as they can be seen at its ports: the
memory, the request the lower level has not answered yet, and the current epoch. -/
structure Fetch where
  mem : Word → Line
  asked : Option Word
  epoch : Option Epoch

/-- The ports in one cycle and the memory behind the lower level. -/
structure FetchIn where
  port : L1iIn
  mem : Word → Line

/-- The request that waits for an answer in this cycle. -/
def Fetch.pending (f : Fetch) (s : L1i) : Option Word :=
  if s.rMemReqValid then some s.rMemReqAddr else f.asked

/-- A restart begins an epoch and a flush ends it. -/
def Fetch.next (f : Fetch) (s : L1i) (i : FetchIn) : Fetch where
  mem := i.mem
  asked := if i.port.memRspValid then none else f.pending s
  epoch :=
    if (s.ctl i.port).nRestartAck then some ⟨i.port.restartPc, [], []⟩
    else if (s.ctl i.port).tClearFq then none
    else
      f.epoch.map fun e =>
        { e with groups := e.groups ++ [s.pushed i.port], popped := e.popped ++ s.popped i.port }

/-- The instruction cache with its observer. -/
def fetchMachine : Clocked.Machine (L1i × Fetch) FetchIn where
  reset s := l1iMachine.reset s.1 ∧ s.2.asked = none ∧ s.2.epoch = none
  step s i := (s.1.step i.port, s.2.next s.1 i)

/-- The surroundings: the core takes what is offered, the lower level answers the request with
the line asked for, and the memory changes only while nothing is fetched. -/
structure FetchEnv (s : L1i × Fetch) (i : FetchIn) : Prop where
  acks : s.1.Acks i.port
  answer : i.port.memRspValid = true →
    ∃ a, s.2.pending s.1 = some a ∧ i.port.memRspLoadData = i.mem (lineOf a)
  steady : s.2.epoch.isSome = true → i.mem = s.2.mem

namespace L1i

variable {s : L1i} {i : L1iIn}

/-! ### Registers -/

/-- The pc of the next instruction to be pushed. -/
def expectedPc (s : L1i) : Word :=
  if s.rState = .active then (if s.rReq && !s.rResteerBubble then s.rCachePc else s.rPc)
  else s.rMissPc

/-- `r_pc` runs four bytes ahead of the lookup that is under way or will be repeated. -/
structure Registers (s : L1i) : Prop where
  look : s.rState = .active → s.rReq = true → s.rResteerBubble = false →
    s.rPc = s.rCachePc + 4 ∧ s.rCacheIdx = setOf s.rCachePc ∧ s.rCacheTag = tagOf s.rCachePc
  wait : s.running = true → s.rState ≠ .active → s.rPc = s.rMissPc + 4

theorem rReq_of_tHit (h : s.tHit = true) : s.rReq = true := by
  rw [tHit, Bool.and_eq_true] at h
  exact h.1

theorem rReq_of_tMiss (h : s.tMiss = true) : s.rReq = true := by
  rw [tMiss, Bool.and_eq_true] at h
  exact h.1

theorem Registers.init (p : L1iPowerUp) : (L1i.init p).Registers :=
  ⟨(fun h => by cases h), (fun h => by cases h)⟩

theorem Registers.of_active (hs : (s.ctl i).nState = .active)
    (h : (s.ctl i).nReq = true → (s.ctl i).nResteerBubble = false →
      (s.ctl i).nPc = (s.ctl i).nCachePc + 4 ∧ (s.ctl i).tCacheIdx = setOf (s.ctl i).nCachePc ∧
        (s.ctl i).tCacheTag = tagOf (s.ctl i).nCachePc) : (s.step i).Registers :=
  ⟨fun _ => h, fun _ hn => absurd hs hn⟩

theorem Registers.of_waiting (hs : (s.ctl i).nState ≠ .active)
    (h : (s.ctl i).nState.fetching = true → (s.ctl i).nPc = (s.ctl i).nMissPc + 4) :
    (s.step i).Registers :=
  ⟨fun ha => absurd ha hs, fun hr _ => h hr⟩

theorem Registers.step (h : s.Registers) : (s.step i).Registers := by
  cases s.move i with
  | boot hs hc =>
      refine .of_waiting (by rw [hc]; simp) fun hr => ?_
      rw [hc] at hr
      cases hr
  | initPht hs hc =>
      have hst : (s.ctl i).nState = if s.rInitPhtIdx = 0xffff then .flushCache else .initPht := by
        rw [hc]
      refine .of_waiting ?_ fun hr => ?_
      · rw [hst]
        split_ifs <;> simp
      · rw [hst] at hr
        split_ifs at hr <;> cases hr
  | walk hs hc =>
      have hst : (s.ctl i).nState = if s.rCacheIdx = 4095 then .idle else .flushCache := by
        rw [hc]
      refine .of_waiting ?_ fun hr => ?_
      · rw [hst]
        split_ifs <;> simp
      · rw [hst] at hr
        split_ifs at hr <;> cases hr
  | idle hs hr hc =>
      have hst : (s.ctl i).nState = .idle := by rw [hc, ← hs]; rfl
      exact .of_waiting (by rw [hst]; simp) fun hr => by rw [hst] at hr; cases hr
  | restart c hs hn hr hb hd hc =>
      refine .of_active (by rw [hc]; rfl) fun hq => ?_
      rw [hc] at hq
      cases hq
  | flush c hs hn hf hd hc =>
      have hst : (s.ctl i).nState = .flushCache := by rw [hc]; rfl
      exact .of_waiting (by rw [hst]; simp) fun hr => by rw [hst] at hr; cases hr
  | lookup hs hr hc =>
      refine .of_active (by rw [hc, ← hs]; rfl) fun _ _ => ?_
      rw [hc]
      exact ⟨rfl, rfl, rfl⟩
  | miss hs hb hm hc =>
      refine .of_waiting (by rw [hc]; simp [missCtl]) fun _ => ?_
      rw [hc]
      exact (h.look hs (rReq_of_tMiss hm) hb).1
  | stall hs hb hh hfull hc =>
      refine .of_waiting (by rw [hc]; simp [stallCtl]) fun _ => ?_
      rw [hc]
      exact (h.look hs (rReq_of_tHit hh) hb).1
  | jump hs hb hh hfull hj hc =>
      refine .of_active (by rw [hc, ← hs]; rfl) fun _ hn => ?_
      rw [hc] at hn
      cases hn
  | push n hs hb hh hj hp hc =>
      obtain ⟨hpc, hidx, -⟩ := h.look hs (rReq_of_tHit hh) hb
      have hadv := hp.next hpc hidx
      exact .of_active (by rw [hc, s.pushCtl_frame L1iCtl.nState, ← hs]; rfl) fun _ _ =>
        ⟨hadv.nPc, hadv.tCacheIdx, hadv.tCacheTag⟩
  | reload hs hc =>
      have hst : (s.ctl i).nState =
          if i.memRspValid then .reloadTurnaround else .injectReload := by rw [hc]
      refine .of_waiting ?_ fun _ => ?_
      · rw [hst]
        split_ifs <;> simp
      · rw [hc]
        exact h.wait (by rw [running, hs]; rfl) (by rw [hs]; simp)
  | hold hs hfull pc hc =>
      have hst : (s.ctl i).nState = s.rState := by rw [hc]; rfl
      have hn : s.rState ≠ .active := by rcases hs with hs | hs <;> rw [hs] <;> simp
      refine .of_waiting (by rw [hst]; exact hn) fun hr => ?_
      rw [hst] at hr
      rw [hc]
      exact h.wait hr hn
  | resume hs hfull hc =>
      refine .of_active (by rw [hc]) fun _ _ => ?_
      rw [hc]
      refine ⟨?_, rfl, rfl⟩
      rcases hs with hs | hs <;> exact h.wait (by rw [running, hs]; rfl) (by rw [hs]; simp)

/-! ### Lines -/

/-- The line and the classes at an index are those of memory. -/
def LineOk (mem : Word → Line) (tag : Tag) (set : SetIdx) (line : Line) (pd : BitVec 16) : Prop :=
  line = mem (lineAddr tag set) ∧ pd = predecodeLine line

/-- What the valid lines hold: the memory while instructions are fetched; a flush leaves no
valid line behind. -/
structure LinesOk (s : L1i) (mem : Word → Line) : Prop where
  lines : s.running = true → ∀ j, s.validArray j = true →
    LineOk mem (s.tagArray j) j (s.insnArray j) (s.pdData j)
  out : s.running = true → s.rValidOut = true →
    LineOk mem s.rTagOut s.rCacheIdx s.rArrayOut s.rJumpOut
  idle : s.rState = .idle → ∀ j, s.validArray j = false
  walk : s.rState = .flushCache → ∀ j, j < s.rCacheIdx → s.validArray j = false

theorem nState_idle (h : (s.ctl i).nState = .idle) :
    s.rState = .idle ∨ (s.rState = .flushCache ∧ s.rCacheIdx = 4095) := by
  cases s.move i with
  | idle hs hr hc => exact .inl hs
  | walk hs hc =>
      rw [hc] at h
      by_cases he : s.rCacheIdx = 4095
      · exact .inr ⟨hs, he⟩
      · rw [show _ = L1iState.flushCache from if_neg he] at h
        cases h
  | push n hs hb hh hj hp hc =>
      rw [hc, s.pushCtl_frame L1iCtl.nState] at h
      exact .inl h
  | initPht hs hc | reload hs hc =>
      rw [hc] at h
      simp only at h
      split_ifs at h
  | hold hs hfull pc hc =>
      rw [hc] at h
      exact .inl h
  | lookup hs hr hc | jump hs hb hh hfull hj hc =>
      rw [hc] at h
      exact .inl h
  | boot hs hc | restart c hs hn hr hb hd hc | flush c hs hn hf hd hc | miss hs hb hm hc
  | stall hs hb hh hfull hc | resume hs hfull hc =>
      rw [hc] at h
      cases h

theorem nState_flushCache (h : (s.ctl i).nState = .flushCache) :
    (s.ctl i).tCacheIdx = 0 ∨
      (s.rState = .flushCache ∧ s.rCacheIdx ≠ 4095 ∧ (s.ctl i).tCacheIdx = s.rCacheIdx + 1) := by
  cases s.move i with
  | walk hs hc =>
      by_cases he : s.rCacheIdx = 4095
      · rw [hc, show _ = L1iState.idle from if_pos he] at h
        cases h
      · exact .inr ⟨hs, he, by rw [hc]⟩
  | flush c hs hn hf hd hc =>
      rw [hc]
      exact .inl rfl
  | initPht hs hc =>
      rw [hc]
      exact .inl rfl
  | push n hs hb hh hj hp hc =>
      rw [hc, s.pushCtl_frame L1iCtl.nState] at h
      exact absurd (hs.symm.trans h) (by simp)
  | reload hs hc =>
      rw [hc] at h
      simp only at h
      split_ifs at h
  | hold hs hfull pc hc =>
      rw [hc] at h
      have h' : s.rState = .flushCache := h
      rcases hs with hs | hs <;> rw [hs] at h' <;> cases h'
  | idle hs hr hc | lookup hs hr hc | jump hs hb hh hfull hj hc =>
      rw [hc] at h
      have h' : s.rState = .flushCache := h
      rw [hs] at h'
      cases h'
  | boot hs hc | restart c hs hn hr hb hd hc | miss hs hb hm hc
  | stall hs hb hh hfull hc | resume hs hfull hc =>
      rw [hc] at h
      cases h

theorem nValidArray_walk (hs : s.rState = .flushCache) (hm : i.memRspValid = false) (j : SetIdx) :
    s.nValidArray i j = (s.validArray j && decide (j ≠ s.rCacheIdx)) := by
  by_cases hj : j = s.rCacheIdx <;> simp [nValidArray, hs, hm, writeIf_apply, hj]

theorem nValidArray_quiet (hs : s.rState ≠ .flushCache) (hm : i.memRspValid = false) :
    s.nValidArray i = s.validArray := by
  simp [nValidArray, hs, hm]

theorem LinesOk.fill {mem : Word → Line} (h : s.LinesOk mem) (hr : s.running = true)
    (ha : i.memRspValid = true → i.memRspLoadData = mem (lineOf s.rMemReqAddr)) (j : SetIdx)
    (hv : s.nValidArray i j = true) :
    LineOk mem (s.nTagArray i j) j (s.nInsnArray i j) (s.nPdData i j) := by
  have hn : s.rState ≠ .flushCache := fun he => by
    rw [running, he] at hr
    cases hr
  unfold nTagArray nInsnArray nPdData
  cases hm : i.memRspValid
  · rw [nValidArray_quiet hn hm] at hv
    exact h.lines hr j hv
  · by_cases hj : j = setOf s.rMemReqAddr
    · subst hj
      simp only [writeIf_true, Function.update_self, ha hm]
      exact ⟨by rw [lineAddr_eq_lineOf], rfl⟩
    · have hv' : s.validArray j = true := by
        simpa [nValidArray, hm, writeIf_apply, hj] using hv
      simp only [writeIf_of_ne _ _ _ hj]
      exact h.lines hr j hv'

theorem LinesOk.step {mem mem' : Word → Line} (h : s.LinesOk mem)
    (hmem : s.running = true → mem' = mem)
    (ha : i.memRspValid = true →
      s.rState = .injectReload ∧ i.memRspLoadData = mem' (lineOf s.rMemReqAddr)) :
    (s.step i).LinesOk mem' := by
  -- what begins to fetch was idle, with no valid line
  have hidle : s.running = false → (s.step i).running = true → s.rState = .idle := fun hr hr' => by
    rw [running_step, hr, Bool.false_and, Bool.or_false] at hr'
    rcases (restartAck_spec hr').1 with hs | hs
    · exact hs
    · rw [hr] at hs
      cases hs
  have hquiet : s.rState ≠ .injectReload → i.memRspValid = false := fun hs =>
    Bool.not_eq_true _ ▸ fun hm => hs (ha hm).1
  constructor
  · intro hr' j hv
    cases hr : s.running
    · have hs := hidle hr hr'
      have hv' : s.nValidArray i j = true := hv
      rw [nValidArray_quiet (by rw [hs]; simp) (hquiet (by rw [hs]; simp)), h.idle hs] at hv'
      cases hv'
    · rw [hmem hr] at ha ⊢
      exact h.fill hr (fun hm => (ha hm).2) j hv
  · intro hr' hv
    have hv' : s.validArray (s.ctl i).tCacheIdx = true := hv
    cases hr : s.running
    · rw [h.idle (hidle hr hr')] at hv'
      cases hv'
    · rw [hmem hr]
      exact h.lines hr _ hv'
  · intro hs' j
    rcases nState_idle hs' with hs | ⟨hs, hlast⟩
    · rw [show (s.step i).validArray = s.nValidArray i from rfl,
        nValidArray_quiet (by rw [hs]; simp) (hquiet (by rw [hs]; simp)), h.idle hs]
    · rw [show (s.step i).validArray = s.nValidArray i from rfl,
        nValidArray_walk hs (hquiet (by rw [hs]; simp))]
      by_cases hj : j = s.rCacheIdx
      · simp [hj]
      · rw [h.walk hs j, Bool.false_and]
        rw [hlast] at hj ⊢
        have hlt := j.isLt
        have hne : j.toNat ≠ 4095 := fun he => hj (BitVec.eq_of_toNat_eq he)
        rw [BitVec.lt_def]
        show j.toNat < 4095
        omega
  · intro hs' j hj
    have hj' : j < (s.ctl i).tCacheIdx := hj
    rcases nState_flushCache hs' with hz | ⟨hs, hlast, hnext⟩
    · rw [hz] at hj'
      exact absurd hj' (BitVec.not_lt_zero)
    · rw [hnext] at hj'
      rw [show (s.step i).validArray = s.nValidArray i from rfl,
        nValidArray_walk hs (hquiet (by rw [hs]; simp))]
      by_cases he : j = s.rCacheIdx
      · simp [he]
      · rw [h.walk hs j, Bool.false_and]
        have hne : j.toNat ≠ s.rCacheIdx.toNat := fun h' => he (BitVec.eq_of_toNat_eq h')
        rw [BitVec.lt_def, BitVec.toNat_add, show (1 : SetIdx).toNat = 1 from rfl] at hj'
        rw [BitVec.lt_def]
        have hlt := s.rCacheIdx.isLt
        omega

/-! ### Requests -/

/-- A request is open exactly in INJECT_RELOAD. -/
def Asked (s : L1i) (f : Fetch) : Prop :=
  f.pending s = if s.rState = .injectReload then some s.rMemReqAddr else none

theorem Asked.step {f : Fetch} {i : FetchIn} (h : s.Asked f) :
    (s.step i.port).Asked (f.next s i) := by
  unfold Asked at h ⊢
  have hno : s.rState ≠ .injectReload → (f.next s i).asked = none := fun hs => by
    rw [if_neg hs] at h
    show (if i.port.memRspValid then none else f.pending s) = none
    rw [h, ite_self]
  have hpend : (f.next s i).pending (s.step i.port) =
      if (s.ctl i.port).nMemReqValid then some (s.ctl i.port).nMemReqAddr
      else (f.next s i).asked := rfl
  have hst : (s.step i.port).rState = (s.ctl i.port).nState := rfl
  have haddr : (s.step i.port).rMemReqAddr = (s.ctl i.port).nMemReqAddr := rfl
  have hquiet : s.rState ≠ .injectReload → (s.ctl i.port).nMemReqValid = false →
      (s.ctl i.port).nState ≠ .injectReload →
      (f.next s i).pending (s.step i.port) =
        if (s.step i.port).rState = .injectReload then some (s.step i.port).rMemReqAddr
        else none := fun hs hv hn => by
    rw [hpend, hv, hst, if_neg hn, hno hs]
    rfl
  cases s.move i.port with
  | miss hs hb hm hc =>
      rw [hpend, hst, haddr, hc]
      rfl
  | reload hs hc =>
      rw [hpend, hst, haddr, hc]
      show (if i.port.memRspValid then none else f.pending s) = _
      rw [h, if_pos hs]
      cases i.port.memRspValid <;> rfl
  | push n hs hb hh hj hp hc =>
      refine hquiet (by rw [hs]; simp) ?_ ?_
      · rw [hc, s.pushCtl_frame L1iCtl.nMemReqValid]
        rfl
      · rw [hc, s.pushCtl_frame L1iCtl.nState, show L1iCtl.nState _ = s.rState from rfl, hs]
        simp
  | initPht hs hc | walk hs hc =>
      refine hquiet (by rw [hs]; simp) (by rw [hc]; rfl) ?_
      rw [hc]
      simp only
      split_ifs <;> simp
  | hold hs hfull pc hc =>
      have hn : s.rState ≠ .injectReload := by rcases hs with hs | hs <;> rw [hs] <;> simp
      exact hquiet hn (by rw [hc]; rfl) (by rw [hc]; exact hn)
  | resume hs hfull hc =>
      have hn : s.rState ≠ .injectReload := by rcases hs with hs | hs <;> rw [hs] <;> simp
      exact hquiet hn (by rw [hc]; rfl) (by rw [hc]; simp)
  | idle hs hr hc | lookup hs hr hc | jump hs hb hh hfull hj hc =>
      have hn : s.rState ≠ .injectReload := by rw [hs]; simp
      exact hquiet hn (by rw [hc]; rfl) (by rw [hc]; exact hn)
  | boot hs hc | stall hs hb hh hfull hc =>
      exact hquiet (by rw [hs]; simp) (by rw [hc]; rfl) (by rw [hc]; simp [stallCtl])
  | restart c hs hn hr hb hd hc | flush c hs hn hf hd hc =>
      exact hquiet hn (by rw [hc]; exact hd.memReq) (by rw [hc]; simp [restartCtl, flushCtl])

/-! ### The instructions of one cycle -/

theorem hit_line {mem : Word → Line} (hl : s.LinesOk mem) (hg : s.Registers)
    (hs : s.rState = .active) (hb : s.rResteerBubble = false) (hh : s.tHit = true) :
    s.rArrayOut = mem (lineOf s.rCachePc) ∧ s.rJumpOut = predecodeLine s.rArrayOut := by
  obtain ⟨-, hidx, htag⟩ := hg.look hs (rReq_of_tHit hh) hb
  simp only [tHit, Bool.and_eq_true, beq_iff_eq] at hh
  obtain ⟨h1, h2⟩ := hl.out (running_of_active hs) hh.2.1
  rw [hh.2.2, htag, hidx, lineAddr_eq_lineOf] at h1
  exact ⟨h1, h2⟩

theorem extract_fields (a b c d : BitVec 4) :
    (d ++ c ++ b ++ a).extractLsb' 0 4 = a ∧ (d ++ c ++ b ++ a).extractLsb' 4 4 = b ∧
      (d ++ c ++ b ++ a).extractLsb' 8 4 = c ∧ (d ++ c ++ b ++ a).extractLsb' 12 4 = d := by
  refine ⟨?_, ?_, ?_, ?_⟩
  all_goals
    ext k hk
    rw [BitVec.getElem_extractLsb']
    simp only [BitVec.getLsbD_append]
    have hk' : k = 0 ∨ k = 1 ∨ k = 2 ∨ k = 3 := by omega
    rcases hk' with rfl | rfl | rfl | rfl <;> rfl

theorem selectPd_predecodeLine (cl : Line) (j : BitVec 2) :
    selectPd (predecodeLine cl) j = predecode (selectCl32 cl j) := by
  have hj : j = 0 ∨ j = 1 ∨ j = 2 ∨ j = 3 := by revert j; decide
  obtain ⟨h0, h1, h2, h3⟩ := extract_fields (predecode (selectCl32 cl 0))
    (predecode (selectCl32 cl 1)) (predecode (selectCl32 cl 2)) (predecode (selectCl32 cl 3))
  rcases hj with rfl | rfl | rfl | rfl
  · exact h0
  · exact h1
  · exact h2
  · exact h3

theorem candidates_getElem {j : ℕ} (hj : j < (s.candidates i).length) :
    (s.candidates i)[j].pc = s.rCachePc + BitVec.ofNat 32 (4 * j) ∧
      (s.candidates i)[j].data = selectCl32 s.rArrayOut (s.tInsnIdx + BitVec.ofNat 2 j) := by
  have h4 : j < 4 := hj
  have hj' : j = 0 ∨ j = 1 ∨ j = 2 ∨ j = 3 := by omega
  rcases hj' with rfl | rfl | rfl | rfl <;>
    simp [candidates, tInsn, tInsn2, tInsn3, tInsn4, tInsnData, tInsnData2, tInsnData3, tInsnData4]

theorem pushed_getElem {j : ℕ} (hj : j < (s.pushed i).length) :
    ∃ n, s.Delivers i n ∧ j < n ∧ (s.pushed i)[j].pc = s.rCachePc + BitVec.ofNat 32 (4 * j) ∧
      (s.pushed i)[j].data = selectCl32 s.rArrayOut (s.tInsnIdx + BitVec.ofNat 2 j) := by
  rcases s.silent_or_delivers i with h | ⟨n, h⟩
  · rw [pushed_of_silent h] at hj
    cases hj
  · have hlen := length_pushed (h.nPushed_eq.symm ▸ h.le)
    rw [h.nPushed_eq] at hlen
    have hc : j < (s.candidates i).length := lt_of_lt_of_le hj (List.length_take_le' _ _)
    have hget : (s.pushed i)[j] = (s.candidates i)[j] := List.getElem_take
    rw [hget]
    exact ⟨n, h, hlen ▸ hj, candidates_getElem _⟩

/-- A pushed instruction carries the word of memory at its pc. -/
theorem pushed_words {mem : Word → Line} (hl : s.LinesOk mem) (hg : s.Registers) {x : InsnFetch}
    (hx : x ∈ s.pushed i) : x.data = wordAt mem x.pc := by
  obtain ⟨j, hj, rfl⟩ := List.mem_iff_getElem.mp hx
  obtain ⟨n, hd, hjn, hpc, hdata⟩ := pushed_getElem hj
  have hin : (wordIdx s.rCachePc).toNat + n ≤ 4 := hd.inLine
  rw [hdata, hpc, wordAt, lineOf_add _ (by omega), wordIdx_add _ (by omega),
    (hit_line hl hg hd.active hd.steady hd.hit).1]
  rfl

theorem pushed_of_delivers {n : ℕ} (h : s.Delivers i n) : ∃ l, s.pushed i = s.tInsn i :: l := by
  obtain ⟨k, hk⟩ := Nat.exists_eq_succ_of_ne_zero (show n ≠ 0 by have := h.pos; omega)
  have he : s.pushed i = (s.candidates i).take (k + 1) := by rw [pushed, h.nPushed_eq, hk]
  exact ⟨_, he⟩

theorem pushed_plain
    (hl : s.rState = .active → s.rResteerBubble = false → s.tHit = true →
      s.rJumpOut = predecodeLine s.rArrayOut) {x : InsnFetch}
    (hx : x ∈ (s.pushed i).tail) : predecode x.data = 0 := by
  obtain ⟨j, hj, rfl⟩ := List.mem_iff_getElem.mp hx
  rw [List.getElem_tail]
  obtain ⟨n, hd, hjn, -, hdata⟩ := pushed_getElem (s := s) (i := i) (j := j + 1)
    (by rw [List.length_tail] at hj; omega)
  rw [hdata, ← selectPd_predecodeLine, ← hl hd.active hd.steady hd.hit]
  exact hd.clear _ (by omega) hjn

/-- Only the first of the instructions pushed together can be a branch. -/
theorem pushed_straight {mem : Word → Line} (hl : s.LinesOk mem) (hg : s.Registers) {x : InsnFetch}
    (hx : x ∈ (s.pushed i).tail) : predecode x.data = 0 :=
  pushed_plain (fun hs hb hh => (hit_line hl hg hs hb hh).2) hx

/-- **The path goes on.**  The instructions pushed in a cycle lead from the pc expected before
it to the pc expected after it. -/
theorem pushed_walk (hg : s.Registers) (hr : s.running = true)
    (hclr : (s.ctl i).tClearFq = false) :
    IsWalk InsnFetch.pc InsnFetch.nextPc s.expectedPc (s.pushed i) (s.step i).expectedPc := by
  have he : (s.step i).expectedPc = if (s.ctl i).nState = .active then
      (if (s.ctl i).nReq && !(s.ctl i).nResteerBubble then (s.ctl i).nCachePc
        else (s.ctl i).nPc) else (s.ctl i).nMissPc := rfl
  have hstay : (s.ctl i).Silent → s.expectedPc = (s.step i).expectedPc →
      IsWalk InsnFetch.pc InsnFetch.nextPc s.expectedPc (s.pushed i) (s.step i).expectedPc :=
    fun hd heq => by
      rw [pushed_of_silent hd, heq]
      exact .nil _
  have hlook : s.rState = .active → s.rReq = true → s.rResteerBubble = false →
      s.expectedPc = s.rCachePc := fun hs hq hb => by
    rw [expectedPc, if_pos hs, hq, hb]
    rfl
  have hwait : s.rState ≠ .active → s.expectedPc = s.rMissPc := fun hs => by
    rw [expectedPc, if_neg hs]
  cases s.move i with
  | boot hs hc | initPht hs hc | walk hs hc | idle hs hr' hc =>
      rw [running, hs] at hr
      cases hr
  | restart c hs hn hr' hb hd hc | flush c hs hn hf hd hc =>
      rw [hc] at hclr
      cases hclr
  | lookup hs hq hc =>
      refine hstay (by rw [hc]; exact (s.lookupCtl_plain i).toSilent) ?_
      rw [he, hc, if_pos (show (s.lookupCtl i).nState = .active from hs), expectedPc, if_pos hs]
      rcases hq with hq | hq <;> rw [hq] <;> simp [lookupCtl, dfltCtl]
  | miss hs hb hm hc =>
      refine hstay (by rw [hc]; exact ⟨rfl, rfl, rfl, rfl, rfl, rfl, rfl, rfl⟩) ?_
      rw [hlook hs (rReq_of_tMiss hm) hb, he, hc]
      rfl
  | stall hs hb hh hfull hc =>
      refine hstay (by rw [hc]; exact ⟨rfl, rfl, rfl, rfl, rfl, rfl, rfl, rfl⟩) ?_
      rw [hlook hs (rReq_of_tHit hh) hb, he, hc]
      rfl
  | reload hs hc =>
      refine hstay (by rw [hc]; exact ⟨rfl, rfl, rfl, rfl, rfl, rfl, rfl, rfl⟩) ?_
      rw [hwait (by rw [hs]; simp), he, hc, if_neg]
      · rfl
      · simp only
        split_ifs <;> simp
  | hold hs hfull pc hc =>
      have hn : s.rState ≠ .active := by rcases hs with hs | hs <;> rw [hs] <;> simp
      refine hstay (by rw [hc]; exact ⟨rfl, rfl, rfl, rfl, rfl, rfl, rfl, rfl⟩) ?_
      rw [hwait hn, he, hc, if_neg]
      · rfl
      · exact hn
  | resume hs hfull hc =>
      have hn : s.rState ≠ .active := by rcases hs with hs | hs <;> rw [hs] <;> simp
      refine hstay (by rw [hc]; exact ⟨rfl, rfl, rfl, rfl, rfl, rfl, rfl, rfl⟩) ?_
      rw [hwait hn, he, hc]
      rfl
  | jump hs hb hh hfull hj hc =>
      have hn : s.nPushed i = 1 := Pushes.nPushed_eq (hc ▸ jumpCtl_pushes s hfull)
      rw [hlook hs (rReq_of_tHit hh) hb, pushed, hn, he, hc,
        if_pos (show (s.jumpCtl i).nState = .active from hs)]
      refine ⟨rfl, ?_⟩
      show InsnFetch.nextPc (s.tInsn i) = s.jumpTarget
      rw [InsnFetch.nextPc, tInsn, hc]
      rfl
  | push n hs hb hh hj hp hc =>
      obtain ⟨hpc, hidx, -⟩ := hg.look hs (rReq_of_tHit hh) hb
      have hadv := hp.next hpc hidx
      have hn := hp.nPushed_eq
      have hst : (s.ctl i).nState = .active := by
        rw [hc, s.pushCtl_frame L1iCtl.nState]
        exact hs
      have hq : ((s.ctl i).nReq && !(s.ctl i).nResteerBubble) = true := by
        rw [hc, s.pushCtl_frame L1iCtl.nReq, s.pushCtl_frame L1iCtl.nResteerBubble]
        rfl
      have hfirst : InsnFetch.nextPc (s.tInsn i) = s.rCachePc + 4 := by
        rw [InsnFetch.nextPc, tInsn, hc, s.pushCtl_frame L1iCtl.tTakeBr]
        rfl
      rw [hlook hs (rReq_of_tHit hh) hb, pushed, hn, he, if_pos hst, if_pos hq, hadv.nCachePc]
      have h0 := hp.pos
      have h4 := hp.le
      have hn' : n = 1 ∨ n = 2 ∨ n = 3 ∨ n = 4 := by omega
      have hsecond : s.tInsn2.nextPc = s.rCachePc + 8 := BitVec.add_assoc _ _ _
      have hthird : s.tInsn3.nextPc = s.rCachePc + 12 := BitVec.add_assoc _ _ _
      have hfourth : s.tInsn4.nextPc = s.rCachePc + 16 := BitVec.add_assoc _ _ _
      rcases hn' with rfl | rfl | rfl | rfl
      · exact ⟨rfl, hfirst⟩
      · exact ⟨rfl, hfirst.symm, hsecond⟩
      · exact ⟨rfl, hfirst.symm, hsecond.symm, hthird⟩
      · exact ⟨rfl, hfirst.symm, hsecond.symm, hthird.symm, hfourth⟩

end L1i

/-! ### Epochs -/

variable {s : L1i} {f : Fetch} {i : FetchIn}

/-- What holds of the instructions of an epoch. -/
structure Epoch.Ok (e : Epoch) (s : L1i) (mem : Word → Line) : Prop where
  walk : IsWalk InsnFetch.pc InsnFetch.nextPc e.restartPc e.pushed s.expectedPc
  words : ∀ x ∈ e.pushed, x.data = wordAt mem x.pc
  straight : ∀ g ∈ e.groups, ∀ x ∈ g.tail, predecode x.data = 0
  queue : e.pushed = e.popped ++ s.fqView
  ptrs : s.FqPtrs

/-- The invariant of the instruction cache and its observer. -/
structure PathInv (s : L1i) (f : Fetch) : Prop where
  asked : s.Asked f
  registers : s.Registers
  lines : s.LinesOk f.mem
  running : f.epoch.isSome = s.running
  epoch : ∀ e, f.epoch = some e → e.Ok s f.mem

theorem Epoch.Ok.restart (h : (s.ctl i.port).nRestartAck = true) :
    Epoch.Ok ⟨i.port.restartPc, [], []⟩ (s.step i.port) i.mem := by
  obtain ⟨-, -, hclr, hst, hq, -, hpc⟩ := L1i.restartAck_spec h
  have he : (s.step i.port).expectedPc = i.port.restartPc := by
    show (if (s.ctl i.port).nState = .active then
      (if (s.ctl i.port).nReq && !(s.ctl i.port).nResteerBubble then (s.ctl i.port).nCachePc
        else (s.ctl i.port).nPc) else (s.ctl i.port).nMissPc) = i.port.restartPc
    rw [if_pos hst, hq, hpc]
    rfl
  constructor
  · exact he.symm
  · intro x hx
    cases hx
  · intro g hg
    cases hg
  · exact (L1i.fqView_clear hclr).symm
  · exact .of_clear hclr

theorem Epoch.pushed_step (e : Epoch) (g : List InsnFetch) (p : List InsnFetch) :
    Epoch.pushed { e with groups := e.groups ++ [g], popped := p } = e.pushed ++ g := by
  simp [Epoch.pushed]

/-- The walk, the queue and what every instruction pushed satisfies over one cycle of an epoch. -/
theorem Epoch.step {e e' : Epoch} {p : InsnFetch → Prop}
    (he : e' = { e with groups := e.groups ++ [s.pushed i.port],
                        popped := e.popped ++ s.popped i.port })
    (hw : IsWalk InsnFetch.pc InsnFetch.nextPc e.restartPc e.pushed s.expectedPc)
    (hall : ∀ x ∈ e.pushed, p x) (hnew : ∀ x ∈ s.pushed i.port, p x)
    (hq : e.pushed = e.popped ++ s.fqView) (hptrs : s.FqPtrs) (hg : s.Registers)
    (hr : s.running = true) (ha : s.Acks i.port) (hclr : (s.ctl i.port).tClearFq = false) :
    IsWalk InsnFetch.pc InsnFetch.nextPc e'.restartPc e'.pushed (s.step i.port).expectedPc ∧
      (∀ x ∈ e'.pushed, p x) ∧ e'.pushed = e'.popped ++ (s.step i.port).fqView := by
  subst he
  rw [Epoch.pushed_step]
  refine ⟨hw.append (L1i.pushed_walk hg hr hclr), fun x hx => ?_, ?_⟩
  · rcases List.mem_append.mp hx with hx | hx
    · exact hall x hx
    · exact hnew x hx
  · rw [hq, List.append_assoc, List.append_assoc, L1i.fqView_step hptrs ha hclr]

theorem Epoch.Ok.step {e : Epoch} {mem : Word → Line} (h : e.Ok s mem) (hl : s.LinesOk mem)
    (hg : s.Registers) (hr : s.running = true) (ha : s.Acks i.port)
    (hclr : (s.ctl i.port).tClearFq = false) :
    Epoch.Ok { e with groups := e.groups ++ [s.pushed i.port], popped := e.popped ++ s.popped i.port }
      (s.step i.port) mem := by
  obtain ⟨hwalk, hwords, hqueue⟩ := Epoch.step rfl h.walk h.words
    (fun _ hx => L1i.pushed_words hl hg hx) h.queue h.ptrs hg hr ha hclr
  refine ⟨hwalk, hwords, fun g hgr x hx => ?_, hqueue, h.ptrs.step ha⟩
  rcases List.mem_append.mp hgr with hgr | hgr
  · exact h.straight g hgr x hx
  · rw [List.mem_singleton.mp hgr] at hx
    exact L1i.pushed_straight hl hg hx

theorem PathInv.init {p : L1iPowerUp} (ha : f.asked = none) (he : f.epoch = none) :
    PathInv (L1i.init p) f := by
  constructor
  · show f.asked = none
    exact ha
  · exact .init p
  · exact ⟨(fun h => by cases h), (fun h => by cases h), (fun h => by cases h),
      (fun h => by cases h)⟩
  · rw [he]
    rfl
  · intro e h
    rw [he] at h
    cases h

theorem PathInv.step (h : PathInv s f) (he : FetchEnv (s, f) i) :
    PathInv (s.step i.port) (f.next s i) := by
  have hanswer : i.port.memRspValid = true →
      s.rState = .injectReload ∧ i.port.memRspLoadData = i.mem (lineOf s.rMemReqAddr) := fun hm => by
    obtain ⟨a, hp, hd⟩ := he.answer hm
    rw [show f.pending s = _ from h.asked] at hp
    split_ifs at hp with hs
    obtain rfl := Option.some.inj hp
    exact ⟨hs, hd⟩
  have hmem : s.running = true → i.mem = f.mem := fun hr => he.steady (h.running.trans hr)
  constructor
  · exact h.asked.step
  · exact h.registers.step
  · exact h.lines.step hmem hanswer
  · rw [L1i.running_step, ← h.running]
    cases hack : (s.ctl i.port).nRestartAck <;> cases hclr : (s.ctl i.port).tClearFq <;>
      simp [Fetch.next, hack, hclr]
  · intro e' hnext
    cases hack : (s.ctl i.port).nRestartAck
    case true =>
      obtain rfl : _ = e' := Option.some.inj ((if_pos hack).symm.trans hnext)
      exact .restart hack
    cases hclr : (s.ctl i.port).tClearFq
    case true =>
      simp [Fetch.next, hack, hclr] at hnext
    have hmap : (f.next s i).epoch = f.epoch.map fun e =>
        { e with groups := e.groups ++ [s.pushed i.port], popped := e.popped ++ s.popped i.port } := by
      simp [Fetch.next, hack, hclr]
    obtain ⟨e, hfe, rfl⟩ := Option.map_eq_some_iff.mp (hmap ▸ hnext)
    have hr : s.running = true := by rw [← h.running, hfe]; rfl
    have hok := h.epoch e hfe
    rw [← hmem hr] at hok
    have hl := h.lines
    rw [← hmem hr] at hl
    exact hok.step hl h.registers hr he.acks hclr

theorem reach_pathInv {x : L1i × Fetch} (h : fetchMachine.Reach FetchEnv x) :
    PathInv x.1 x.2 := by
  refine h.invariant (P := fun x : L1i × Fetch => PathInv x.1 x.2) ?_ fun x i hi he => hi.step he
  rintro ⟨s, f⟩ ⟨⟨p, rfl⟩, ha, he⟩
  exact .init ha he

/-- **The fetch queue carries a gap-free predicted path.**  Since the last restart the
instructions pushed form a walk from the restart pc along the predictions, each is the word of
memory at its pc, only the first of those pushed together can be a branch, those the core has
not taken are in the queue, and what is pushed next finds room behind them. -/
theorem fetch_path {s : L1i} {f : Fetch} (h : fetchMachine.Reach FetchEnv (s, f)) {e : Epoch}
    (he : f.epoch = some e) :
    (∃ q, IsWalk InsnFetch.pc InsnFetch.nextPc e.restartPc e.pushed q) ∧
      (∀ x ∈ e.pushed, x.data = wordAt f.mem x.pc) ∧
      (∀ g ∈ e.groups, ∀ x ∈ g.tail, predecode x.data = 0) ∧
      e.pushed = e.popped ++ s.fqView ∧ ∀ i, s.fqView.length + (s.pushed i).length ≤ 8 := by
  have ho := (reach_pathInv h).epoch e he
  refine ⟨⟨_, ho.walk⟩, ho.words, ho.straight, ho.queue, fun i => ?_⟩
  have hf := s.fits i
  rw [L1i.fqView, contents_length, L1i.length_pushed hf.le]
  exact hf.room ho.ptrs

/-- A line with three additions and a jump back to the first. -/
def loopLine : Line := 0xff5ff06f#32 ++ 0x00100193#32 ++ 0x00100113#32 ++ 0x00100093#32

/-- A cycle with nothing but the loop in memory. -/
def FetchIn.loop (port : L1iIn) : FetchIn := ⟨port, fun _ => loopLine⟩

/-- Restart at 0, fill the line and fetch the loop; the core takes the first instruction. -/
def loopInputs : List FetchIn :=
  [.loop { L1iIn.idle with restartValid := true }, .loop L1iIn.idle, .loop L1iIn.idle,
   .loop { L1iIn.idle with memRspValid := true, memRspLoadData := loopLine }, .loop L1iIn.idle,
   .loop L1iIn.idle, .loop { L1iIn.idle with insnAck := true }]

/-- Nothing is asked for and nothing fetched. -/
def Fetch.loop : Fetch := ⟨fun _ => loopLine, none, none⟩

theorem next_starting {s : L1i} (h : L1i.Starting s) :
    Fetch.loop.next s (.loop L1iIn.idle) = Fetch.loop := by
  have hack : (s.ctl L1iIn.idle).nRestartAck = false ∧ (s.ctl L1iIn.idle).tClearFq = false := by
    cases h with
    | initial => exact ⟨rfl, rfl⟩
    | initPht k => exact ⟨rfl, rfl⟩
    | flush j => exact ⟨rfl, rfl⟩
  have hreq : s.rMemReqValid = false := by cases h <;> rfl
  have hrsp : L1iIn.idle.memRspValid = false := rfl
  simp [Fetch.next, Fetch.pending, Fetch.loop, FetchIn.loop, hack.1, hack.2, hreq, hrsp]

theorem reach_loop : fetchMachine.Reach FetchEnv
    (fetchMachine.run (L1i.ready, Fetch.loop) loopInputs) := by
  have hready : fetchMachine.Reach FetchEnv (L1i.ready, Fetch.loop) := by
    refine L1i.reach_ready (M := fetchMachine) (fun _ s => (s, Fetch.loop)) (FetchIn.loop L1iIn.idle)
      (.reset ⟨⟨_, rfl⟩, rfl, rfl⟩) fun n s hs => ⟨?_, ?_⟩
    · exact ⟨⟨(fun h => by cases h), (fun h => by cases h)⟩, (fun h => by cases h), fun _ => rfl⟩
    · exact Prod.ext rfl (next_starting hs)
  have hidle : ∀ x : L1i × Fetch, x.2.mem = (fun _ => loopLine) → ∀ port : L1iIn,
      port.insnAck = false → port.insnAckTwo = false → port.memRspValid = false →
      FetchEnv x (.loop port) := fun x hx port h1 h2 h3 =>
    ⟨⟨(fun h => by rw [show port.insnAck = true from h] at h1; cases h1),
      (fun h => by rw [show port.insnAckTwo = true from h] at h2; cases h2)⟩,
      (fun h => by rw [show port.memRspValid = true from h] at h3; cases h3), fun _ => hx.symm⟩
  refine hready.run ⟨hidle _ rfl _ rfl rfl rfl, hidle _ rfl _ rfl rfl rfl, hidle _ rfl _ rfl rfl rfl,
    ⟨⟨(fun h => by cases h), (fun h => by cases h)⟩, fun _ => ⟨0, rfl, rfl⟩, fun _ => rfl⟩,
    hidle _ rfl _ rfl rfl rfl, hidle _ rfl _ rfl rfl rfl,
    ⟨⟨fun _ => rfl, (fun h => by cases h)⟩, (fun h => by cases h), fun _ => rfl⟩, trivial⟩

theorem fetch_path_loop : ∃ s f e, fetchMachine.Reach FetchEnv (s, f) ∧ f.epoch = some e ∧
    e.pushed.length = 4 ∧ e.popped.length = 1 ∧
      (∃ q, IsWalk InsnFetch.pc InsnFetch.nextPc e.restartPc e.pushed q) ∧
      (∀ x ∈ e.pushed, x.data = wordAt f.mem x.pc) ∧
      (∀ g ∈ e.groups, ∀ x ∈ g.tail, predecode x.data = 0) ∧
      e.pushed = e.popped ++ s.fqView ∧ ∀ i, s.fqView.length + (s.pushed i).length ≤ 8 := by
  have h := reach_loop
  refine ⟨_, _, _, h, rfl, ?_, ?_, fetch_path h rfl⟩
  · rfl
  · rfl

end Rv32Core
