import Rv32Core.Front.Model

/-! # The restart protocol

The core asks for a restart by raising `restart_valid`, for one cycle or for several, and goes
on when it has seen `restart_ack`, of which there may be more than one, one of them possibly
from before.  The decode queue captures the head of the fetch queue in every state, although
the core acknowledges it in ACTIVE only.

`Phase` says where the two modules can be together.  What was pushed since the latest
acknowledged restart is allocated, in the decode queue or in the fetch queue while the core is
in ACTIVE (`flow`); the other phases say which queue is empty and which request is on its way.
From this follows `restart_protocol`. -/

namespace Rv32Core

open RingBuffer Rv32Core.Core

/-- What happened since the latest restart that the instruction cache acknowledged. -/
structure Since where
  pushed : List InsnFetch
  allocated : List Uop

namespace Front

/-- The uops that leave the decode queue for the reorder buffer, as they were decoded. -/
def allocatedUops (s : Front) (i : FrontIn) : List Uop :=
  let c := s.core.ctl (s.coreIn i)
  if c.tAlloc then (if c.tAllocTwo then [s.core.tUop, s.core.tUop2] else [s.core.tUop]) else []

/-- `n_restart_ack`: the instruction cache accepts a restart in this cycle. -/
def restarts (s : Front) (i : FrontIn) : Bool := (s.l1i.ctl (s.l1iIn i)).nRestartAck

end Front

/-- The observer begins anew with every acknowledged restart. -/
def Since.next (o : Since) (s : Front) (i : FrontIn) : Since :=
  if s.restarts i then ⟨[], []⟩
  else ⟨o.pushed ++ s.l1i.pushed (s.l1iIn i), o.allocated ++ s.allocatedUops i⟩

/-- The uops allocated so far are the first of the instructions pushed. -/
def Since.Ordered (o : Since) : Prop := o.allocated <+: o.pushed.map decodeRiscv

/-- What the execution unit promises: what it completes, it reports as complete. -/
structure CompletesFully (i : FrontIn) : Prop where
  one : i.core.tCompleteValid1 = true → i.core.tCompleteBundle1.complete = true
  two : i.core.tCompleteValid2 = true → i.core.tCompleteBundle2.complete = true

namespace Front

variable {s : Front} {i : FrontIn} {o : Since}

/-! ### Phases -/

/-- No restart is asked for. -/
structure NoReq (s : Front) : Prop where
  now : s.core.rRestartValid = false
  before : s.l1i.rRestartReq = false

/-- No acknowledge is on its way to the core. -/
structure NoAck (s : Front) : Prop where
  now : s.l1i.rRestartAck = false
  before : s.core.rGotRestartAck = false

/-- Neither module knows of a flush of the instruction cache. -/
structure NoFlush (s : Front) : Prop where
  latched : s.l1i.rFlushReq = false
  asked : s.core.rFlushReqL1i = false
  done : s.l1i.rFlushComplete = false
  noted : s.core.rL1iFlushComplete = false

/-- The instruction cache under a flush: it is fetching until it accepts the request, and then
busy until it reports. -/
structure Flushing (s : Front) : Prop where
  latched : s.l1i.running = true → s.l1i.rFlushReq = true ∧ s.l1i.rFlushComplete = false ∧
    s.core.rL1iFlushComplete = false
  accepted : s.l1i.running = false → s.l1i.rFlushReq = false
  done : s.core.rL1iFlushComplete = true ∨ s.l1i.rFlushComplete = true → s.l1i.rState = .idle

/-- Both queues are empty and so is the history. -/
structure Fresh (s : Front) (o : Since) : Prop where
  dq : dqView s.core = []
  fq : s.l1i.fqView = []
  pushed : o.pushed = []
  allocated : o.allocated = []

/-- Where the two modules can be together. -/
inductive Phase (s : Front) (o : Since) : Prop
  | flow (hs : s.core.rState = .active) (hr : s.l1i.running = true) (hf : s.NoFlush)
      (hn : s.NoReq)
      (hq : o.pushed.map decodeRiscv =
        o.allocated ++ dqView s.core ++ s.l1i.fqView.map decodeRiscv)
  /-- The first cycle after a wait: the request is still up and will be granted once more. -/
  | tail (hs : s.core.rState = .active) (hf : s.NoFlush) (hv : s.core.rRestartValid = true)
      (hr : s.l1i.Ready) (ho : Fresh s o)
  /-- The good part of the decode queue begins with the serializing uop; what was captured
  behind it is still in the fetch queue. -/
  | serial (hs : Serial s.core.rState) (hr : s.l1i.running = true) (hf : s.NoFlush)
      (hn : s.NoReq) (ha : s.NoAck) (u : Uop) (us junk : List Uop)
      (hd : dqView s.core = u :: us ++ junk)
      (hq : o.pushed.map decodeRiscv = o.allocated ++ u :: us ++ s.l1i.fqView.map decodeRiscv)
  | waiting (hs : Waits s.core.rState) (hr : s.l1i.running = true) (hf : s.NoFlush)
      (hn : s.NoReq) (ha : s.NoAck) (ho : o.Ordered)
  | asking (hs : Waits s.core.rState) (hr : s.l1i.running = true) (hf : s.NoFlush)
      (hv : s.core.rRestartValid = true) (ha : s.NoAck) (hc : s.core.tRobHeadComplete = true)
      (hd : dqView s.core = []) (ho : o.Ordered)
  | asked (hs : Waits s.core.rState) (hf : s.NoFlush) (hv : s.core.rRestartValid = true)
      (ha : s.l1i.rRestartAck = true) (hc : s.core.tRobHeadComplete = true) (hr : s.l1i.Ready)
      (ho : Fresh s o)
  /-- An acknowledge seen now can only be an old one, and then the cache is ready to give the
  new one. -/
  | draining (hs : Drains s.core.rState) (hr : s.l1i.running = true) (hf : s.NoFlush)
      (hv : s.core.rRestartValid = true ∨ s.l1i.rRestartReq = true)
      (ha : s.NoAck ∨ s.l1i.Ready) (ho : o.Ordered)
  | drained (hs : Drains s.core.rState) (hr : s.l1i.running = true) (hf : s.NoFlush)
      (hn : s.NoReq) (hq : o.pushed = s.l1i.fqView) (ha : o.allocated = [])
  | fault (hs : s.core.rState = .archFault) (hr : s.l1i.running = true) (hf : s.NoFlush)
      (hn : s.NoReq) (ho : o.Ordered)
  | flushAsked (hs : s.core.rState = .writeEpc) (hr : s.l1i.running = true)
      (ha : s.core.rFlushReqL1i = true)
      (hl : s.l1i.rFlushReq = false) (hd : s.l1i.rFlushComplete = false)
      (hm : s.core.rL1iFlushComplete = false) (hn : s.NoReq) (ho : o.Ordered)
  | flushing (hs : s.core.rState = .writeCause ∨ s.core.rState = .flushForHalt) (hn : s.NoReq)
      (ha : s.core.rFlushReqL1i = false) (hf : s.Flushing) (ho : o.Ordered)
  | halted (hs : s.core.rState = .halt) (hi : s.l1i.rState = .idle) (hf : s.NoFlush)
      (hn : s.NoReq) (ho : o.Ordered)
  | resuming (hs : s.core.rState = .haltWaitForRestart) (hi : s.l1i.rState = .idle)
      (hf : s.NoFlush) (hv : s.core.rRestartValid = true) (hd : dqView s.core = [])
      (ho : o.Ordered)
  | resumed (hs : s.core.rState = .haltWaitForRestart) (hr : s.l1i.running = true)
      (hf : s.NoFlush) (hn : s.NoReq) (ha : s.l1i.rRestartAck = true) (ho : Fresh s o)

/-- The invariant: a phase, and the pointers of both queues. -/
structure Linked (s : Front) (o : Since) : Prop where
  phase : Phase s o
  dqPtrs : s.core.DqPtrs
  fqPtrs : s.l1i.running = true → s.l1i.FqPtrs
  fqEmpty : s.l1i.running = false → s.l1i.fqView = []

/-! ### The queues in one cycle -/

theorem allocatedUops_eq (hp : s.core.DqPtrs) :
    s.allocatedUops i = (dqView s.core).take (s.core.nAllocated (s.coreIn i)) := by
  have hav := hp.avail (i := s.coreIn i)
  unfold allocatedUops nAllocated at *
  cases h1 : (s.core.ctl (s.coreIn i)).tAlloc
  · simp [h1]
  have hne : s.core.rDqHeadPtr ≠ s.core.rDqTailPtr := by
    have h := (tAlloc_room h1).2.1
    rw [tDqEmpty, beq_eq_false_iff_ne] at h
    exact h.symm
  cases h2 : (s.core.ctl (s.coreIn i)).tAllocTwo
  · simp only [h1, h2, if_true, Bool.false_eq_true, if_false]
    rw [dqView, contents_pop _ hne]
    rfl
  · have hne2 : s.core.rDqHeadPtr + 1 ≠ s.core.rDqTailPtr := by
      have h := (allocTwoToo_spec (tAllocTwo_tAlloc h2).2.2).2.2.1
      rw [tDqNextEmpty, beq_eq_false_iff_ne, hp.dqNextHead] at h
      exact h.symm
    simp only [h1, h2, if_true]
    rw [dqView, contents_pop _ hne, contents_pop _ hne2, tUop2, hp.dqNextHead]
    rfl

theorem allocatedUops_of_none (h : (s.core.ctl (s.coreIn i)).tAlloc = false) :
    s.allocatedUops i = [] := by
  rw [allocatedUops, h]
  rfl

/-! ### Requests in one cycle -/

theorem NoReq.anyRestartReq (h : s.NoReq) : s.l1i.anyRestartReq (s.l1iIn i) = false := by
  show (s.core.rRestartValid || s.l1i.rRestartReq) = false
  rw [h.now, h.before]
  rfl

theorem NoReq.restarts (h : s.NoReq) : s.restarts i = false :=
  L1i.nRestartAck_of_no_req h.anyRestartReq

theorem anyRestartReq_of_or (h : s.core.rRestartValid = true ∨ s.l1i.rRestartReq = true) :
    s.l1i.anyRestartReq (s.l1iIn i) = true := by
  rw [L1i.anyRestartReq, Bool.or_eq_true]
  exact h

theorem NoFlush.anyFlushReq (h : s.NoFlush) : s.l1i.anyFlushReq (s.l1iIn i) = false := by
  show (s.l1i.rFlushReq || s.core.rFlushReqL1i) = false
  rw [h.latched, h.asked]
  rfl

theorem NoFlush.tClearFq (h : s.NoFlush) : (s.l1i.ctl (s.l1iIn i)).tClearFq = s.restarts i :=
  L1i.tClearFq_of_no_flush h.anyFlushReq

theorem step_rRestartReq :
    (s.step i).l1i.rRestartReq = (s.l1i.anyRestartReq (s.l1iIn i) && !s.restarts i) :=
  L1i.nRestartReq_eq

theorem step_rFlushReq :
    (s.step i).l1i.rFlushReq = (s.l1i.anyFlushReq (s.l1iIn i) &&
      !((s.l1i.ctl (s.l1iIn i)).tClearFq && !s.restarts i)) :=
  L1i.nFlushReq_eq

theorem step_rFlushReqL1i :
    (s.step i).core.rFlushReqL1i = decide (s.core.rState = .archFault) :=
  ctl_nFlushReqL1i

theorem running_step (hr : s.l1i.running = true) (hf : s.NoFlush) :
    (s.step i).l1i.running = true := by
  show (s.l1i.step (s.l1iIn i)).running = true
  rw [L1i.running_step, hr, hf.tClearFq]
  show (s.restarts i || (true && !s.restarts i)) = true
  cases s.restarts i <;> rfl

theorem step_rFlushComplete (hr : s.l1i.running = true ∨ s.l1i.rState = .idle) :
    (s.step i).l1i.rFlushComplete = false := by
  show (s.l1i.ctl (s.l1iIn i)).nFlushComplete = false
  by_contra hc
  have hst := (L1i.nFlushComplete_spec (Bool.not_eq_false _ ▸ hc)).1
  rcases hr with hr | hr
  · rw [L1i.running, hst] at hr
    cases hr
  · rw [hst] at hr
    cases hr

theorem step_rL1iFlushComplete (hd : s.l1i.rFlushComplete = false)
    (hm : s.core.rL1iFlushComplete = false) : (s.step i).core.rL1iFlushComplete = false := by
  show (s.core.ctl (s.coreIn i)).nL1iFlushComplete = false
  by_contra hc
  have h := ctl_nL1iFlushComplete_le (Bool.not_eq_false _ ▸ hc)
  rw [hm, show (s.coreIn i).l1iFlushComplete = s.l1i.rFlushComplete from rfl, hd] at h
  cases h

theorem NoFlush.step (h : s.NoFlush) (hr : s.l1i.running = true ∨ s.l1i.rState = .idle)
    (hs : s.core.rState ≠ .archFault) : (s.step i).NoFlush := by
  refine ⟨?_, ?_, step_rFlushComplete hr, step_rL1iFlushComplete h.done h.noted⟩
  · rw [step_rFlushReq, h.anyFlushReq]
    rfl
  · rw [step_rFlushReqL1i, decide_eq_false hs]

theorem NoReq.step (h : s.NoReq) (hv : (s.core.ctl (s.coreIn i)).nRestartValid = false) :
    (s.step i).NoReq := by
  refine ⟨hv, ?_⟩
  rw [step_rRestartReq, h.anyRestartReq]
  rfl

theorem NoAck.step (h : s.NoAck) (hk : s.restarts i = false) : (s.step i).NoAck := by
  refine ⟨hk, ?_⟩
  show s.core.nGotRestartAck (s.coreIn i) = false
  have hk' : (s.coreIn i).restartAck = false := h.now
  simp only [nGotRestartAck, h.before, hk']
  split_ifs <;> rfl

theorem noAck_of_active (hs : s.core.rState = .active) (hk : s.restarts i = false) :
    (s.step i).NoAck := by
  refine ⟨hk, ?_⟩
  show s.core.nGotRestartAck (s.coreIn i) = false
  rw [nGotRestartAck, if_pos hs]

theorem nGotRestartAck_of_noAck (h : s.NoAck) : s.core.nGotRestartAck (s.coreIn i) = false := by
  have hk' : (s.coreIn i).restartAck = false := h.now
  simp only [nGotRestartAck, h.before, hk']
  split_ifs <;> rfl

theorem nGotRestartAck_of_ack (hs : s.core.rState ≠ .active) (h : s.l1i.rRestartAck = true) :
    s.core.nGotRestartAck (s.coreIn i) = true := by
  have hk' : (s.coreIn i).restartAck = true := h
  rw [nGotRestartAck, if_neg hs, hk']
  cases s.core.rGotRestartAck <;> rfl

/-! ### The history in one cycle -/

theorem next_of_restarts (h : s.restarts i = true) : o.next s i = ⟨[], []⟩ := if_pos h

theorem next_of_none (h : s.restarts i = false) :
    o.next s i = ⟨o.pushed ++ s.l1i.pushed (s.l1iIn i), o.allocated ++ s.allocatedUops i⟩ := by
  rw [Since.next, h]
  rfl

/-- Pushes keep the order, and so does every cycle without an allocation. -/
theorem ordered_next (ho : o.Ordered) (ha : (s.core.ctl (s.coreIn i)).tAlloc = false) :
    (o.next s i).Ordered := by
  cases hk : s.restarts i
  · rw [next_of_none hk, allocatedUops_of_none ha, List.append_nil]
    exact List.IsPrefix.trans ho (List.IsPrefix.map _ (List.prefix_append _ _))
  · rw [next_of_restarts hk]
    exact List.nil_prefix

theorem Fresh.ordered (h : Fresh s o) : o.Ordered := by
  rw [Since.Ordered, h.allocated]
  exact List.nil_prefix

/-- After an acknowledge with an empty decode queue everything is empty. -/
theorem Fresh.of_restarts (hk : s.restarts i = true) (hd : dqView (s.step i).core = []) :
    Fresh (s.step i) (o.next s i) := by
  rw [next_of_restarts hk]
  exact ⟨hd, L1i.fqView_clear (L1i.restartAck_spec hk).2.2.1, rfl, rfl⟩

theorem decoded_of_empty (h : s.l1i.fqView = []) : s.core.decoded (s.coreIn i) = [] := by
  have hv : (s.coreIn i).insnValid = false := L1i.not_insnValid h
  have h1 : s.core.tPushDqOne (s.coreIn i) = false := by
    rw [tPushDqOne, hv, Bool.and_false, Bool.false_and]
  have h2 : s.core.tPushDqTwo (s.coreIn i) = false := by
    rw [tPushDqTwo, hv, Bool.and_false, Bool.false_and, Bool.false_and, Bool.false_and]
  rw [decoded, h2, h1]
  rfl

theorem nAllocated_of_empty (hp : s.core.DqPtrs) (h : dqView s.core = []) :
    s.core.nAllocated (s.coreIn i) = 0 ∧ (s.core.ctl (s.coreIn i)).tAlloc = false := by
  have hav := hp.avail (i := s.coreIn i)
  have ho : occ s.core.rDqHeadPtr s.core.rDqTailPtr = 0 := by
    rw [← contents_length s.core.rDq, ← dqView, h, List.length_nil]
  have hn : s.core.nAllocated (s.coreIn i) = 0 := by omega
  refine ⟨hn, ?_⟩
  by_contra ha
  rw [nAllocated, if_pos (Bool.not_eq_false _ ▸ ha)] at hn
  split_ifs at hn

theorem dqView_empty_step (hp : s.core.DqPtrs) (hd : dqView s.core = [])
    (hf : s.l1i.fqView = []) : dqView (s.step i).core = [] := by
  cases hc : s.core.clrDq (s.coreIn i)
  · show dqView (s.core.step (s.coreIn i)) = []
    rw [dqView_step hp hc, hd, decoded_of_empty hf, List.drop_nil]
    rfl
  · exact dqView_clr hc

/-- Outside ACTIVE, with no request, the fetch queue only grows. -/
theorem fqView_grows (h : Linked s o) (hr : s.l1i.running = true) (hf : s.NoFlush) (hn : s.NoReq)
    (hs : s.core.rState ≠ .active) :
    (s.step i).l1i.fqView = s.l1i.fqView ++ s.l1i.pushed (s.l1iIn i) := by
  have hclr : (s.l1i.ctl (s.l1iIn i)).tClearFq = false := by rw [hf.tClearFq, hn.restarts]
  have hstep := L1i.fqView_step (h.fqPtrs hr) (acks (i := i)) hclr
  rw [popped_of_not_active hs] at hstep
  exact hstep

/-- **ACTIVE moves instructions from queue to queue.** -/
theorem flow_next (h : Linked s o) (hs : s.core.rState = .active) (hr : s.l1i.running = true)
    (hf : s.NoFlush) (hn : s.NoReq)
    (hq : o.pushed.map decodeRiscv =
      o.allocated ++ dqView s.core ++ s.l1i.fqView.map decodeRiscv) :
    (o.next s i).pushed.map decodeRiscv =
      (o.next s i).allocated ++ dqView (s.step i).core ++
        (s.step i).l1i.fqView.map decodeRiscv := by
  have hclr : (s.l1i.ctl (s.l1iIn i)).tClearFq = false := by rw [hf.tClearFq, hn.restarts]
  have hfq := congrArg (List.map decodeRiscv)
    (L1i.fqView_step (h.fqPtrs hr) (acks (i := i)) hclr)
  rw [List.map_append, List.map_append] at hfq
  have hdq : dqView (s.step i).core = (dqView s.core).drop (s.core.nAllocated (s.coreIn i)) ++
      (s.l1i.popped (s.l1iIn i)).map decodeRiscv := by
    rw [← decoded_eq_popped hs (by rw [ctl_of_active hs]; exact activeCtl_clr.2.2)]
    exact dqView_step h.dqPtrs (clrDq_of_active hs)
  rw [next_of_none hn.restarts, hdq, allocatedUops_eq h.dqPtrs]
  show (o.pushed ++ s.l1i.pushed (s.l1iIn i)).map decodeRiscv = _
  calc (o.pushed ++ s.l1i.pushed (s.l1iIn i)).map decodeRiscv
      = o.allocated ++ dqView s.core ++
          (s.l1i.fqView.map decodeRiscv ++ (s.l1i.pushed (s.l1iIn i)).map decodeRiscv) := by
        rw [List.map_append, hq, List.append_assoc]
    _ = o.allocated ++ ((dqView s.core).take (s.core.nAllocated (s.coreIn i)) ++
          (dqView s.core).drop (s.core.nAllocated (s.coreIn i))) ++
          ((s.l1i.popped (s.l1iIn i)).map decodeRiscv ++
            (s.step i).l1i.fqView.map decodeRiscv) := by
        rw [List.take_append_drop, ← hfq]
        rfl
    _ = _ := by simp only [List.append_assoc]

end Front
end Rv32Core
