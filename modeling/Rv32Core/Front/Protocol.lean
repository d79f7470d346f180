import Rv32Core.Front.Restart

/-! # One cycle of the restart protocol

For each phase the phases that can follow it, and from these the invariant of every run. -/

namespace Rv32Core

open RingBuffer Rv32Core.Core

namespace Front

variable {s : Front} {i : FrontIn} {o : Since}

/-! ### Phases in ACTIVE -/

theorem ordered_of_view {l : List InsnFetch}
    (h : o.pushed.map decodeRiscv = o.allocated ++ dqView s.core ++ l.map decodeRiscv) :
    o.Ordered := by
  rw [List.append_assoc] at h
  exact ⟨_, h.symm⟩

theorem dqView_stopped (h : Linked s o) (hs : s.core.rState = .active)
    (ha : (s.core.ctl (s.coreIn i)).tAlloc = false) (hd : s.core.tDqEmpty = false) :
    ∃ (u : Uop) (us : List Uop), dqView (s.step i).core = u :: us := by
  have hn : s.core.nAllocated (s.coreIn i) = 0 := by rw [nAllocated, ha]; rfl
  have hne : s.core.rDqHeadPtr ≠ s.core.rDqTailPtr := by
    rw [tDqEmpty, beq_eq_false_iff_ne] at hd
    exact hd.symm
  have hstep := dqView_step (i := s.coreIn i) h.dqPtrs (clrDq_of_active hs)
  rw [hn, List.drop_zero, dqView, dqView, contents_pop _ hne, List.cons_append] at hstep
  exact ⟨_, _, hstep⟩

theorem flow_step (h : Linked s o) (hs : s.core.rState = .active) (hr : s.l1i.running = true)
    (hf : s.NoFlush) (hn : s.NoReq)
    (hq : o.pushed.map decodeRiscv =
      o.allocated ++ dqView s.core ++ s.l1i.fqView.map decodeRiscv) :
    Phase (s.step i) (o.next s i) := by
  have hk := hn.restarts (i := i)
  have hrun := running_step (i := i) hr hf
  have hnf := hf.step (i := i) (.inl hr) (by rw [hs]; decide)
  have hview := flow_next (i := i) h hs hr hf hn hq
  have hno := noAck_of_active hs hk
  cases activeMove (i := s.coreIn i) hs with
  | stay hst hv => exact .flow hst hrun hnf (hn.step hv) hview
  | drain hst hv ha he =>
      exact .draining (.inl hst) hrun hnf (.inl hv) (.inl hno) (ordered_of_view hview)
  | fault hst hv ha hc hfault => exact .fault hst hrun hnf (hn.step hv) (ordered_of_view hview)
  | serial hst hv ha he hd hz =>
      obtain ⟨u, us, hdq⟩ := dqView_stopped (i := i) h hs ha hd
      refine .serial ?_ hrun hnf (hn.step hv) hno u us [] ?_ ?_
      · exact hst.elim .inl fun h => .inr (.inl h)
      · rw [hdq, List.append_nil]
      · rw [hview, hdq]

/-- The request that is still up is granted at once, on empty queues. -/
theorem tail_step (h : Linked s o) (hs : s.core.rState = .active) (hf : s.NoFlush)
    (hv : s.core.rRestartValid = true) (hr : s.l1i.Ready) (ho : Fresh s o) :
    Phase (s.step i) (o.next s i) := by
  have hk : s.restarts i = true := hr.acks (anyRestartReq_of_or (.inl hv)) hf.asked
  have hready : (s.step i).l1i.Ready := L1i.Ready.of_ack hk hf.anyFlushReq
  have hrun := L1i.running_of_active hready.active
  have hnf := hf.step (i := i) (.inl (L1i.running_of_active hr.active)) (by rw [hs]; decide)
  have hfresh := Fresh.of_restarts (o := o) hk (dqView_empty_step h.dqPtrs ho.dq ho.fq)
  have hreq : (s.step i).l1i.rRestartReq = false := by
    rw [step_rRestartReq, hk, Bool.not_true, Bool.and_false]
  cases activeMove (i := s.coreIn i) hs with
  | stay hst hv' =>
      refine .flow hst hrun hnf ⟨hv', hreq⟩ ?_
      rw [hfresh.pushed, hfresh.allocated, hfresh.dq, hfresh.fq]
      rfl
  | drain hst hv' ha he =>
      exact .draining (.inl hst) hrun hnf (.inl hv') (.inr hready) hfresh.ordered
  | fault hst hv' ha hc hfault => exact .fault hst hrun hnf ⟨hv', hreq⟩ hfresh.ordered
  | serial hst hv' ha he hd hz =>
      obtain ⟨u, us, hdq⟩ := dqView_stopped (i := i) h hs ha hd
      rw [hfresh.dq] at hdq
      cases hdq

/-! ### Phases around a serializing uop -/

theorem ordered_of_serial {u : Uop} {us : List Uop} {l : List InsnFetch}
    (h : o.pushed.map decodeRiscv = o.allocated ++ u :: us ++ l.map decodeRiscv) :
    o.Ordered := by
  rw [List.append_assoc] at h
  exact ⟨_, h.symm⟩

theorem serial_step (h : Linked s o) (hs : Serial s.core.rState) (hr : s.l1i.running = true)
    (hf : s.NoFlush) (hn : s.NoReq) (ha : s.NoAck) {u : Uop} {us junk : List Uop}
    (hd : dqView s.core = u :: us ++ junk)
    (hq : o.pushed.map decodeRiscv = o.allocated ++ u :: us ++ s.l1i.fqView.map decodeRiscv) :
    Phase (s.step i) (o.next s i) := by
  obtain ⟨hne, hnF⟩ := hs.ne
  have hk := hn.restarts (i := i)
  have hrun := running_step (i := i) hr hf
  have hnf := hf.step (i := i) (.inl hr) hnF
  have hno := ha.step hk
  have hfq := fqView_grows (i := i) h hr hf hn hne
  obtain ⟨hv, htwo, hmove⟩ := serialMove (i := s.coreIn i) hs
  have hpushed : (o.next s i).pushed.map decodeRiscv =
      o.allocated ++ u :: us ++ (s.step i).l1i.fqView.map decodeRiscv := by
    rw [next_of_none hk, hfq, List.map_append, List.map_append, ← List.append_assoc, ← hq]
  rcases hmove with ⟨hst, hal⟩ | hst
  · have hclr := clrDq_of_serial (i := s.coreIn i) hs
    have hn0 : s.core.nAllocated (s.coreIn i) = 0 := by rw [nAllocated, hal]; rfl
    refine .serial hst hrun hnf (hn.step hv) hno u us (junk ++ s.core.decoded (s.coreIn i)) ?_ ?_
    · show dqView (s.core.step (s.coreIn i)) = _
      rw [dqView_step h.dqPtrs hclr, hn0, List.drop_zero, hd, List.append_assoc]
    · rw [hpushed, next_of_none hk, allocatedUops_of_none hal, List.append_nil]
  · refine .waiting hst hrun hnf (hn.step hv) hno ?_
    cases hal : (s.core.ctl (s.coreIn i)).tAlloc
    · refine ordered_next ?_ hal
      exact ordered_of_serial hq
    · have hn1 : s.core.nAllocated (s.coreIn i) = 1 := by rw [nAllocated, hal, htwo]; rfl
      rw [Since.Ordered, hpushed, next_of_none hk, allocatedUops_eq h.dqPtrs, hn1, hd]
      show o.allocated ++ [u] <+: _
      rw [List.append_assoc, List.prefix_append_right_inj, List.cons_append]
      exact ⟨us ++ _, rfl⟩

theorem waiting_step (hs : Waits s.core.rState) (hr : s.l1i.running = true)
    (hf : s.NoFlush) (hn : s.NoReq) (ha : s.NoAck) (ho : o.Ordered) (he : CompletesFully i) :
    Phase (s.step i) (o.next s i) := by
  obtain ⟨hnA, hnF, hnR⟩ := hs.ne
  have hk := hn.restarts (i := i)
  have hrun := running_step (i := i) hr hf
  have hnf := hf.step (i := i) (.inl hr) hnF
  have hno := ha.step hk
  have hg := nGotRestartAck_of_noAck (i := i) ha
  cases hc : s.core.tRobHeadComplete
  · have hctl := waits_incomplete (i := s.coreIn i) hs hc
    refine .waiting ?_ hrun hnf (hn.step (by rw [hctl]; rfl)) hno
      (ordered_next ho (by rw [hctl]; rfl))
    show Waits (s.core.ctl (s.coreIn i)).nState
    rw [hctl]
    exact hs
  · obtain ⟨hv, hd, hal, htwo, hb, hret, hst⟩ := waits_complete (i := s.coreIn i) hs hc
    rw [hg, Bool.and_false] at hret
    rw [hg] at hst
    refine .asking ?_ hrun hnf hv hno ?_ ?_ (ordered_next ho hal)
    · show Waits (s.core.ctl (s.coreIn i)).nState
      rw [hst]
      exact hs
    · exact tRobHeadComplete_step hnR hc hal htwo hret hb he.one he.two
    · exact dqView_clr (clrDq_of_tClrDq hd)

theorem asking_next (hs : Waits s.core.rState) (hc : s.core.tRobHeadComplete = true)
    (hg : s.core.nGotRestartAck (s.coreIn i) = false) (he : CompletesFully i) :
    Waits (s.step i).core.rState ∧ (s.step i).core.rRestartValid = true ∧
      (s.step i).core.tRobHeadComplete = true ∧ dqView (s.step i).core = [] := by
  obtain ⟨hv, hd, hal, htwo, hb, hret, hst⟩ := waits_complete (i := s.coreIn i) hs hc
  rw [hg, Bool.and_false] at hret
  rw [hg] at hst
  refine ⟨?_, hv, ?_, dqView_clr (clrDq_of_tClrDq hd)⟩
  · show Waits (s.core.ctl (s.coreIn i)).nState
    rw [hst]
    exact hs
  · exact tRobHeadComplete_step hs.ne.2.2 hc hal htwo hret hb he.one he.two

theorem asking_step (hs : Waits s.core.rState) (hr : s.l1i.running = true)
    (hf : s.NoFlush) (ha : s.NoAck) (hc : s.core.tRobHeadComplete = true)
    (ho : o.Ordered) (he : CompletesFully i) : Phase (s.step i) (o.next s i) := by
  have hal := (waits_complete (i := s.coreIn i) hs hc).2.2.1
  have hrun := running_step (i := i) hr hf
  have hnf := hf.step (i := i) (.inl hr) hs.ne.2.1
  obtain ⟨hw, hv', hc', hd'⟩ := asking_next hs hc (nGotRestartAck_of_noAck ha) he
  cases hk : s.restarts i
  · exact .asking hw hrun hnf hv' (ha.step hk) hc' hd' (ordered_next ho hal)
  · exact .asked hw hnf hv' hk hc' (L1i.Ready.of_ack hk hf.anyFlushReq) (Fresh.of_restarts hk hd')

theorem asked_step (hs : Waits s.core.rState) (hf : s.NoFlush)
    (hv : s.core.rRestartValid = true) (ha : s.l1i.rRestartAck = true)
    (hc : s.core.tRobHeadComplete = true) (hr : s.l1i.Ready) :
    Phase (s.step i) (o.next s i) := by
  obtain ⟨hv', hd, -, -, -, -, hst⟩ := waits_complete (i := s.coreIn i) hs hc
  have hk : s.restarts i = true := hr.acks (anyRestartReq_of_or (.inl hv)) hf.asked
  rw [nGotRestartAck_of_ack hs.ne.1 ha] at hst
  exact .tail hst (hf.step (.inl (L1i.running_of_active hr.active)) hs.ne.2.1) hv'
    (L1i.Ready.of_ack hk hf.anyFlushReq) (Fresh.of_restarts hk (dqView_clr (clrDq_of_tClrDq hd)))

/-! ### Drains -/

theorem drain_granted (hs : Drains s.core.rState)
    (hrun : (s.step i).l1i.running = true) (hnf : (s.step i).NoFlush)
    (hk : s.restarts i = true) : Phase (s.step i) (o.next s i) := by
  obtain ⟨hv, hal, hmove⟩ := drainsMove (i := s.coreIn i) hs
  have hfq : (s.step i).l1i.fqView = [] := L1i.fqView_clear (L1i.restartAck_spec hk).2.2.1
  have hn : (s.step i).NoReq := by
    refine ⟨hv, ?_⟩
    rw [step_rRestartReq, hk, Bool.not_true, Bool.and_false]
  rcases hmove with hst | ⟨-, -, hst, hd⟩
  · refine .drained hst hrun hnf hn ?_ ?_
    · rw [next_of_restarts hk, hfq]
    · rw [next_of_restarts hk]
  · refine .flow hst hrun hnf hn ?_
    have hdq : dqView (s.step i).core = [] := dqView_clr (clrDq_of_tClrDq hd)
    rw [next_of_restarts hk, hdq, hfq]
    rfl

theorem draining_step (hs : Drains s.core.rState) (hr : s.l1i.running = true) (hf : s.NoFlush)
    (hv : s.core.rRestartValid = true ∨ s.l1i.rRestartReq = true)
    (ha : s.NoAck ∨ s.l1i.Ready) (ho : o.Ordered) : Phase (s.step i) (o.next s i) := by
  have hreq := anyRestartReq_of_or (i := i) hv
  have hrun := running_step (i := i) hr hf
  have hnf := hf.step (i := i) (.inl hr) hs.ne.2
  cases hk : s.restarts i
  · rcases ha with ha | hready
    · obtain ⟨hv', hal, hmove⟩ := drainsMove (i := s.coreIn i) hs
      rw [nGotRestartAck_of_noAck ha] at hmove
      have hst := hmove.resolve_right fun h => Bool.false_ne_true h.2.1
      have hreq' : (s.step i).l1i.rRestartReq = true := by
        rw [step_rRestartReq, hreq, hk]
        rfl
      exact .draining hst hrun hnf (.inr hreq') (.inl (ha.step hk)) (ordered_next ho hal)
    · rw [restarts, hready.acks hreq hf.asked] at hk
      cases hk
  · exact drain_granted hs hrun hnf hk

theorem drained_step (h : Linked s o) (hs : Drains s.core.rState) (hr : s.l1i.running = true)
    (hf : s.NoFlush) (hn : s.NoReq) (hq : o.pushed = s.l1i.fqView) (ha : o.allocated = []) :
    Phase (s.step i) (o.next s i) := by
  obtain ⟨hv, hal, hmove⟩ := drainsMove (i := s.coreIn i) hs
  have hk := hn.restarts (i := i)
  have hrun := running_step (i := i) hr hf
  have hnf := hf.step (i := i) (.inl hr) hs.ne.2
  have hfq := fqView_grows (i := i) h hr hf hn hs.ne.1
  have hpushed : (o.next s i).pushed = (s.step i).l1i.fqView := by rw [next_of_none hk, hfq, hq]
  have halloc : (o.next s i).allocated = [] := by
    rw [next_of_none hk, allocatedUops_of_none hal, ha]
    rfl
  rcases hmove with hst | ⟨-, -, hst, hd⟩
  · exact .drained hst hrun hnf (hn.step hv) hpushed halloc
  · refine .flow hst hrun hnf (hn.step hv) ?_
    have hdq : dqView (s.step i).core = [] := dqView_clr (clrDq_of_tClrDq hd)
    rw [hpushed, halloc, hdq]
    rfl

/-! ### Faults, halt and resume -/

theorem fault_step (hs : s.core.rState = .archFault) (hr : s.l1i.running = true) (hf : s.NoFlush)
    (hn : s.NoReq) (ho : o.Ordered) : Phase (s.step i) (o.next s i) := by
  obtain ⟨hst, hv, hal⟩ := archFaultMove (i := s.coreIn i) hs
  refine .flushAsked hst (running_step hr hf) ?_ ?_ (step_rFlushComplete (.inl hr))
    (step_rL1iFlushComplete hf.done hf.noted) (hn.step hv) (ordered_next ho hal)
  · rw [step_rFlushReqL1i, decide_eq_true hs]
  · rw [step_rFlushReq, hf.anyFlushReq]
    rfl

theorem running_step_of_no_restart (hk : s.restarts i = false) :
    (s.step i).l1i.running = (s.l1i.running && !(s.l1i.ctl (s.l1iIn i)).tClearFq) := by
  show (s.l1i.step (s.l1iIn i)).running = _
  rw [L1i.running_step]
  show (s.restarts i || _) = _
  rw [hk, Bool.false_or]

theorem Flushing.of_request (hn : s.NoReq) (hr : s.l1i.running = true)
    (ha : s.l1i.anyFlushReq (s.l1iIn i) = true) (hd : s.l1i.rFlushComplete = false)
    (hm : s.core.rL1iFlushComplete = false) : Flushing (s.step i) := by
  have hk := hn.restarts (i := i)
  have hrun := running_step_of_no_restart hk
  have hreq := step_rFlushReq (s := s) (i := i)
  have hd' := step_rFlushComplete (s := s) (i := i) (.inl hr)
  have hm' := step_rL1iFlushComplete (i := i) hd hm
  rw [hr, Bool.true_and] at hrun
  rw [ha, hk, Bool.not_false, Bool.and_true, Bool.true_and] at hreq
  constructor
  · intro h
    rw [hrun] at h
    exact ⟨hreq.trans h, hd', hm'⟩
  · intro h
    rw [hrun] at h
    exact hreq.trans h
  · rintro (h | h)
    · rw [hm'] at h
      cases h
    · rw [hd'] at h
      cases h

theorem Flushing.step (h : s.Flushing) (hn : s.NoReq) (ha : s.core.rFlushReqL1i = false) :
    Flushing (s.step i) := by
  cases hr : s.l1i.running
  · have hk := hn.restarts (i := i)
    have hrun := running_step_of_no_restart hk
    have hany : s.l1i.anyFlushReq (s.l1iIn i) = false := by
      show (s.l1i.rFlushReq || s.core.rFlushReqL1i) = false
      rw [h.accepted hr, ha]
      rfl
    rw [hr, Bool.false_and] at hrun
    constructor
    · intro h
      rw [hrun] at h
      cases h
    · intro _
      rw [step_rFlushReq, hany]
      rfl
    · rintro (hm | hd)
      · have hle := ctl_nL1iFlushComplete_le (s := s.core) (i := s.coreIn i) hm
        rw [Bool.or_eq_true] at hle
        exact L1i.step_idle (h.done hle) hn.anyRestartReq
      · exact (L1i.nFlushComplete_spec hd).2
  · obtain ⟨hl, hd, hm⟩ := h.latched hr
    refine .of_request hn hr ?_ hd hm
    show (s.l1i.rFlushReq || s.core.rFlushReqL1i) = true
    rw [hl]
    rfl

theorem flushAsked_step (hs : s.core.rState = .writeEpc) (hr : s.l1i.running = true)
    (ha : s.core.rFlushReqL1i = true) (hd : s.l1i.rFlushComplete = false)
    (hm : s.core.rL1iFlushComplete = false) (hn : s.NoReq) (ho : o.Ordered) :
    Phase (s.step i) (o.next s i) := by
  have hctl : s.core.ctl (s.coreIn i) = s.core.writeEpcCtl (s.coreIn i) := by
    unfold ctl
    rw [hs]
  have hany : s.l1i.anyFlushReq (s.l1iIn i) = true := by
    show (s.l1i.rFlushReq || s.core.rFlushReqL1i) = true
    rw [ha, Bool.or_true]
  refine .flushing (.inl ?_) (hn.step (by rw [hctl]; rfl)) ?_ (.of_request hn hr hany hd hm)
    (ordered_next ho (by rw [hctl]; rfl))
  · show (s.core.ctl (s.coreIn i)).nState = .writeCause
    rw [hctl]
    rfl
  · rw [step_rFlushReqL1i, hs]
    rfl

theorem flushing_step (hs : s.core.rState = .writeCause ∨ s.core.rState = .flushForHalt)
    (hn : s.NoReq) (ha : s.core.rFlushReqL1i = false) (hf : s.Flushing) (ho : o.Ordered) :
    Phase (s.step i) (o.next s i) := by
  have hf' := hf.step (i := i) hn ha
  have ha' : (s.step i).core.rFlushReqL1i = false := by
    rw [step_rFlushReqL1i]
    rcases hs with hs | hs <;> rw [hs] <;> rfl
  rcases hs with hs | hs
  · have hctl : s.core.ctl (s.coreIn i) = s.core.writeCauseCtl (s.coreIn i) := by
      unfold ctl
      rw [hs]
    refine .flushing (.inr ?_) (hn.step (by rw [hctl]; rfl)) ha' hf'
      (ordered_next ho (by rw [hctl]; rfl))
    show (s.core.ctl (s.coreIn i)).nState = .flushForHalt
    rw [hctl]
    rfl
  · obtain ⟨hal, hv, hst | ⟨hst, hm, hdone⟩⟩ := flushForHaltMove (i := s.coreIn i) hs
    · exact .flushing (.inr hst) (hn.step hv) ha' hf' (ordered_next ho hal)
    · rw [Bool.or_eq_true] at hdone
      have hidle := hf.done hdone
      have hidle' : (s.step i).l1i.rState = .idle := L1i.step_idle hidle hn.anyRestartReq
      refine .halted hst hidle' ⟨?_, ha', step_rFlushComplete (.inr hidle), hm⟩ (hn.step hv)
        (ordered_next ho hal)
      exact hf'.accepted (L1i.not_running_of_idle hidle')

theorem halted_step (hs : s.core.rState = .halt) (hi : s.l1i.rState = .idle) (hf : s.NoFlush)
    (hn : s.NoReq) (ho : o.Ordered) : Phase (s.step i) (o.next s i) := by
  have hidle : (s.step i).l1i.rState = .idle := L1i.step_idle hi hn.anyRestartReq
  have hnf := hf.step (i := i) (.inr hi) (by rw [hs]; decide)
  obtain ⟨hal, ⟨hst, hv⟩ | ⟨hst, hv, hd⟩⟩ := haltMove (i := s.coreIn i) hs
  · exact .halted hst hidle hnf (hn.step hv) (ordered_next ho hal)
  · exact .resuming hst hidle hnf hv (dqView_clr (clrDq_of_tClrDq hd)) (ordered_next ho hal)

/-- The idle cache grants the restart at once; an old acknowledge may already let the core go
on. -/
theorem resuming_step (h : Linked s o) (hs : s.core.rState = .haltWaitForRestart)
    (hi : s.l1i.rState = .idle) (hf : s.NoFlush) (hv : s.core.rRestartValid = true)
    (hd : dqView s.core = []) : Phase (s.step i) (o.next s i) := by
  have hk : s.restarts i = true := L1i.idle_acks hi (anyRestartReq_of_or (.inl hv))
  have hrun : (s.step i).l1i.running = true :=
    L1i.running_of_active (L1i.restartAck_spec hk).2.2.2.1
  have hnf := hf.step (i := i) (.inr hi) (by rw [hs]; decide)
  have hfresh := Fresh.of_restarts (o := o) hk
    (dqView_empty_step h.dqPtrs hd (h.fqEmpty (L1i.not_running_of_idle hi)))
  obtain ⟨hv', hst⟩ := haltWaitMove (i := s.coreIn i) hs
  have hn : (s.step i).NoReq := by
    refine ⟨hv', ?_⟩
    rw [step_rRestartReq, hk, Bool.not_true, Bool.and_false]
  rcases hst with hst | hst
  · refine .flow hst hrun hnf hn ?_
    rw [hfresh.pushed, hfresh.allocated, hfresh.dq, hfresh.fq]
    rfl
  · exact .resumed hst hrun hnf hn hk hfresh

theorem resumed_step (h : Linked s o) (hs : s.core.rState = .haltWaitForRestart)
    (hr : s.l1i.running = true) (hf : s.NoFlush) (hn : s.NoReq)
    (ha : s.l1i.rRestartAck = true) (ho : Fresh s o) : Phase (s.step i) (o.next s i) := by
  have hnA : s.core.rState ≠ .active := by rw [hs]; decide
  have hk := hn.restarts (i := i)
  have hfq := fqView_grows (i := i) h hr hf hn hnA
  have hctl : s.core.ctl (s.coreIn i) = s.core.haltWaitForRestartCtl (s.coreIn i) := by
    unfold ctl
    rw [hs]
  have hst : (s.step i).core.rState = .active := by
    show (s.core.ctl (s.coreIn i)).nState = .active
    rw [hctl, haltWaitForRestartCtl, nGotRestartAck_of_ack hnA ha]
    rfl
  refine .flow hst (running_step hr hf) (hf.step (.inl hr) (by rw [hs]; decide))
    (hn.step (by rw [hctl]; rfl)) ?_
  rw [next_of_none hk, allocatedUops_of_none (by rw [hctl]; rfl), hfq, ho.pushed, ho.allocated,
    ho.fq, dqView_empty_step h.dqPtrs ho.dq ho.fq]
  rfl

/-! ### The invariant -/

theorem Linked.step (h : Linked s o) (he : CompletesFully i) :
    Linked (s.step i) (o.next s i) := by
  constructor
  · cases h.phase with
    | flow hs hr hf hn hq => exact flow_step h hs hr hf hn hq
    | tail hs hf hv hr ho => exact tail_step h hs hf hv hr ho
    | serial hs hr hf hn ha u us junk hd hq => exact serial_step h hs hr hf hn ha hd hq
    | waiting hs hr hf hn ha ho => exact waiting_step hs hr hf hn ha ho he
    | asking hs hr hf hv ha hc hd ho => exact asking_step hs hr hf ha hc ho he
    | asked hs hf hv ha hc hr ho => exact asked_step hs hf hv ha hc hr
    | draining hs hr hf hv ha ho => exact draining_step hs hr hf hv ha ho
    | drained hs hr hf hn hq ha => exact drained_step h hs hr hf hn hq ha
    | fault hs hr hf hn ho => exact fault_step hs hr hf hn ho
    | flushAsked hs hr ha hl hd hm hn ho => exact flushAsked_step hs hr ha hd hm hn ho
    | flushing hs hn ha hf ho => exact flushing_step hs hn ha hf ho
    | halted hs hi hf hn ho => exact halted_step hs hi hf hn ho
    | resuming hs hi hf hv hd ho => exact resuming_step h hs hi hf hv hd
    | resumed hs hr hf hn ha ho => exact resumed_step h hs hr hf hn ha ho
  · exact h.dqPtrs.step
  · intro hr
    cases hclr : (s.l1i.ctl (s.l1iIn i)).tClearFq
    · refine (h.fqPtrs ?_).step acks
      have hrun : (s.l1i.step (s.l1iIn i)).running = true := hr
      rw [L1i.running_step, hclr, Bool.not_false, Bool.and_true, Bool.or_eq_true] at hrun
      refine hrun.resolve_left fun hk => ?_
      rw [(L1i.restartAck_spec hk).2.2.1] at hclr
      cases hclr
    · exact .of_clear hclr
  · intro hr
    cases hclr : (s.l1i.ctl (s.l1iIn i)).tClearFq
    · have hrun : (s.l1i.step (s.l1iIn i)).running = false := hr
      rw [L1i.running_step, hclr, Bool.not_false, Bool.and_true, Bool.or_eq_false_iff] at hrun
      exact L1i.fqView_empty_step (h.fqEmpty hrun.2) acks (L1i.pushed_of_not_running hrun.2)
    · exact L1i.fqView_clear hclr

theorem Linked.init (rob : RobPtr → RobEntry) (bob : BitVec 2 → BobEntry) (dq : BitVec 2 → Uop)
    (p : L1iPowerUp) : Linked ⟨Core.init rob bob dq, L1i.init p⟩ ⟨[], []⟩ where
  phase := by
    refine .flushing (.inr rfl) ⟨rfl, rfl⟩ rfl ⟨?_, ?_, ?_⟩ (List.prefix_refl _)
    · intro h
      cases h
    · intro _
      rfl
    · rintro (h | h) <;> cases h
  dqPtrs := (Core.init_ptrs rob bob dq).toDqPtrs
  fqPtrs h := by cases h
  fqEmpty _ := L1i.fqView_eq_nil.mpr rfl

end Front

/-- The core and its instruction cache with the history since the latest restart. -/
def restartMachine : Clocked.Machine (Front × Since) FrontIn :=
  frontMachine.observed ⟨[], []⟩ fun o s i => o.next s i

theorem reach_linked {x : Front × Since}
    (h : restartMachine.Reach (fun _ i => CompletesFully i) x) : Front.Linked x.1 x.2 := by
  refine h.invariant (P := fun x : Front × Since => Front.Linked x.1 x.2) ?_
    fun x i hx he => hx.step he
  rintro ⟨⟨c, l⟩, o⟩ ⟨⟨⟨rob, bob, dq, rfl⟩, p, rfl⟩, rfl⟩
  exact .init rob bob dq p

theorem Front.Linked.noReq_of_alloc {s : Front} {i : FrontIn} {o : Since} (h : s.Linked o)
    (ha : (s.core.ctl (s.coreIn i)).tAlloc = true) : s.NoReq := by
  have hclash : ∀ {b : Bool}, b = true → b = false → False := fun h h' => by
    rw [h] at h'
    cases h'
  cases h.phase with
  | flow hs hr hf hn hq => exact hn
  | serial hs hr hf hn ha' u us junk hd hq => exact hn
  | waiting hs hr hf hn ha' ho => exact hn
  | drained hs hr hf hn hq ha' => exact hn
  | fault hs hr hf hn ho => exact hn
  | flushAsked hs hr ha' hl hd hm hn ho => exact hn
  | flushing hs hn ha' hf ho => exact hn
  | halted hs hi hf hn ho => exact hn
  | resumed hs hr hf hn ha' ho => exact hn
  | tail hs hf hv hr ho => exact (hclash ha (nAllocated_of_empty h.dqPtrs ho.dq).2).elim
  | asking hs hr hf hv ha' hc hd ho => exact (hclash ha (waits_complete hs hc).2.2.1).elim
  | asked hs hf hv ha' hc hr ho => exact (hclash ha (waits_complete hs hc).2.2.1).elim
  | draining hs hr hf hv ha' ho => exact (hclash ha (drainsMove hs).2.1).elim
  | resuming hs hi hf hv hd ho => exact (hclash ha (nAllocated_of_empty h.dqPtrs hd).2).elim

theorem Front.Linked.ordered {s : Front} {o : Since} (h : s.Linked o) : o.Ordered := by
  cases h.phase with
  | flow hs hr hf hn hq => exact Front.ordered_of_view hq
  | tail hs hf hv hr ho => exact ho.ordered
  | serial hs hr hf hn ha u us junk hd hq => exact Front.ordered_of_serial hq
  | waiting hs hr hf hn ha ho => exact ho
  | asking hs hr hf hv ha hc hd ho => exact ho
  | asked hs hf hv ha hc hr ho => exact ho.ordered
  | draining hs hr hf hv ha ho => exact ho
  | drained hs hr hf hn hq ha =>
      rw [Since.Ordered, ha]
      exact List.nil_prefix
  | fault hs hr hf hn ho => exact ho
  | flushAsked hs hr ha hl hd hm hn ho => exact ho
  | flushing hs hn ha hf ho => exact ho
  | halted hs hi hf hn ho => exact ho
  | resuming hs hi hf hv hd ho => exact ho
  | resumed hs hr hf hn ha ho => exact ho.ordered

/-- In ACTIVE what was pushed is allocated or in one of the queues, and a restart can only be
pending for the request that is still up from a wait. -/
theorem Front.Linked.of_active {s : Front} {o : Since} (h : s.Linked o)
    (hs : s.core.rState = .active) : (s.NoReq ∨ s.core.rRestartValid = true) ∧
      o.pushed.map decodeRiscv =
        o.allocated ++ dqView s.core ++ s.l1i.fqView.map decodeRiscv := by
  have hother : ∀ {q : CoreState}, s.core.rState = q → q ≠ .active → False :=
    fun hq hne => hne (hq.symm.trans hs)
  cases h.phase with
  | flow _ hr hf hn hq => exact ⟨.inl hn, hq⟩
  | tail _ hf hv hr ho =>
      rw [ho.pushed, ho.allocated, ho.dq, ho.fq]
      exact ⟨.inr hv, rfl⟩
  | serial hs' => exact absurd hs hs'.ne.1
  | waiting hs' | asking hs' | asked hs' => exact absurd hs hs'.ne.1
  | draining hs' | drained hs' => exact absurd hs hs'.ne.1
  | fault hs' | flushAsked hs' | halted hs' | resuming hs' | resumed hs' =>
      exact (hother hs' (by decide)).elim
  | flushing hs' =>
      rcases hs' with hs' | hs'
      · exact (hother hs' (by decide)).elim
      · exact (hother hs' (by decide)).elim

/-- ACTIVE begins with an empty history. -/
theorem Front.Linked.allocated_entering {s : Front} {i : FrontIn} {o : Since} (h : s.Linked o)
    (hs : s.core.rState ≠ .active) (hn : (s.core.ctl (s.coreIn i)).nState = .active) :
    (o.next s i).allocated = [] := by
  have hgranted : s.restarts i = true → (o.next s i).allocated = [] := fun hk => by
    rw [next_of_restarts hk]
  have hkept : o.allocated = [] → (s.core.ctl (s.coreIn i)).tAlloc = false →
      (o.next s i).allocated = [] := fun ha hal => by
    cases hk : s.restarts i
    · rw [next_of_none hk, allocatedUops_of_none hal, ha]
      rfl
    · exact hgranted hk
  have hstays : ∀ {q : CoreState}, (s.core.ctl (s.coreIn i)).nState = q → q ≠ .active → False :=
    fun hq hne => hne (hq.symm.trans hn)
  cases h.phase with
  | flow hs' hr hf hn' hq => exact absurd hs' hs
  | tail hs' hf hv hr ho => exact absurd hs' hs
  | serial hs' hr hf hn' ha u us junk hd hq =>
      rcases (serialMove (i := s.coreIn i) hs').2.2 with ⟨hq, -⟩ | hq
      · rw [hn] at hq
        rcases hq with hq | hq | hq | hq <;> cases hq
      · rw [hn] at hq
        rcases hq with hq | hq <;> cases hq
  | waiting hs' hr hf hn' ha ho =>
      cases hc : s.core.tRobHeadComplete
      · rw [waits_incomplete hs' hc] at hn
        exact absurd hn hs
      · have hst := (waits_complete (i := s.coreIn i) hs' hc).2.2.2.2.2.2
        rw [nGotRestartAck_of_noAck ha] at hst
        exact (hstays hst hs).elim
  | asking hs' hr hf hv ha hc hd ho =>
      have hst := (waits_complete (i := s.coreIn i) hs' hc).2.2.2.2.2.2
      rw [nGotRestartAck_of_noAck ha] at hst
      exact (hstays hst hs).elim
  | asked hs' hf hv ha hc hr ho => exact hgranted (hr.acks (anyRestartReq_of_or (.inl hv)) hf.asked)
  | draining hs' hr hf hv ha ho =>
      rcases ha with ha | hready
      · rcases (drainsMove (i := s.coreIn i) hs').2.2 with hq | ⟨-, hg, -⟩
        · rw [hn] at hq
          rcases hq with hq | hq <;> cases hq
        · rw [nGotRestartAck_of_noAck ha] at hg
          cases hg
      · exact hgranted (hready.acks (anyRestartReq_of_or hv) hf.asked)
  | drained hs' hr hf hn' hq ha => exact hkept ha (drainsMove hs').2.1
  | fault hs' hr hf hn' ho => exact (hstays (archFaultMove hs').1 (by decide)).elim
  | flushAsked hs' hr ha hl hd hm hn' ho =>
      rw [ctl, hs'] at hn
      cases hn
  | flushing hs' hn' ha hf ho =>
      rcases hs' with hs' | hs'
      · rw [ctl, hs'] at hn
        cases hn
      · rcases (flushForHaltMove (i := s.coreIn i) hs').2.2 with hq | ⟨hq, -⟩
        · exact (hstays hq (by decide)).elim
        · exact (hstays hq (by decide)).elim
  | halted hs' hi hf hn' ho =>
      rcases (haltMove (i := s.coreIn i) hs').2 with ⟨hq, -⟩ | ⟨hq, -⟩
      · exact (hstays hq (by decide)).elim
      · exact (hstays hq (by decide)).elim
  | resuming hs' hi hf hv hd ho => exact hgranted (L1i.idle_acks hi (anyRestartReq_of_or (.inl hv)))
  | resumed hs' hr hf hn' ha ho =>
      refine hkept ho.allocated ?_
      rw [ctl, hs']
      rfl

/-- **The restart protocol.**  The uops allocated since the latest restart are, in order, the
first of the instructions pushed into the fetch queue since then, and when a uop is allocated
every restart that the core has asked for has been granted. -/
theorem restart_protocol {s : Front} {o : Since}
    (h : restartMachine.Reach (fun _ i => CompletesFully i) (s, o)) :
    o.allocated <+: o.pushed.map decodeRiscv ∧
      ∀ i, (s.core.ctl (s.coreIn i)).tAlloc = true →
        s.core.rRestartValid = false ∧ s.l1i.rRestartReq = false :=
  have hl := reach_linked h
  ⟨hl.ordered, fun _ ha => ⟨(hl.noReq_of_alloc ha).now, (hl.noReq_of_alloc ha).before⟩⟩

/-- The caches report their flush, the host resumes the core, the instruction cache misses,
fills the line and fetches; the core takes two instructions and allocates them. -/
def restartInputs : List FrontIn :=
  [.quiet { CoreIn.idle with l1dFlushComplete := true, l2FlushComplete := true },
   .quiet { CoreIn.idle with resume := true }, .quiet CoreIn.idle, .quiet CoreIn.idle,
   .quiet CoreIn.idle, .quiet CoreIn.idle,
   ⟨CoreIn.idle, true, 0x00100193#32 ++ 0x00100193#32 ++ 0x00100113#32 ++ 0x00100093#32⟩,
   .quiet CoreIn.idle,
   .quiet CoreIn.idle, .quiet CoreIn.idle, .quiet CoreIn.idle]

theorem CompletesFully.of_silent {i : FrontIn} (h1 : i.core.tCompleteValid1 = false)
    (h2 : i.core.tCompleteValid2 = false) : CompletesFully i :=
  ⟨fun h => (Bool.false_ne_true (h1.symm.trans h)).elim,
    fun h => (Bool.false_ne_true (h2.symm.trans h)).elim⟩

theorem reach_restart : restartMachine.Reach (fun _ i => CompletesFully i)
    (restartMachine.run (Front.boot, ⟨[], []⟩) restartInputs) := by
  have hboot : restartMachine.Reach (fun _ i => CompletesFully i) (Front.boot, ⟨[], []⟩) := by
    refine Front.reach_boot (M := restartMachine) (fun s => (s, ⟨[], []⟩)) (.quiet CoreIn.idle)
      (.reset ⟨⟨⟨_, _, _, rfl⟩, _, rfl⟩, rfl⟩) fun n s hs => ⟨.of_silent rfl rfl, ?_⟩
    refine Prod.ext rfl ?_
    cases hs with
    | initial => cases n <;> rfl
    | initPht k => cases n <;> rfl
    | flush j => cases n <;> rfl
  have hq : ∀ c : CoreIn, c.tCompleteValid1 = false → c.tCompleteValid2 = false →
      CompletesFully (.quiet c) := fun _ h1 h2 => .of_silent h1 h2
  exact hboot.run ⟨hq _ rfl rfl, hq _ rfl rfl, hq _ rfl rfl, hq _ rfl rfl, hq _ rfl rfl,
    hq _ rfl rfl, .of_silent rfl rfl, hq _ rfl rfl, hq _ rfl rfl, hq _ rfl rfl, hq _ rfl rfl, trivial⟩

theorem restart_protocol_two : ∃ s o, restartMachine.Reach (fun _ i => CompletesFully i) (s, o) ∧
    o.pushed.length = 4 ∧ o.allocated.length = 2 ∧
      o.allocated <+: o.pushed.map decodeRiscv ∧
      ∀ i, (s.core.ctl (s.coreIn i)).tAlloc = true →
        s.core.rRestartValid = false ∧ s.l1i.rRestartReq = false := by
  have h := reach_restart
  refine ⟨_, _, h, ?_, ?_, restart_protocol h⟩
  · rfl
  · rfl

end Rv32Core
