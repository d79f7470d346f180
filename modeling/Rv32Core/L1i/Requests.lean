import Rv32Core.L1i.FetchQueue

/-! # Restart and flush requests at the instruction cache

A request is latched until the state machine accepts it.  While nothing else is waiting a
restart leaves the cache `Ready`, and in that state the next restart is accepted at once. -/

namespace Rv32Core

open RingBuffer

namespace L1i

variable {s : L1i} {i : L1iIn}

/-- The state after an accepted restart: no lookup to wait for and no flush. -/
structure Ready (s : L1i) : Prop where
  active : s.rState = .active
  steady : s.rResteerBubble = false
  noFlush : s.rFlushReq = false

theorem running_of_active (hs : s.rState = .active) : s.running = true := by
  rw [running, hs]
  rfl

theorem not_running_of_idle (hs : s.rState = .idle) : s.running = false := by
  rw [running, hs]
  rfl

theorem running_step : (s.step i).running =
    ((s.ctl i).nRestartAck || (s.running && !(s.ctl i).tClearFq)) := by
  have hrun : (s.step i).running = (s.ctl i).nState.fetching := rfl
  rw [hrun]
  cases s.move i with
  | boot hs hc =>
      rw [hc, running, hs]
      rfl
  | initPht hs hc =>
      rw [hc, running, hs]
      show (if s.rInitPhtIdx = 0xffff then L1iState.flushCache else .initPht).fetching = false
      split_ifs <;> rfl
  | walk hs hc =>
      rw [hc, running, hs]
      show (if s.rCacheIdx = 4095 then L1iState.idle else .flushCache).fetching = false
      split_ifs <;> rfl
  | idle hs hr hc =>
      rw [hc, running, hs]
      show s.rState.fetching = false
      rw [hs]
      rfl
  | restart c hs hn hr hb hd hc =>
      rw [hc]
      rfl
  | flush c hs hn hf hd hc =>
      rw [hc, hs]
      show false = (c.nRestartAck || false)
      rw [hd.ack]
      rfl
  | push n hs hb hh hj hp hc =>
      rw [hc, running, hs, s.pushCtl_frame L1iCtl.nState, s.pushCtl_frame L1iCtl.nRestartAck,
        s.pushCtl_frame L1iCtl.tClearFq]
      show s.rState.fetching = true
      rw [hs]
      rfl
  | reload hs hc =>
      rw [hc, running, hs]
      show (if i.memRspValid then L1iState.reloadTurnaround else .injectReload).fetching = true
      split_ifs <;> rfl
  | hold hs hfull pc hc =>
      rw [hc, running]
      rcases hs with hs | hs
      all_goals
        show s.rState.fetching = (s.rState.fetching && true)
        rw [hs]
        rfl
  | resume hs hfull hc =>
      rw [hc, running]
      rcases hs with hs | hs <;> rw [hs] <;> rfl
  | lookup hs hr hc | jump hs hb hh hfull hj hc =>
      rw [hc, running, hs]
      show s.rState.fetching = true
      rw [hs]
      rfl
  | miss hs hb hm hc | stall hs hb hh hfull hc =>
      rw [hc, running, hs]
      rfl

/-- Only a restart is acknowledged. -/
theorem restart_of_ack (h : (s.ctl i).nRestartAck = true) :
    ∃ c, (s.rState = .idle ∨ s.running = true) ∧ s.anyRestartReq i = true ∧ s.Plain i c ∧
      s.ctl i = restartCtl i c := by
  cases s.move i with
  | restart c hs hn hr hb hd hc => exact ⟨c, hs, hr, hd, hc⟩
  | push n hs hb hh hj hp hc =>
      rw [hc, s.pushCtl_frame L1iCtl.nRestartAck] at h
      cases h
  | flush c hs hn hf hd hc =>
      rw [hc] at h
      exact absurd (hd.ack.symm.trans h) (by simp)
  | boot hs hc | initPht hs hc | walk hs hc | idle hs hr hc | lookup hs hr hc | miss hs hb hm hc
  | stall hs hb hh hfull hc | jump hs hb hh hfull hj hc | reload hs hc | hold hs hfull pc hc
  | resume hs hfull hc =>
      rw [hc] at h
      cases h

theorem restartAck_spec (h : (s.ctl i).nRestartAck = true) :
    (s.rState = .idle ∨ s.running = true) ∧ s.anyRestartReq i = true ∧
      (s.ctl i).tClearFq = true ∧ (s.ctl i).nState = .active ∧ (s.ctl i).nReq = false ∧
      (s.ctl i).nResteerBubble = false ∧ (s.ctl i).nPc = i.restartPc := by
  obtain ⟨c, hs, hr, hd, hc⟩ := restart_of_ack h
  rw [hc]
  exact ⟨hs, hr, rfl, rfl, rfl, hd.bubble, rfl⟩

theorem silent_of_ack (h : (s.ctl i).nRestartAck = true) : (s.ctl i).Silent := by
  obtain ⟨c, -, -, hd, hc⟩ := restart_of_ack h
  rw [hc]
  exact ⟨hd.one, hd.two, hd.three, hd.four, hd.bubble, hd.call, hd.ret, hd.hist⟩

theorem nRestartReq_eq :
    (s.ctl i).nRestartReq = (s.anyRestartReq i && !(s.ctl i).nRestartAck) := by
  cases s.move i with
  | restart c hs hn hr hb hd hc =>
      rw [hc]
      show false = (s.anyRestartReq i && !true)
      simp
  | push n hs hb hh hj hp hc =>
      rw [hc, s.pushCtl_frame L1iCtl.nRestartReq, s.pushCtl_frame L1iCtl.nRestartAck]
      show s.anyRestartReq i = (s.anyRestartReq i && !false)
      simp
  | flush c hs hn hf hd hc =>
      rw [hc]
      show c.nRestartReq = (s.anyRestartReq i && !c.nRestartAck)
      rw [hd.restartReq, hd.ack]
      simp
  | boot hs hc | initPht hs hc | walk hs hc | idle hs hr hc | lookup hs hr hc | miss hs hb hm hc
  | stall hs hb hh hfull hc | jump hs hb hh hfull hj hc | reload hs hc | hold hs hfull pc hc
  | resume hs hfull hc =>
      rw [hc]
      show s.anyRestartReq i = (s.anyRestartReq i && !false)
      simp

theorem clear_spec (h : (s.ctl i).tClearFq = true) (hack : (s.ctl i).nRestartAck = false) :
    s.running = true ∧ s.anyFlushReq i = true ∧ (s.ctl i).nState = .flushCache ∧
      (s.ctl i).nFlushReq = false ∧ (s.ctl i).nFlushComplete = false := by
  cases s.move i with
  | restart c hs hn hr hb hd hc =>
      rw [hc] at hack
      cases hack
  | flush c hs hn hf hd hc =>
      rw [hc]
      exact ⟨hs, hf, rfl, rfl, hd.flushComplete⟩
  | push n hs hb hh hj hp hc =>
      rw [hc, s.pushCtl_frame L1iCtl.tClearFq] at h
      cases h
  | boot hs hc | initPht hs hc | walk hs hc | idle hs hr hc | lookup hs hr hc | miss hs hb hm hc
  | stall hs hb hh hfull hc | jump hs hb hh hfull hj hc | reload hs hc | hold hs hfull pc hc
  | resume hs hfull hc =>
      rw [hc] at h
      cases h

theorem nFlushReq_eq :
    (s.ctl i).nFlushReq =
      (s.anyFlushReq i && !((s.ctl i).tClearFq && !(s.ctl i).nRestartAck)) := by
  cases s.move i with
  | restart c hs hn hr hb hd hc =>
      rw [hc]
      show c.nFlushReq = (s.anyFlushReq i && !(true && !true))
      rw [hd.flushReq]
      simp
  | flush c hs hn hf hd hc =>
      rw [hc]
      show false = (s.anyFlushReq i && !(true && !c.nRestartAck))
      rw [hd.ack]
      simp
  | push n hs hb hh hj hp hc =>
      rw [hc, s.pushCtl_frame L1iCtl.nFlushReq, s.pushCtl_frame L1iCtl.tClearFq,
        s.pushCtl_frame L1iCtl.nRestartAck]
      show s.anyFlushReq i = (s.anyFlushReq i && !(false && !false))
      simp
  | boot hs hc | initPht hs hc | walk hs hc | idle hs hr hc | lookup hs hr hc | miss hs hb hm hc
  | stall hs hb hh hfull hc | jump hs hb hh hfull hj hc | reload hs hc | hold hs hfull pc hc
  | resume hs hfull hc =>
      rw [hc]
      show s.anyFlushReq i = (s.anyFlushReq i && !(false && !false))
      simp

theorem nFlushComplete_spec (h : (s.ctl i).nFlushComplete = true) :
    s.rState = .flushCache ∧ (s.ctl i).nState = .idle := by
  cases s.move i with
  | walk hs hc =>
      rw [hc] at h ⊢
      exact ⟨hs, if_pos (beq_iff_eq.mp h)⟩
  | restart c hs hn hr hb hd hc | flush c hs hn hf hd hc =>
      rw [hc] at h
      exact absurd (hd.flushComplete.symm.trans h) (by simp)
  | push n hs hb hh hj hp hc =>
      rw [hc, s.pushCtl_frame L1iCtl.nFlushComplete] at h
      cases h
  | boot hs hc | initPht hs hc | idle hs hr hc | lookup hs hr hc | miss hs hb hm hc
  | stall hs hb hh hfull hc | jump hs hb hh hfull hj hc | reload hs hc | hold hs hfull pc hc
  | resume hs hfull hc =>
      rw [hc] at h
      cases h

/-! ### One cycle -/

theorem Ready.of_ack (h : (s.ctl i).nRestartAck = true) (hf : s.anyFlushReq i = false) :
    (s.step i).Ready := by
  obtain ⟨-, -, -, hst, -, hb, -⟩ := restartAck_spec h
  refine ⟨hst, hb, ?_⟩
  show (s.ctl i).nFlushReq = false
  rw [nFlushReq_eq, hf]
  rfl

/-- A ready cache accepts a restart at once. -/
theorem Ready.acks (h : s.Ready) (hr : s.anyRestartReq i = true) (hf : i.flushReq = false) :
    (s.ctl i).nRestartAck = true := by
  have hnf : s.anyFlushReq i = false := by rw [anyFlushReq, h.noFlush, hf]; rfl
  have hc : s.ctl i = restartCtl i (s.lookupCtl i) := by
    show s.ctl i = _
    unfold ctl
    rw [h.active]
    show s.activeCtl i = _
    rw [activeCtl, h.steady, hnf, hr]
    rfl
  rw [hc]
  rfl

theorem idle_acks (hs : s.rState = .idle) (hr : s.anyRestartReq i = true) :
    (s.ctl i).nRestartAck = true := by
  have hc : s.ctl i = s.idleCtl i := by
    unfold ctl
    rw [hs]
  rw [hc, idleCtl, hr]
  rfl

theorem nRestartAck_of_no_req (h : s.anyRestartReq i = false) : (s.ctl i).nRestartAck = false := by
  by_contra ha
  rw [(restartAck_spec (Bool.not_eq_false _ ▸ ha)).2.1] at h
  cases h

/-- Without a flush request the queue is cleared by an acknowledged restart only. -/
theorem tClearFq_of_no_flush (h : s.anyFlushReq i = false) :
    (s.ctl i).tClearFq = (s.ctl i).nRestartAck := by
  cases ha : (s.ctl i).nRestartAck
  · by_contra hc
    rw [(clear_spec (Bool.not_eq_false _ ▸ hc) ha).2.1] at h
    cases h
  · exact (restartAck_spec ha).2.2.1

theorem pushed_of_not_running (h : s.running = false) : s.pushed i = [] := by
  rcases s.silent_or_delivers i with hd | ⟨n, hd⟩
  · exact pushed_of_silent hd
  · rw [running_of_active hd.active] at h
    cases h

theorem step_idle (hs : s.rState = .idle) (hr : s.anyRestartReq i = false) :
    (s.step i).rState = .idle := by
  have hc : s.ctl i = s.dfltCtl i := by
    have hc : s.ctl i = s.idleCtl i := by
      unfold ctl
      rw [hs]
    rw [hc, idleCtl, hr]
    rfl
  show (s.ctl i).nState = .idle
  rw [hc]
  exact hs

end L1i
end Rv32Core
