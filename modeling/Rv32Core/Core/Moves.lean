import Rv32Core.Core.Spec

/-! # Where the state machine of the core goes

ACTIVE is left in four ways only: a drain, an architectural fault, and, with nothing in the
reorder buffer, towards a serializing uop at the head of the decode queue (`ActiveMove`).  The
other states are read off their definitions. -/

namespace Rv32Core

open RingBuffer

namespace Core

variable (s : Core) (i : CoreIn)

/-- What a cycle of ACTIVE leads to. -/
inductive ActiveMove : Prop
  | stay (hn : (s.ctl i).nState = .active) (hr : (s.ctl i).nRestartValid = false)
  | drain (hn : (s.ctl i).nState = .drain) (hr : (s.ctl i).nRestartValid = true)
      (ha : (s.ctl i).tAlloc = false) (he : s.tRobEmpty = false)
  | fault (hn : (s.ctl i).nState = .archFault) (hr : (s.ctl i).nRestartValid = false)
      (ha : (s.ctl i).tAlloc = false) (hc : s.tCanRetireRobHead = true)
      (hf : s.tArchFault = true)
  | serial
      (hn : (s.ctl i).nState = .allocForSerialize ∨ (s.ctl i).nState = .monitorFlushCache)
      (hr : (s.ctl i).nRestartValid = false) (ha : (s.ctl i).tAlloc = false)
      (he : s.tRobEmpty = true) (hd : s.tDqEmpty = false) (hz : s.tUop.serializingOp = true)

variable {s i}

theorem ctl_of_active (hs : s.rState = .active) : s.ctl i = s.activeCtl i := by
  unfold ctl
  rw [hs]

theorem faultCtl_move :
    (s.tArchFault = true → (s.faultCtl i).nState = .archFault ∧
      (s.faultCtl i).nRestartValid = false ∧ (s.faultCtl i).tAlloc = false) ∧
    (s.tArchFault = false → (s.faultCtl i).nState = .drain ∧
      (s.faultCtl i).nRestartValid = true ∧ (s.faultCtl i).tAlloc = false) := by
  unfold faultCtl
  constructor
  · intro ha
    rw [ha]
    exact ⟨rfl, rfl, rfl⟩
  · intro ha
    rw [ha]
    exact ⟨rfl, rfl, rfl⟩

theorem activeMove (hs : s.rState = .active) : s.ActiveMove i := by
  have hctl := ctl_of_active (i := i) hs
  unfold activeCtl at hctl
  by_cases h1 : (s.rExternIrq && !s.tRobEmpty) = true
  · rw [if_pos h1] at hctl
    rw [Bool.and_eq_true, Bool.not_eq_true'] at h1
    exact .drain (by rw [hctl]; rfl) (by rw [hctl]; rfl) (by rw [hctl]; rfl) h1.2
  rw [if_neg h1] at hctl
  by_cases h2 : s.tCanRetireRobHead = true
  · rw [if_pos h2] at hctl
    have hne : s.tRobEmpty = false := by
      rw [tCanRetireRobHead, Bool.and_eq_true, Bool.not_eq_true'] at h2
      exact h2.2
    unfold canRetireCtl at hctl
    by_cases hf : s.tRobHead.faulted = true
    · rw [if_pos hf] at hctl
      obtain ⟨hfault, hdrain⟩ := faultCtl_move (s := s) (i := i)
      cases ha : s.tArchFault
      · obtain ⟨h3, h4, h5⟩ := hdrain ha
        exact .drain (by rw [hctl]; exact h3) (by rw [hctl]; exact h4) (by rw [hctl]; exact h5) hne
      · obtain ⟨h3, h4, h5⟩ := hfault ha
        exact .fault (by rw [hctl]; exact h3) (by rw [hctl]; exact h4) (by rw [hctl]; exact h5) h2 ha
    · rw [if_neg hf] at hctl
      have hstay : (s.retireCtl i).nState = .active ∧ (s.retireCtl i).nRestartValid = false := by
        unfold retireCtl
        rw [hne]
        simp only [Bool.false_eq_true, if_false]
        split_ifs <;> exact ⟨hs, rfl⟩
      exact .stay (by rw [hctl]; exact hstay.1) (by rw [hctl]; exact hstay.2)
  · rw [if_neg h2] at hctl
    unfold noRetireCtl at hctl
    by_cases hd : s.tDqEmpty = true
    · rw [if_pos hd] at hctl
      exact .stay (by rw [hctl]; exact hs) (by rw [hctl]; rfl)
    rw [if_neg hd] at hctl
    rw [Bool.not_eq_true] at hd
    by_cases hz : (s.tUop.serializingOp && s.tRobEmpty) = true
    · rw [if_pos hz] at hctl
      rw [Bool.and_eq_true] at hz
      by_cases hm : s.tUop.op = .monitor
      · rw [if_pos hm] at hctl
        exact .serial (.inr (by rw [hctl])) (by rw [hctl]; rfl) (by rw [hctl]; rfl) hz.2 hd hz.1
      · rw [if_neg hm] at hctl
        exact .serial (.inl (by rw [hctl])) (by rw [hctl]; rfl) (by rw [hctl]; rfl) hz.2 hd hz.1
    · rw [if_neg hz] at hctl
      by_cases hn : (!s.tUop.serializingOp) = true
      · rw [if_pos hn] at hctl
        exact .stay (by rw [hctl]; exact hs) (by rw [hctl]; rfl)
      · rw [if_neg hn] at hctl
        exact .stay (by rw [hctl]; exact hs) (by rw [hctl]; rfl)

theorem activeCtl_flush :
    (s.activeCtl i).nFlushReqL1i = false ∧
      (s.activeCtl i).nL1iFlushComplete = (s.rL1iFlushComplete || i.l1iFlushComplete) := by
  unfold activeCtl
  split_ifs with h1 h2
  · exact ⟨rfl, rfl⟩
  · simp only [canRetireCtl, faultCtl, retireCtl]
    split_ifs <;> exact ⟨rfl, rfl⟩
  · simp only [noRetireCtl]
    split_ifs <;> exact ⟨rfl, rfl⟩

theorem ctl_flush : (s.ctl i).nFlushReqL1i = decide (s.rState = .archFault) ∧
    ((s.ctl i).nL1iFlushComplete = true → (s.rL1iFlushComplete || i.l1iFlushComplete) = true) := by
  cases hs : s.rState
  case active =>
    rw [ctl_of_active hs, activeCtl_flush.1, activeCtl_flush.2]
    exact ⟨rfl, id⟩
  all_goals
    simp only [ctl, hs, drainCtl, ratCtl, allocForSerializeCtl, waitForSerializeAndRestartCtl,
      monitorFlushCacheCtl, handleMonitorCtl, allocForMonitorCtl, waitForMonitorCtl,
      flushForHaltCtl, haltCtl, haltWaitForRestartCtl, archFaultCtl, writeEpcCtl,
      writeCauseCtl]
    (try split_ifs) <;> exact ⟨rfl, fun h => by first | exact h | exact h.elim⟩

theorem ctl_nFlushReqL1i : (s.ctl i).nFlushReqL1i = decide (s.rState = .archFault) := ctl_flush.1

theorem ctl_nL1iFlushComplete_le (h : (s.ctl i).nL1iFlushComplete = true) :
    (s.rL1iFlushComplete || i.l1iFlushComplete) = true := ctl_flush.2 h

/-! ### The other states -/

/-- The core stands before a serializing uop. -/
def Serial (c : CoreState) : Prop :=
  c = .allocForSerialize ∨ c = .monitorFlushCache ∨ c = .handleMonitor ∨ c = .allocForMonitor

/-- The core waits for the serializing uop to complete and for its restart. -/
def Waits (c : CoreState) : Prop := c = .waitForSerializeAndRestart ∨ c = .waitForMonitor

/-- The core drains or restores its registers. -/
def Drains (c : CoreState) : Prop := c = .drain ∨ c = .rat

/-- Allocation leads on to the wait; so does ALLOC_FOR_MONITOR in any case. -/
theorem serialMove (hs : Serial s.rState) :
    (s.ctl i).nRestartValid = false ∧ (s.ctl i).tAllocTwo = false ∧
      (Serial (s.ctl i).nState ∧ (s.ctl i).tAlloc = false ∨ Waits (s.ctl i).nState) := by
  rcases hs with hs | hs | hs | hs <;> simp only [ctl, hs]
  · rw [allocForSerializeCtl]
    cases s.allocSerial i
    · exact ⟨rfl, rfl, .inl ⟨.inl rfl, rfl⟩⟩
    · exact ⟨rfl, rfl, .inr (.inl rfl)⟩
  · rw [monitorFlushCacheCtl]
    split_ifs
    · exact ⟨rfl, rfl, .inl ⟨.inr (.inr (.inl rfl)), rfl⟩⟩
    · exact ⟨rfl, rfl, .inl ⟨.inr (.inl hs), rfl⟩⟩
  · rw [handleMonitorCtl]
    split_ifs
    · exact ⟨rfl, rfl, .inl ⟨.inr (.inr (.inr rfl)), rfl⟩⟩
    · exact ⟨rfl, rfl, .inl ⟨.inr (.inr (.inl hs)), rfl⟩⟩
  · exact ⟨rfl, rfl, .inr (.inr rfl)⟩

theorem clrDq_of_serial (hs : Serial s.rState) : s.clrDq i = false := by
  rw [clrDq, ctl_tClrRob, ctl_tClrDq]
  rcases hs with hs | hs | hs | hs <;> rw [hs] <;> rfl

theorem clrDq_of_active (hs : s.rState = .active) : s.clrDq i = false := by
  rw [clrDq, ctl_of_active hs, activeCtl_clr.1, activeCtl_clr.2.2]
  rfl

theorem Serial.ne (hs : Serial s.rState) : s.rState ≠ .active ∧ s.rState ≠ .archFault := by
  rcases hs with hs | hs | hs | hs <;> rw [hs] <;> decide

theorem Waits.ne (hs : Waits s.rState) :
    s.rState ≠ .active ∧ s.rState ≠ .archFault ∧ s.rState ≠ .rat := by
  rcases hs with hs | hs <;> rw [hs] <;> decide

theorem Drains.ne (hs : Drains s.rState) : s.rState ≠ .active ∧ s.rState ≠ .archFault := by
  rcases hs with hs | hs <;> rw [hs] <;> decide

/-- Until the serializing uop is complete nothing happens. -/
theorem waits_incomplete (hs : Waits s.rState) (h : s.tRobHeadComplete = false) :
    s.ctl i = s.dfltCtl i := by
  rcases hs with hs | hs
  · rw [ctl, hs]
    show s.waitForSerializeAndRestartCtl i = _
    rw [waitForSerializeAndRestartCtl, h]
    rfl
  · rw [ctl, hs]
    show s.waitForMonitorCtl i = _
    rw [waitForMonitorCtl, h]
    rfl

/-- Then the restart is asked for, until an acknowledge has been seen. -/
theorem waits_complete (hs : Waits s.rState) (h : s.tRobHeadComplete = true) :
    (s.ctl i).nRestartValid = true ∧ (s.ctl i).tClrDq = true ∧ (s.ctl i).tAlloc = false ∧
      (s.ctl i).tAllocTwo = false ∧ (s.ctl i).tBumpRobHead = false ∧
      (s.ctl i).tRetire = (decide (s.rState = .waitForMonitor) && s.nGotRestartAck i) ∧
      (s.ctl i).nState = if s.nGotRestartAck i then .active else s.rState := by
  rcases hs with hs | hs
  · rw [ctl, hs]
    show (s.waitForSerializeAndRestartCtl i).nRestartValid = true ∧ _
    rw [waitForSerializeAndRestartCtl, h, hs]
    exact ⟨rfl, rfl, rfl, rfl, rfl, rfl, rfl⟩
  · rw [ctl, hs]
    show (s.waitForMonitorCtl i).nRestartValid = true ∧ _
    rw [waitForMonitorCtl, h, hs]
    exact ⟨rfl, rfl, rfl, rfl, rfl, rfl, rfl⟩

theorem clrDq_of_tClrDq (h : (s.ctl i).tClrDq = true) : s.clrDq i = true := by
  rw [clrDq, h, Bool.or_true]

/-- A drain is left from RAT only, with an acknowledge and an empty decode queue. -/
theorem drainsMove (hs : Drains s.rState) :
    (s.ctl i).nRestartValid = false ∧ (s.ctl i).tAlloc = false ∧
      (Drains (s.ctl i).nState ∨
        s.rState = .rat ∧ s.nGotRestartAck i = true ∧ (s.ctl i).nState = .active ∧
          (s.ctl i).tClrDq = true) := by
  rcases hs with hs | hs
  · simp only [ctl, hs, drainCtl]
    split_ifs
    · exact ⟨rfl, rfl, .inl (.inr rfl)⟩
    · exact ⟨rfl, rfl, .inl (.inl hs)⟩
  · simp only [ctl, hs, ratCtl]
    split_ifs with hg
    · exact ⟨rfl, rfl, .inr ⟨trivial, hg, rfl, rfl⟩⟩
    · exact ⟨rfl, rfl, .inl (.inr hs)⟩

theorem archFaultMove (hs : s.rState = .archFault) :
    (s.ctl i).nState = .writeEpc ∧ (s.ctl i).nRestartValid = false ∧
      (s.ctl i).tAlloc = false := by
  simp only [ctl, hs, archFaultCtl]
  split_ifs <;> exact ⟨rfl, rfl, rfl⟩

/-- The halted core is left with a restart and an empty decode queue. -/
theorem haltMove (hs : s.rState = .halt) :
    (s.ctl i).tAlloc = false ∧
      ((s.ctl i).nState = .halt ∧ (s.ctl i).nRestartValid = false ∨
        (s.ctl i).nState = .haltWaitForRestart ∧ (s.ctl i).nRestartValid = true ∧
          (s.ctl i).tClrDq = true) := by
  simp only [ctl, hs, haltCtl]
  split_ifs
  · exact ⟨rfl, .inr ⟨rfl, rfl, rfl⟩⟩
  · exact ⟨rfl, .inl ⟨hs, rfl⟩⟩

theorem haltWaitMove (hs : s.rState = .haltWaitForRestart) :
    (s.ctl i).nRestartValid = false ∧
      ((s.ctl i).nState = .active ∨ (s.ctl i).nState = .haltWaitForRestart) := by
  simp only [ctl, hs, haltWaitForRestartCtl]
  split_ifs
  · exact ⟨rfl, .inl rfl⟩
  · exact ⟨rfl, .inr rfl⟩

/-- The flush ends when all three levels have reported. -/
theorem flushForHaltMove (hs : s.rState = .flushForHalt) :
    (s.ctl i).tAlloc = false ∧ (s.ctl i).nRestartValid = false ∧
      ((s.ctl i).nState = .flushForHalt ∨
        (s.ctl i).nState = .halt ∧ (s.ctl i).nL1iFlushComplete = false ∧
          (s.rL1iFlushComplete || i.l1iFlushComplete) = true) := by
  simp only [ctl, hs, flushForHaltCtl]
  split_ifs with h
  · rw [Bool.and_eq_true, Bool.and_eq_true] at h
    exact ⟨rfl, rfl, .inr ⟨rfl, rfl, h.1.1⟩⟩
  · exact ⟨rfl, rfl, .inl hs⟩

theorem tRobHeadComplete_step (hs : s.rState ≠ .rat) (h : s.tRobHeadComplete = true)
    (ha : (s.ctl i).tAlloc = false) (ha2 : (s.ctl i).tAllocTwo = false)
    (hr : (s.ctl i).tRetire = false) (hb : (s.ctl i).tBumpRobHead = false)
    (h1 : i.tCompleteValid1 = true → i.tCompleteBundle1.complete = true)
    (h2 : i.tCompleteValid2 = true → i.tCompleteBundle2.complete = true) :
    (s.step i).tRobHeadComplete = true := by
  have hc : (s.ctl i).tClrRob = false := by rw [ctl_tClrRob, decide_eq_false hs]
  have hp : (s.step i).rRobHeadPtr = s.rRobHeadPtr := by
    show s.nRobHeadPtr i = s.rRobHeadPtr
    rw [nRobHeadPtr, bumpHead, hc, hr, hb]
    rfl
  rw [tRobHeadComplete, Bool.and_eq_true] at h ⊢
  rw [hp]
  constructor
  · show s.nRobSdComplete i _ = true
    simp only [nRobSdComplete, hc, ha, ha2, Bool.false_eq_true, if_false, writeIf_false,
      writeIf_apply]
    split_ifs
    · rfl
    · exact h.1
  · show s.nRobComplete i _ = true
    simp only [nRobComplete, hc, ha, ha2, Bool.false_eq_true, if_false, writeIf_false,
      writeIf_apply]
    split_ifs with c1 c2 c3
    · rfl
    · exact h2 c2.1
    · exact h1 c3.1
    · exact h.2

end Core
end Rv32Core
