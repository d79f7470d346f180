import Rv32Core.Core.Step

/-! # What one cycle of the core can do

One lemma per signal of the state machine: in which states it can be raised and which tests it
has passed.  The invariants of the core are derived from these lemmas, never by unfolding the
state machine again. -/

namespace Rv32Core

open RingBuffer

namespace Core

variable {s : Core} {i : CoreIn}

/-! ### Where the signals come from -/

theorem activeCtl_alloc (s : Core) (i : CoreIn) (a : Bool)
    (ha : a = (!(s.rExternIrq && !s.tRobEmpty) &&
      if s.tCanRetireRobHead then
        !s.tRobHead.faulted && (!s.tUop.serializingOp && s.allocOnRetire i)
      else s.allocNoRetire i)) :
    (s.activeCtl i).tAlloc = a ∧ (s.activeCtl i).tAllocTwo = (a && s.allocTwoToo i) := by
  rw [ha]
  unfold activeCtl
  by_cases h1 : (s.rExternIrq && !s.tRobEmpty) = true
  · simp [h1, irqCtl, dfltCtl]
  rw [if_neg h1, Bool.eq_false_iff.mpr h1]
  by_cases h2 : s.tCanRetireRobHead = true
  · simp only [h2, if_true, canRetireCtl]
    by_cases hf : s.tRobHead.faulted = true
    · simp only [hf, if_true, faultCtl]
      split_ifs <;> exact ⟨rfl, rfl⟩
    · simp only [Bool.not_eq_true] at hf
      simp only [hf, Bool.false_eq_true, if_false, retireCtl]
      by_cases hd : s.tDqEmpty = true
      · simp [hd, dfltCtl, allocOnRetire]
      · by_cases hz : s.tUop.serializingOp = true
        · simp only [hd, hz, if_true, Bool.false_eq_true, if_false]
          split_ifs <;> simp [dfltCtl]
        · simp [hd, hz]
  · simp only [h2, Bool.false_eq_true, if_false, noRetireCtl]
    by_cases hd : s.tDqEmpty = true
    · simp [hd, dfltCtl, allocNoRetire]
    · by_cases hz : s.tUop.serializingOp = true
      · simp only [hd, hz, Bool.false_eq_true, if_false, Bool.true_and, Bool.not_true]
        split_ifs <;> simp [dfltCtl, allocNoRetire, hz]
      · by_cases hb : s.tEnoughBob = true <;> simp [hd, hz, hb, allocNoRetire]

theorem activeCtl_tAlloc :
    (s.activeCtl i).tAlloc =
      (!(s.rExternIrq && !s.tRobEmpty) &&
        if s.tCanRetireRobHead then
          !s.tRobHead.faulted && (!s.tUop.serializingOp && s.allocOnRetire i)
        else s.allocNoRetire i) := (s.activeCtl_alloc i _ rfl).1

theorem activeCtl_tAllocTwo :
    (s.activeCtl i).tAllocTwo = ((s.activeCtl i).tAlloc && s.allocTwoToo i) :=
  (s.activeCtl_alloc i _ activeCtl_tAlloc).2

theorem activeCtl_tRetire :
    (s.activeCtl i).tRetire =
      (!(s.rExternIrq && !s.tRobEmpty) && s.tCanRetireRobHead && !s.tArchFault) := by
  unfold activeCtl
  split_ifs with h1 h2
  · simp [h1, irqCtl, dfltCtl]
  · have : s.tRobHeadComplete = true := by
      rw [tCanRetireRobHead, Bool.and_eq_true] at h2; exact h2.1
    simp [h1, h2, canRetireCtl, this]
  · simp only [noRetireCtl]
    split_ifs <;> simp [dfltCtl, h2]

theorem activeCtl_tRetireTwo :
    (s.activeCtl i).tRetireTwo =
      (!(s.rExternIrq && !s.tRobEmpty) && s.tCanRetireRobHead && (!s.tRobNextEmpty &&
        !s.tRobHead.faulted && !s.tRobNextHead.faulted && s.tRobHeadComplete &&
        s.tRobNextHeadComplete && !s.tRobHead.isBr && !s.tRobNextHead.isRet &&
        !s.tRobNextHead.isCall)) := by
  unfold activeCtl
  split_ifs with h1 h2
  · simp [h1, irqCtl, dfltCtl]
  · simp [h1, h2, canRetireCtl]
  · simp only [noRetireCtl]
    split_ifs <;> simp [dfltCtl, h2]

theorem activeCtl_tBumpRobHead :
    (s.activeCtl i).tBumpRobHead =
      (!(s.rExternIrq && !s.tRobEmpty) && s.tCanRetireRobHead && s.tRobHead.faulted &&
        !s.tArchFault) := by
  unfold activeCtl
  split_ifs with h1 h2
  · simp [h1, irqCtl, dfltCtl]
  · by_cases hf : s.tRobHead.faulted = true
    · by_cases ha : s.tArchFault = true <;> simp [h1, h2, canRetireCtl, hf, faultCtl, ha, dfltCtl]
    · simp only [Bool.not_eq_true] at hf
      simp only [canRetireCtl, hf, retireCtl, Bool.false_eq_true, if_false, Bool.and_false,
        Bool.false_and]
      split_ifs <;> rfl
  · simp only [noRetireCtl]
    split_ifs <;> simp [dfltCtl, h2]

theorem activeCtl_clr :
    (s.activeCtl i).tClrRob = false ∧ (s.activeCtl i).tRatCopy = false ∧
      (s.activeCtl i).tClrDq = false := by
  unfold activeCtl
  split_ifs with h1 h2
  · exact ⟨rfl, rfl, rfl⟩
  · simp only [canRetireCtl, faultCtl, retireCtl]
    split_ifs <;> exact ⟨rfl, rfl, rfl⟩
  · simp only [noRetireCtl]
    split_ifs <;> exact ⟨rfl, rfl, rfl⟩

/-! ### The signals of the whole machine -/

/-- The signals that move the queues, the reorder buffer and the register alias tables. -/
structure Drive where
  alloc : Bool := false
  allocTwo : Bool := false
  retire : Bool := false
  retireTwo : Bool := false
  bumpRobHead : Bool := false
  clrRob : Bool := false
  ratCopy : Bool := false
  clrDq : Bool := false

/-- These signals of a cycle. -/
def driveOf (c : Ctl) : Drive where
  alloc := c.tAlloc
  allocTwo := c.tAllocTwo
  retire := c.tRetire
  retireTwo := c.tRetireTwo
  bumpRobHead := c.tBumpRobHead
  clrRob := c.tClrRob
  ratCopy := c.tRatCopy
  clrDq := c.tClrDq

theorem ctl_drive :
    driveOf (s.ctl i) =
      match s.rState with
      | .active => driveOf (s.activeCtl i)
      | .rat => { clrRob := true, ratCopy := true, clrDq := true }
      | .allocForSerialize | .allocForMonitor => { alloc := s.allocSerial i }
      | .waitForSerializeAndRestart => { clrDq := s.tRobHeadComplete }
      | .waitForMonitor =>
          { retire := s.tRobHeadComplete && s.nGotRestartAck i, clrDq := s.tRobHeadComplete }
      | .halt => { clrDq := i.resume }
      | .writeCause => { bumpRobHead := true }
      | _ => {} := by
  unfold ctl
  cases s.rState <;>
    simp only [drainCtl, ratCtl, allocForSerializeCtl, waitForSerializeAndRestartCtl,
      monitorFlushCacheCtl, handleMonitorCtl, allocForMonitorCtl, waitForMonitorCtl,
      flushForHaltCtl, haltCtl, haltWaitForRestartCtl, archFaultCtl, writeEpcCtl,
      writeCauseCtl] <;>
    (try split_ifs) <;> simp [*, driveOf, dfltCtl]

theorem ctl_tAlloc :
    (s.ctl i).tAlloc =
      match s.rState with
      | .active => (s.activeCtl i).tAlloc
      | .allocForSerialize | .allocForMonitor => s.allocSerial i
      | _ => false := by
  have h := congrArg Drive.alloc (ctl_drive (s := s) (i := i))
  cases hs : s.rState <;> rw [hs] at h <;> exact h

theorem ctl_tAllocTwo :
    (s.ctl i).tAllocTwo =
      match s.rState with
      | .active => (s.activeCtl i).tAllocTwo
      | _ => false := by
  have h := congrArg Drive.allocTwo (ctl_drive (s := s) (i := i))
  cases hs : s.rState <;> rw [hs] at h <;> exact h

theorem ctl_tRetire :
    (s.ctl i).tRetire =
      match s.rState with
      | .active => (s.activeCtl i).tRetire
      | .waitForMonitor => s.tRobHeadComplete && s.nGotRestartAck i
      | _ => false := by
  have h := congrArg Drive.retire (ctl_drive (s := s) (i := i))
  cases hs : s.rState <;> rw [hs] at h <;> exact h

theorem ctl_tRetireTwo :
    (s.ctl i).tRetireTwo =
      match s.rState with
      | .active => (s.activeCtl i).tRetireTwo
      | _ => false := by
  have h := congrArg Drive.retireTwo (ctl_drive (s := s) (i := i))
  cases hs : s.rState <;> rw [hs] at h <;> exact h

theorem ctl_tBumpRobHead :
    (s.ctl i).tBumpRobHead =
      match s.rState with
      | .active => (s.activeCtl i).tBumpRobHead
      | .writeCause => true
      | _ => false := by
  have h := congrArg Drive.bumpRobHead (ctl_drive (s := s) (i := i))
  cases hs : s.rState <;> rw [hs] at h <;> exact h

theorem ctl_tClrRob : (s.ctl i).tClrRob = decide (s.rState = .rat) := by
  have h := congrArg Drive.clrRob (ctl_drive (s := s) (i := i))
  cases hs : s.rState <;> rw [hs] at h
  case active => exact h.trans activeCtl_clr.1
  all_goals exact h

theorem ctl_tRatCopy : (s.ctl i).tRatCopy = decide (s.rState = .rat) := by
  have h := congrArg Drive.ratCopy (ctl_drive (s := s) (i := i))
  cases hs : s.rState <;> rw [hs] at h
  case active => exact h.trans activeCtl_clr.2.1
  all_goals exact h

theorem ctl_tClrDq :
    (s.ctl i).tClrDq =
      match s.rState with
      | .rat => true
      | .waitForSerializeAndRestart | .waitForMonitor => s.tRobHeadComplete
      | .halt => i.resume
      | _ => false := by
  have h := congrArg Drive.clrDq (ctl_drive (s := s) (i := i))
  cases hs : s.rState <;> rw [hs] at h
  case active => exact h.trans activeCtl_clr.2.2
  all_goals exact h

/-! ### Retirement in pairs -/

theorem tRetireTwo_tRetire (h : (s.ctl i).tRetireTwo = true) :
    (s.ctl i).tRetire = true ∧ s.tRobNextEmpty = false := by
  rw [ctl_tRetireTwo] at h
  rw [ctl_tRetire]
  cases hst : s.rState <;> simp only [hst] at h ⊢ <;>
    first | exact absurd h Bool.false_ne_true | skip
  rw [activeCtl_tRetireTwo] at h
  rw [activeCtl_tRetire]
  simp only [Bool.and_eq_true, Bool.not_eq_true'] at h ⊢
  obtain ⟨h1, ⟨⟨⟨⟨⟨⟨h2, h3⟩, -⟩, -⟩, -⟩, -⟩, -⟩, -⟩ := h
  exact ⟨⟨h1, by simp [tArchFault, h3]⟩, h2⟩

/-- What a pair that retires together has passed. -/
theorem tRetireTwo_spec (h : (s.ctl i).tRetireTwo = true) :
    s.rState = .active ∧ s.tRobHead.isBr = false ∧ s.tRobHead.faulted = false ∧
      s.tRobNextHead.faulted = false ∧ s.tRobNextHead.isRet = false ∧
      s.tRobNextHead.isCall = false := by
  rw [ctl_tRetireTwo] at h
  cases hs : s.rState <;> simp only [hs] at h <;>
    first | exact absurd h Bool.false_ne_true | skip
  rw [activeCtl_tRetireTwo] at h
  simp only [Bool.and_eq_true, Bool.not_eq_true'] at h
  obtain ⟨-, ⟨⟨⟨⟨⟨⟨⟨-, hf⟩, hf2⟩, -⟩, -⟩, hb⟩, hr⟩, hc⟩⟩ := h
  exact ⟨rfl, hb, hf, hf2, hr, hc⟩

end Core
end Rv32Core
