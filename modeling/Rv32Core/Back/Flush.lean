import Rv32Core.Back.Model
import Rv32Core.Core.Occupancy

/-! # The flush of the data cache

The core raises `flush_req_l1d` for one cycle and waits in a state of its own until the cache has
reported the flush.  While it waits the request is in exactly one place: raised, pending in the
cache, under way, reported, or latched by the core; otherwise in none.  The initialisation of the
cache after reset is the first of these flushes. -/

namespace Rv32Core

open Clocked

namespace Core

variable {s : Core} {i : CoreIn}

/-- The core waits for a flush of the data cache. -/
def awaitsFlush : CoreState → Bool
  | .monitorFlushCache | .flushForHalt | .writeEpc | .writeCause => true
  | _ => false

theorem ctl_nFlushClReq : (s.ctl i).nFlushClReq = false := by
  unfold ctl
  cases hs : s.rState <;>
    simp only [activeCtl, irqCtl, canRetireCtl, faultCtl, retireCtl, noRetireCtl, drainCtl, ratCtl,
      allocForSerializeCtl, waitForSerializeAndRestartCtl, monitorFlushCacheCtl, handleMonitorCtl,
      allocForMonitorCtl, waitForMonitorCtl, flushForHaltCtl, haltCtl, haltWaitForRestartCtl,
      archFaultCtl, writeEpcCtl, writeCauseCtl] <;>
    (try split_ifs) <;> rfl

theorem activeCtl_nFlushReqL1d (hs : s.rState = .active) :
    (s.activeCtl i).nFlushReqL1d = awaitsFlush (s.activeCtl i).nState ∧
      (s.activeCtl i).nL1dFlushComplete = (s.rL1dFlushComplete || i.l1dFlushComplete) := by
  simp only [activeCtl, irqCtl, canRetireCtl, faultCtl, retireCtl, noRetireCtl]
  split_ifs <;> simp [awaitsFlush, dfltCtl, hs]

/-- **The core and the flush**: a request is made when the wait begins, and what is reported is
kept until the wait ends. -/
theorem flush_step
    (h : s.rL1dFlushComplete.toNat + i.l1dFlushComplete.toNat ≤ (awaitsFlush s.rState).toNat) :
    (s.ctl i).nFlushReqL1d.toNat + (s.ctl i).nL1dFlushComplete.toNat +
        (awaitsFlush s.rState).toNat =
      s.rL1dFlushComplete.toNat + i.l1dFlushComplete.toNat +
        (awaitsFlush (s.ctl i).nState).toNat := by
  by_cases hs : s.rState = .active
  · obtain ⟨h1, h2⟩ := activeCtl_nFlushReqL1d (i := i) hs
    rw [ctl_of_active hs, h1, h2]
    rw [hs] at h ⊢
    revert h
    cases s.rL1dFlushComplete <;> cases i.l1dFlushComplete <;>
      cases awaitsFlush (s.activeCtl i).nState <;> decide
  · unfold ctl
    cases hq : s.rState <;> rw [hq] at h <;> simp only <;>
      first | exact absurd hq hs | skip
    case monitorFlushCache | flushForHalt =>
      simp only [monitorFlushCacheCtl, flushForHaltCtl]
      split_ifs with hc <;> simp only [dfltCtl, hq, Bool.and_eq_true] at hc ⊢ <;> revert h hc <;>
        cases s.rL1dFlushComplete <;> cases i.l1dFlushComplete <;> simp [awaitsFlush]
    all_goals
      simp only [drainCtl, ratCtl, allocForSerializeCtl, waitForSerializeAndRestartCtl,
        handleMonitorCtl, allocForMonitorCtl, waitForMonitorCtl, haltCtl, haltWaitForRestartCtl,
        archFaultCtl, writeEpcCtl, writeCauseCtl]
      (try split_ifs) <;> simp only [dfltCtl, hq] <;> revert h <;>
        cases s.rL1dFlushComplete <;> cases i.l1dFlushComplete <;> simp [awaitsFlush]

/-- WRITE_EPC follows ARCH_FAULT, which asks for the flush. -/
theorem ctl_writeEpc (h : (s.ctl i).nState = .writeEpc) : (s.ctl i).nFlushReqL1d = true := by
  rcases ctl_faulting (.inl h) with hs | hs
  · unfold ctl
    rw [hs]
    simp only [archFaultCtl]
    split_ifs <;> rfl
  · unfold ctl at h
    rw [hs] at h
    cases h

end Core

namespace Back

variable {s : Back} {i : BackIn}

/-- The places a flush can be in. -/
def flushStages (s : Back) : ℕ :=
  s.core.rFlushReqL1d.toNat + s.l1d.rFlushReq.toNat + s.l1d.flushing.toNat +
    s.l1d.rFlushComplete.toNat + s.core.rL1dFlushComplete.toNat

/-- A flush is under way exactly while the core waits for it; in WRITE_EPC it is still on its way to
the cache. -/
structure FlushInv (s : Back) : Prop where
  line : s.l1d.NoLineFlush
  lineReq : s.core.rFlushClReq = false
  stages : s.flushStages = (Core.awaitsFlush s.core.rState).toNat
  epc : s.core.rState = .writeEpc → s.core.rFlushReqL1d = true

theorem FlushInv.step (h : s.FlushInv) (hr : s.l1d.ReqInv) : (s.step i).FlushInv := by
  have hst := h.stages
  have hle : (Core.awaitsFlush s.core.rState).toNat ≤ 1 := Bool.toNat_le _
  unfold flushStages at hst
  have h1 : (s.l1dIn i).flushReq = s.core.rFlushReqL1d := rfl
  have h2 : (s.coreIn i).l1dFlushComplete = s.l1d.rFlushComplete := rfl
  obtain ⟨hline, hcache⟩ := h.line.step (i := s.l1dIn i) hr h.lineReq (by rw [h1]; omega)
  have hcore := Core.flush_step (s := s.core) (i := s.coreIn i) (by rw [h2]; omega)
  rw [h1] at hcache
  rw [h2] at hcore
  refine ⟨hline, Core.ctl_nFlushClReq, ?_, Core.ctl_writeEpc⟩
  have hreq : (s.step i).core.rFlushReqL1d = (s.core.ctl (s.coreIn i)).nFlushReqL1d := rfl
  have hcomp : (s.step i).core.rL1dFlushComplete =
    (s.core.ctl (s.coreIn i)).nL1dFlushComplete := rfl
  have hstate : (s.step i).core.rState = (s.core.ctl (s.coreIn i)).nState := rfl
  have hl1d : (s.step i).l1d = s.l1d.step (s.l1dIn i) := rfl
  unfold flushStages
  rw [hreq, hcomp, hstate, hl1d]
  omega

theorem flushInv_reset (h : backMachine.reset s) : s.FlushInv := by
  obtain ⟨⟨rob, bob, dq, hc⟩, -, p, hl⟩ := h
  refine ⟨⟨?_, ?_⟩, ?_, ?_, ?_⟩
  · rw [hl]
    rfl
  · rw [hl]
    exact ⟨nofun, nofun⟩
  · rw [hc]
    rfl
  · unfold flushStages
    rw [hc, hl]
    rfl
  · rw [hc]
    exact nofun

/-- A flush pending in the cache finds the core waiting, past WRITE_EPC. -/
theorem FlushInv.awaits (h : s.FlushInv) (hf : s.l1d.rFlushReq = true) :
    Core.awaitsFlush s.core.rState = true ∧ s.core.rState ≠ .writeEpc := by
  have hst := h.stages
  rw [flushStages, hf, Bool.toNat_true] at hst
  constructor
  · by_contra ha
    rw [Bool.not_eq_true] at ha
    rw [ha, Bool.toNat_false] at hst
    omega
  · intro he
    rw [h.epc he, he, Bool.toNat_true] at hst
    have hone : (Core.awaitsFlush .writeEpc).toNat = 1 := rfl
    omega

/-- When nothing is pending in the cache, no flush overtakes a load. -/
theorem FlushInv.noFlushRace (h : s.FlushInv) (hr : s.l1d.ReqInv)
    (hp : s.l1d.rFlushReq = true → s.l1d.pending = 0) : s.l1d.NoFlushRace := by
  intro hs hm hw _
  refine ⟨?_, h.line.req⟩
  by_contra hf
  rw [Bool.not_eq_false] at hf
  have hg : s.l1d.rGotReq = true := by
    simp only [L1d.miss, Bool.and_eq_true] at hm
    exact hm.1
  have hl : s.l1d.rReq.isStore = false := by rw [← hr.lastWr_eq hg, hw]
  have hh : s.l1d.holdsLoad = true := by simp [L1d.holdsLoad, hl, hs, hg]
  have hz := congrArg Multiset.card (hp hf)
  rw [L1d.pending, hh, Multiset.card_add, if_pos rfl, Multiset.card_singleton,
    Multiset.card_zero] at hz
  omega

end Back
end Rv32Core
