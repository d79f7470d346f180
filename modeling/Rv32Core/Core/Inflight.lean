import Rv32Core.Core.Allocation
import Rv32Core.Core.Moves

/-! # The reorder buffer outside ACTIVE

What the ROB looks like in every state of a run without an architectural fault: the pointers
are consistent, a serializing uop finds it empty, and a slot in flight is between head and tail
and not complete, so that nothing is in flight when a drain ends. -/

namespace Rv32Core

open RingBuffer

namespace Core

variable {s : Core} {i : CoreIn}

/-- WAIT_FOR_MONITOR, which does not test it, retires an entry of the ROB. -/
def MonitorEntry (s : Core) (i : CoreIn) : Prop :=
  s.rState = .waitForMonitor → (s.ctl i).tRetire = true → s.tRobEmpty = false

instance : Decidable (s.MonitorEntry i) := by
  unfold MonitorEntry
  infer_instance

/-! ### The states that allocate into an empty ROB -/

/-- A state on the way to a serializing uop is entered from ACTIVE, with an empty ROB and the uop
at the head of the decode queue, and kept without touching either. -/
theorem ctl_serial (h : Serial (s.ctl i).nState) :
    (Serial s.rState ∨ s.rState = .active ∧ s.tRobEmpty = true ∧ s.tDqEmpty = false ∧
        s.tUop.serializingOp = true) ∧
      s.nAllocated i = 0 ∧ s.nLeaving i = 0 := by
  have hidle : (s.ctl i).tAlloc = false → (s.ctl i).tRetire = false →
      (s.ctl i).tBumpRobHead = false → s.nAllocated i = 0 ∧ s.nLeaving i = 0 := fun ha hr hb => by
    simp [nAllocated, nLeaving, ha, hr, hb]
  by_cases hser : Serial s.rState
  · obtain ⟨-, -, ⟨-, ha⟩ | hw⟩ := serialMove (i := i) hser
    · refine ⟨.inl hser, hidle ha ?_ ?_⟩
      · rw [ctl_tRetire]
        rcases hser with hs | hs | hs | hs <;> rw [hs]
      · rw [ctl_tBumpRobHead]
        rcases hser with hs | hs | hs | hs <;> rw [hs]
    · exfalso
      rcases hw with hw | hw <;> rw [hw] at h <;> rcases h with h | h | h | h <;> cases h
  · have hnot : ∀ q, ¬Serial q → (s.ctl i).nState ≠ q := fun q hq he => hq (he ▸ h)
    by_cases hs : s.rState = .active
    · cases activeMove (i := i) hs with
      | stay hn _ => exact absurd hn (hnot _ (by simp [Serial]))
      | drain hn _ _ _ => exact absurd hn (hnot _ (by simp [Serial]))
      | fault hn _ _ _ _ => exact absurd hn (hnot _ (by simp [Serial]))
      | serial _ _ ha he hd hz =>
          have hcan : s.tCanRetireRobHead = false := by
            rw [tCanRetireRobHead, he]
            exact Bool.and_false _
          refine ⟨.inr ⟨hs, he, hd, hz⟩, hidle ha ?_ ?_⟩
          · rw [ctl_tRetire, hs, activeCtl_tRetire, hcan, Bool.and_false, Bool.false_and]
          · rw [ctl_tBumpRobHead, hs, activeCtl_tBumpRobHead, hcan, Bool.and_false, Bool.false_and,
              Bool.false_and]
    · exfalso
      unfold ctl at h
      cases hst : s.rState <;> simp only [hst] at h
      case active => exact hs hst
      case allocForSerialize | monitorFlushCache | handleMonitor | allocForMonitor =>
        exact hser (by rw [hst]; simp [Serial])
      all_goals
        simp only [drainCtl, ratCtl, waitForSerializeAndRestartCtl, waitForMonitorCtl,
          flushForHaltCtl, haltCtl, haltWaitForRestartCtl, archFaultCtl, writeEpcCtl,
          writeCauseCtl] at h
        (try split_ifs at h) <;> simp [Serial, dfltCtl, hst] at h

theorem ctl_faulting (h : (s.ctl i).nState = .writeEpc ∨ (s.ctl i).nState = .writeCause) :
    s.rState = .archFault ∨ s.rState = .writeEpc := by
  unfold ctl at h
  cases hs : s.rState <;> simp only [hs] at h
  case archFault => exact .inl rfl
  case writeEpc => exact .inr rfl
  all_goals
    simp only [activeCtl, irqCtl, canRetireCtl, faultCtl, retireCtl, noRetireCtl, drainCtl, ratCtl,
      allocForSerializeCtl, waitForSerializeAndRestartCtl, monitorFlushCacheCtl, handleMonitorCtl,
      allocForMonitorCtl, waitForMonitorCtl, flushForHaltCtl, haltCtl, haltWaitForRestartCtl,
      writeCauseCtl] at h
    (try split_ifs at h) <;> simp [dfltCtl, hs] at h

/-! ### The pointers -/

/-- What runs without an architectural fault maintain. -/
structure RobInv (s : Core) : Prop where
  ptrs : s.Ptrs
  serial : Serial s.rState → s.tRobEmpty = true
  noWrite : s.rState ≠ .writeEpc ∧ s.rState ≠ .writeCause

theorem retiresEntry (hw : s.rState ≠ .writeCause) (hm : s.MonitorEntry i) :
    s.RetiresEntry i := by
  intro h
  have h' := h
  rw [ctl_tRetire, ctl_tBumpRobHead] at h'
  cases hs : s.rState <;> simp only [hs] at h' <;>
    first | exact absurd h' Bool.false_ne_true | skip
  · rw [activeCtl_tRetire, activeCtl_tBumpRobHead] at h'
    simp only [tCanRetireRobHead, Bool.or_eq_true, Bool.and_eq_true, Bool.not_eq_true'] at h'
    rcases h' with h' | h'
    · exact h'.1.2.2
    · exact h'.1.1.2.2
  · refine hm hs ?_
    rw [ctl_tRetire, hs]
    simpa using h'
  · exact absurd hs hw

theorem RobInv.retires (h : s.RobInv) (hm : s.MonitorEntry i) : s.RetiresEntry i :=
  retiresEntry h.noWrite.2 hm

theorem RobInv.step (h : s.RobInv) (hf : s.rState ≠ .archFault) (hm : s.MonitorEntry i) :
    (s.step i).RobInv := by
  refine ⟨h.ptrs.step ((h.retires hm).nLeaving_le h.ptrs), fun hser => ?_, ?_⟩
  · obtain ⟨hfrom, ha, hl⟩ := ctl_serial hser
    have hempty : s.tRobEmpty = true := hfrom.elim h.serial fun hs => hs.2.1
    have hs : s.rState ≠ .rat := by
      rcases hfrom with (hs | hs | hs | hs) | ⟨hs, -⟩ <;> rw [hs] <;> decide
    have hc : (s.ctl i).tClrRob = false := by rw [ctl_tClrRob, decide_eq_false hs]
    have h1 : (s.step i).rRobHeadPtr = s.bumpHead i s.rRobHeadPtr :=
      if_neg (by rw [hc]; exact Bool.false_ne_true)
    have h2 : (s.step i).rRobTailPtr = s.bumpTail i s.rRobTailPtr :=
      if_neg (by rw [hc]; exact Bool.false_ne_true)
    rw [tRobEmpty, h1, h2, bumpHead_eq, bumpTail_eq, ha, hl]
    rw [tRobEmpty, beq_iff_eq] at hempty
    rw [hempty]
    exact beq_self_eq_true _
  · have hw : ¬((s.ctl i).nState = .writeEpc ∨ (s.ctl i).nState = .writeCause) := fun hw =>
      (ctl_faulting hw).elim hf h.noWrite.1
    exact not_or.mp hw

theorem init_robInv (rob : RobPtr → RobEntry) (bob : BitVec 2 → BobEntry) (dq : BitVec 2 → Uop) :
    (init rob bob dq).RobInv :=
  ⟨init_ptrs rob bob dq, nofun, nofun, nofun⟩

/-! ### The slots of the ROB -/

/-- A slot between head and tail. -/
def InRob (s : Core) (p : RobPtr) : Prop :=
  ∃ n < occ s.rRobHeadPtr s.rRobTailPtr, slot s.rRobHeadPtr n = p

theorem Ptrs.tail_fresh (hp : s.Ptrs) (h : (s.ctl i).tAlloc = true) :
    ¬s.InRob (idx s.rRobTailPtr) := by
  rintro ⟨n, hn, he⟩
  have hf := (isFull_eq_false_iff (k := 5) hp.robOcc).mp (tAlloc_room h).1
  rw [← slot_occ s.rRobHeadPtr s.rRobTailPtr] at he
  have := slot_inj (k := 5) (by omega) hf he
  omega

theorem Ptrs.nextTail_fresh (hp : s.Ptrs) (h : (s.ctl i).tAllocTwo = true) :
    ¬s.InRob (idx s.rRobNextTailPtr) := by
  rintro ⟨n, hn, he⟩
  have hroom := hp.room (i := i)
  rw [nAllocated, (tAllocTwo_tAlloc h).1, h, if_pos rfl, if_pos rfl] at hroom
  have hnext : idx s.rRobNextTailPtr = slot s.rRobHeadPtr (occ s.rRobHeadPtr s.rRobTailPtr + 1) := by
    rw [hp.robNextTail, slot, ← add_ofNat_add, head_add_occ]
    rfl
  rw [hnext] at he
  have := slot_inj (k := 5) (by omega) (by omega) he
  omega

theorem Ptrs.nextTail_ne (hp : s.Ptrs) :
    (idx s.rRobNextTailPtr : RobPtr) ≠ idx s.rRobTailPtr := by
  have hslots : ∀ t : BitVec 6, idx (t + 1) ≠ (idx t : RobPtr) := by decide
  rw [hp.robNextTail]
  exact hslots _

section Writes

variable {α : Type*} (f : RobPtr → α) (x y : α)

/-- What is written at allocation leaves the slots in the ROB alone. -/
theorem Ptrs.writes_inRob (hp : s.Ptrs) {p : RobPtr} (h : s.InRob p) :
    (f |> writeIf (s.ctl i).tAlloc (idx s.rRobTailPtr) x
      |> writeIf (s.ctl i).tAllocTwo (idx s.rRobNextTailPtr) y) p = f p := by
  rw [writeIf_apply, if_neg, writeIf_apply, if_neg]
  · rintro ⟨h1, rfl⟩
    exact hp.tail_fresh h1 h
  · rintro ⟨h2, rfl⟩
    exact hp.nextTail_fresh h2 h

theorem Ptrs.writes_tail (hp : s.Ptrs) (h : (s.ctl i).tAlloc = true) :
    (f |> writeIf (s.ctl i).tAlloc (idx s.rRobTailPtr) x
      |> writeIf (s.ctl i).tAllocTwo (idx s.rRobNextTailPtr) y) (idx s.rRobTailPtr) = x := by
  rw [writeIf_apply, if_neg, h, writeIf_true, Function.update_self]
  rintro ⟨-, he⟩
  exact hp.nextTail_ne he.symm

theorem writes_nextTail (h : (s.ctl i).tAllocTwo = true) :
    (f |> writeIf (s.ctl i).tAlloc (idx s.rRobTailPtr) x
      |> writeIf (s.ctl i).tAllocTwo (idx s.rRobNextTailPtr) y) (idx s.rRobNextTailPtr) = y := by
  rw [h, writeIf_true, Function.update_self]

end Writes

theorem inRob_step (hp : s.Ptrs) (hs : s.rState ≠ .rat)
    (hl : s.nLeaving i ≤ occ s.rRobHeadPtr s.rRobTailPtr) {n : ℕ} (hn : s.nLeaving i ≤ n)
    (hn' : n < occ s.rRobHeadPtr s.rRobTailPtr + s.nAllocated i) :
    (s.step i).InRob (slot s.rRobHeadPtr n) := by
  have hc : (s.ctl i).tClrRob = false := by rw [ctl_tClrRob, decide_eq_false hs]
  have hroom := hp.room (i := i)
  have hh : (s.step i).rRobHeadPtr = s.rRobHeadPtr + BitVec.ofNat 6 (s.nLeaving i) := by
    rw [← bumpHead_eq]
    exact if_neg (by rw [hc]; exact Bool.false_ne_true)
  have ht : (s.step i).rRobTailPtr = s.rRobTailPtr + BitVec.ofNat 6 (s.nAllocated i) := by
    rw [← bumpTail_eq]
    exact if_neg (by rw [hc]; exact Bool.false_ne_true)
  have ho : occ s.rRobHeadPtr (s.rRobTailPtr + BitVec.ofNat 6 (s.nAllocated i)) =
      occ s.rRobHeadPtr s.rRobTailPtr + s.nAllocated i := occ_tail_add _ _ (by omega)
  have ho' : occ (s.step i).rRobHeadPtr (s.step i).rRobTailPtr =
      occ s.rRobHeadPtr s.rRobTailPtr + s.nAllocated i - s.nLeaving i := by
    rw [hh, ht, occ_head_add _ _ (by omega), ho]
  refine ⟨n - s.nLeaving i, by omega, ?_⟩
  rw [hh, slot_head_add]
  congr 1
  omega

theorem inRob_tail (hp : s.Ptrs) (hl : s.nLeaving i ≤ occ s.rRobHeadPtr s.rRobTailPtr)
    (h : (s.ctl i).tAlloc = true) : (s.step i).InRob (idx s.rRobTailPtr) := by
  have hs : s.rState ≠ .rat := fun hs => by
    rw [ctl_tAlloc, hs] at h
    cases h
  have hn : 0 < s.nAllocated i := by
    rw [nAllocated, if_pos h]
    split_ifs <;> decide
  rw [← slot_occ s.rRobHeadPtr s.rRobTailPtr]
  exact inRob_step hp hs hl hl (by omega)

theorem inRob_nextTail (hp : s.Ptrs) (hl : s.nLeaving i ≤ occ s.rRobHeadPtr s.rRobTailPtr)
    (h : (s.ctl i).tAllocTwo = true) : (s.step i).InRob (idx s.rRobNextTailPtr) := by
  have hs : s.rState ≠ .rat := by
    rw [(tAllocTwo_tAlloc h).2.1]
    decide
  have hn : s.nAllocated i = 2 := by
    rw [nAllocated, if_pos (tAllocTwo_tAlloc h).1, if_pos h]
  have hnext : idx s.rRobNextTailPtr =
      slot s.rRobHeadPtr (occ s.rRobHeadPtr s.rRobTailPtr + 1) := by
    rw [hp.robNextTail, slot, ← add_ofNat_add, head_add_occ]
    rfl
  rw [hnext]
  exact inRob_step hp hs hl (by omega) (by omega)

theorem leaving_complete (hw : s.rState ≠ .writeCause) (hp : s.Ptrs) {n : ℕ}
    (hn : n < s.nLeaving i) : s.rRobSdComplete (slot s.rRobHeadPtr n) = true ∧
      s.rRobComplete (slot s.rRobHeadPtr n) = true := by
  unfold nLeaving at hn
  split_ifs at hn with hr h2
  · have hspec := h2
    rw [ctl_tRetireTwo] at hspec
    cases hs : s.rState <;> simp only [hs] at hspec <;>
      first | exact absurd hspec Bool.false_ne_true | skip
    rw [activeCtl_tRetireTwo] at hspec
    simp only [Bool.and_eq_true] at hspec
    obtain ⟨-, ⟨⟨⟨⟨-, hhead⟩, hnext⟩, -⟩, -⟩, -⟩ := hspec
    obtain rfl | rfl : n = 0 ∨ n = 1 := by omega
    · rw [slot_zero]
      exact Bool.and_eq_true _ _ |>.mp hhead
    · have hslot : slot s.rRobHeadPtr 1 = idx s.rRobNextHeadPtr := by
        rw [hp.robNextHead]
        rfl
      rw [hslot]
      exact Bool.and_eq_true _ _ |>.mp hnext
  · have hn0 : n = 0 := by omega
    rw [hn0, slot_zero]
    have hhead : s.tRobHeadComplete = true := by
      rw [ctl_tRetire, ctl_tBumpRobHead] at hr
      cases hs : s.rState <;> simp only [hs] at hr <;>
        first | exact absurd hr Bool.false_ne_true | skip
      · rw [activeCtl_tRetire, activeCtl_tBumpRobHead] at hr
        simp only [tCanRetireRobHead, Bool.or_eq_true, Bool.and_eq_true] at hr
        exact hr.elim (fun hr => hr.1.2.1) fun hr => hr.1.1.2.1
      · rw [Bool.or_false, Bool.and_eq_true] at hr
        exact hr.1
      · exact absurd hs hw
    exact Bool.and_eq_true _ _ |>.mp hhead
  · omega

/-! ### The drain -/

/-- `r_ds_done` is raised in DRAIN and RAT, and after an architectural fault until the core
halts. -/
structure DsInv (s : Core) : Prop where
  up : s.rDsDone = true → Drains s.rState ∨ s.rState = .flushForHalt
  drains : Drains s.rState → s.rDsDone = true

theorem DsInv.active (h : s.DsInv) (hs : s.rState = .active) : s.rDsDone = false := by
  by_contra hd
  rw [Bool.not_eq_false] at hd
  rcases h.up hd with (hq | hq) | hq <;> rw [hs] at hq <;> cases hq

theorem activeCtl_nDsDone (hd : s.rDsDone = false) :
    ((s.activeCtl i).nDsDone = true ↔ (s.activeCtl i).nState = .drain) ∨
      s.rState ≠ .active := by
  by_cases hs : s.rState = .active
  · refine .inl ?_
    simp only [activeCtl, irqCtl, canRetireCtl, faultCtl, retireCtl, noRetireCtl]
    split_ifs <;> simp [dfltCtl, hs, hd]
  · exact .inr hs

theorem DsInv.step (h : s.DsInv) : (s.step i).DsInv := by
  have hdone : (s.step i).rDsDone = (s.ctl i).nDsDone := rfl
  have hst : (s.step i).rState = (s.ctl i).nState := rfl
  have hlow : ∀ q, s.rState = q → ¬Drains q → q ≠ .flushForHalt → s.rDsDone = false :=
    fun q hq hn hf => Bool.eq_false_iff.mpr fun hd => by
      rcases h.up hd with hx | hx
      · exact hn (hq ▸ hx)
      · exact hf (hq.symm.trans hx)
  unfold Drains at hlow
  by_cases hs : s.rState = .active
  · have hd := h.active hs
    have hiff := (activeCtl_nDsDone (i := i) hd).resolve_right (not_not_intro hs)
    rw [← ctl_of_active hs] at hiff
    constructor
    · intro hup
      rw [hdone] at hup
      rw [hst, hiff.mp hup]
      exact .inl (.inl rfl)
    · rintro (hq | hq) <;> rw [hst] at hq
      · rw [hdone]
        exact hiff.mpr hq
      · cases activeMove (i := i) hs with
        | stay hn _ | drain hn _ _ _ | fault hn _ _ _ _ =>
            rw [hn] at hq
            cases hq
        | serial hn _ _ _ _ _ =>
            rcases hn with hn | hn <;> rw [hn] at hq <;> cases hq
  · constructor <;> rw [hdone, hst] <;> unfold ctl Drains
    all_goals
      cases hq : s.rState <;> simp only <;> first | exact absurd hq hs | skip
      case drain | rat =>
        have hup := h.drains (by rw [hq]; simp [Drains])
        simp only [drainCtl, ratCtl]
        split_ifs <;> simp [dfltCtl, hq, hup]
      case flushForHalt | writeCause =>
        simp only [flushForHaltCtl, writeCauseCtl]
        (try split_ifs) <;> simp [dfltCtl, hq]
      all_goals
        have hlo := hlow _ hq (by simp) (by simp)
        simp only [allocForSerializeCtl, waitForSerializeAndRestartCtl, monitorFlushCacheCtl,
          handleMonitorCtl, allocForMonitorCtl, waitForMonitorCtl, haltCtl, haltWaitForRestartCtl,
          archFaultCtl, writeEpcCtl]
        (try split_ifs) <;> simp [dfltCtl, hq, hlo]

theorem init_dsInv (rob : RobPtr → RobEntry) (bob : BitVec 2 → BobEntry) (dq : BitVec 2 → Uop) :
    (init rob bob dq).DsInv :=
  ⟨nofun, by rintro (h | h) <;> cases h⟩

/-- `ds_done` falls when RAT is left, or with the halt of a fault. -/
theorem DsInv.low_of_step (h : s.DsInv) (hboot : s.rState = .flushForHalt → s.rDsDone = false)
    (hr : s.rState ≠ .rat) (hlow : (s.step i).rDsDone = false) : s.rDsDone = false := by
  by_contra hd
  rw [Bool.not_eq_false] at hd
  rcases h.up hd with (hs | hs) | hs
  · rcases (drainsMove (i := i) (.inl hs)).2.2 with hn | ⟨hn, -⟩
    · rw [(h.step (i := i)).drains hn] at hlow
      cases hlow
    · exact hr hn
  · exact hr hs
  · rw [hboot hs] at hd
    cases hd

theorem boot_step (h : s.rState = .flushForHalt → s.rDsDone = false) (hw : s.rState ≠ .writeCause)
    (hn : (s.step i).rState = .flushForHalt) : (s.step i).rDsDone = false := by
  change (s.ctl i).nState = .flushForHalt at hn
  show (s.ctl i).nDsDone = false
  by_cases hs : s.rState = .active
  · exfalso
    cases activeMove (i := i) hs with
    | stay hq _ | drain hq _ _ _ | fault hq _ _ _ _ =>
        rw [hq] at hn
        cases hn
    | serial hq _ _ _ _ _ =>
        rcases hq with hq | hq <;> rw [hq] at hn <;> cases hn
  · unfold ctl at hn ⊢
    cases hq : s.rState <;> simp only [hq] at hn ⊢ <;>
      first | exact absurd hq hs | exact absurd hq hw | skip
    case flushForHalt =>
      simp only [flushForHaltCtl] at hn ⊢
      split_ifs at hn ⊢
      exact h hq
    all_goals
      exfalso
      simp only [drainCtl, ratCtl, allocForSerializeCtl, waitForSerializeAndRestartCtl,
        monitorFlushCacheCtl, handleMonitorCtl, allocForMonitorCtl, waitForMonitorCtl, haltCtl,
        haltWaitForRestartCtl, archFaultCtl, writeEpcCtl] at hn
      (try split_ifs at hn) <;> simp [dfltCtl, hq] at hn

theorem DsInv.of_alloc (h : s.DsInv) (ha : (s.ctl i).tAlloc = true) : s.rDsDone = false := by
  by_contra hd
  rw [Bool.not_eq_false] at hd
  rw [ctl_tAlloc] at ha
  rcases h.up hd with (hq | hq) | hq <;> rw [hq] at ha <;> cases ha

/-! ### The slots in flight -/

/-- A slot in flight is in the ROB and not complete; none is left when a drain ends. -/
structure InflightInv (s : Core) : Prop where
  inRob : ∀ p, s.rRobInflight p = true → s.InRob p
  incomplete : ∀ p, s.rRobInflight p = true → s.rRobComplete p = false
  rat : s.rState = .rat → ∀ p, s.rRobInflight p = false

theorem inflight_step {p : RobPtr} (h : (s.step i).rRobInflight p = true) :
    (((s.ctl i).tAlloc = true ∧ s.tFoldUop = false ∧ p = idx s.rRobTailPtr) ∨
      ((s.ctl i).tAllocTwo = true ∧ s.tFoldUop2 = false ∧ p = idx s.rRobNextTailPtr)) ∨
    (s.rRobInflight p = true ∧ (i.tCompleteValid1 = true → i.tCompleteBundle1.robPtr ≠ p) ∧
      (i.tCompleteValid2 = true → i.tCompleteBundle2.robPtr ≠ p) ∧
      (i.coreMemRspValid = true → i.coreMemRsp.robPtr ≠ p)) := by
  change s.nRobInflight i p = true at h
  unfold nRobInflight at h
  by_cases hd : s.rDsDone = true
  · rw [if_pos hd, Bool.and_eq_true, Bool.not_eq_true'] at h
    obtain ⟨hp, hm⟩ := h
    simp only [tClrMask, writeIf_apply] at hm
    refine .inr ⟨hp, fun hv he => ?_, fun hv he => ?_, fun hv he => ?_⟩
    all_goals
      subst he
      simp [hv] at hm
  · rw [if_neg hd] at h
    simp only [writeIf_apply, Bool.and_eq_true, Bool.not_eq_true'] at h
    split_ifs at h with h2 h1 h3 h4 h5
    · exact .inl (.inr ⟨h2.1.1, h2.1.2, h2.2⟩)
    · exact .inl (.inl ⟨h1.1.1, h1.1.2, h1.2⟩)
    · exact .inr ⟨h, fun hv he => h5 ⟨hv, he.symm⟩, fun hv he => h4 ⟨hv, he.symm⟩,
        fun hv he => h3 ⟨hv, he.symm⟩⟩

theorem complete_step {p : RobPtr} (h1 : i.tCompleteValid1 = true → i.tCompleteBundle1.robPtr ≠ p)
    (h2 : i.tCompleteValid2 = true → i.tCompleteBundle2.robPtr ≠ p)
    (h3 : i.coreMemRspValid = true → i.coreMemRsp.robPtr ≠ p)
    (hc : (s.step i).rRobComplete p = true) :
    ((s.ctl i).tAlloc = true ∧ p = idx s.rRobTailPtr ∧ s.tFoldUop = true) ∨
      ((s.ctl i).tAllocTwo = true ∧ p = idx s.rRobNextTailPtr ∧ s.tFoldUop2 = true) ∨
      (¬((s.ctl i).tAlloc = true ∧ p = idx s.rRobTailPtr) ∧
        ¬((s.ctl i).tAllocTwo = true ∧ p = idx s.rRobNextTailPtr) ∧ s.rRobComplete p = true) := by
  change s.nRobComplete i p = true at hc
  unfold nRobComplete at hc
  split_ifs at hc
  simp only [writeIf_apply] at hc
  split_ifs at hc with c3 c2 c1 ca2 ca
  · exact absurd c3.2.symm (h3 c3.1)
  · exact absurd c2.2.symm (h2 c2.1)
  · exact absurd c1.2.symm (h1 c1.1)
  · exact .inr (.inl ⟨ca2.1, ca2.2, hc⟩)
  · exact .inl ⟨ca.1, ca.2, hc⟩
  · exact .inr (.inr ⟨ca, ca2, hc⟩)

/-- RAT is entered when nothing is in flight. -/
theorem ctl_rat (h : (s.ctl i).nState = .rat) :
    (s.ctl i).tAlloc = false ∧ (s.rState = .rat ∨ ∀ p, s.rRobInflight p = false) := by
  by_cases hd : Drains s.rState
  · refine ⟨(drainsMove hd).2.1, ?_⟩
    rcases hd with hs | hs
    · simp only [ctl, hs, drainCtl] at h
      split_ifs at h with hall
      · exact .inr hall.1
      · change s.rState = .rat at h
        exact .inl h
    · exact .inl hs
  · exfalso
    by_cases hs : s.rState = .active
    · cases activeMove (i := i) hs with
      | stay hn _ | drain hn _ _ _ | fault hn _ _ _ _ =>
          rw [hn] at h
          cases h
      | serial hn _ _ _ _ _ =>
          rcases hn with hn | hn <;> rw [hn] at h <;> cases h
    · unfold ctl at h
      cases hst : s.rState <;> simp only [hst] at h
      case active => exact hs hst
      case drain => exact hd (.inl hst)
      case rat => exact hd (.inr hst)
      all_goals
        simp only [allocForSerializeCtl, waitForSerializeAndRestartCtl, monitorFlushCacheCtl,
          handleMonitorCtl, allocForMonitorCtl, waitForMonitorCtl, flushForHaltCtl, haltCtl,
          haltWaitForRestartCtl, archFaultCtl, writeEpcCtl, writeCauseCtl] at h
        (try split_ifs at h) <;> simp [dfltCtl, hst] at h

/-- An answer is not on a slot that is allocated in the same cycle. -/
theorem InflightInv.answers_ne (h : s.InflightInv) (hd : s.DsInv) (ha : AnswersInflight s i)
    (halloc : (s.ctl i).tAlloc = true) {p : RobPtr} (hp : ¬s.InRob p) :
    (i.tCompleteValid1 = true → i.tCompleteBundle1.robPtr ≠ p) ∧
      (i.tCompleteValid2 = true → i.tCompleteBundle2.robPtr ≠ p) ∧
      (i.coreMemRspValid = true → i.coreMemRsp.robPtr ≠ p) := by
  obtain ⟨h1, h2, h3⟩ := ha (hd.of_alloc halloc)
  exact ⟨fun hv he => hp (h.inRob _ (he ▸ h1 hv)), fun hv he => hp (h.inRob _ (he ▸ h2 hv)),
    fun hv he => hp (h.inRob _ (he ▸ h3 hv))⟩

/-- One cycle of the slots in flight, when no more leaves the ROB than it holds and WRITE_CAUSE,
which drops the head whatever it is, finds nothing in flight. -/
theorem InflightInv.step_of_leaving (h : s.InflightInv) (hp : s.Ptrs) (hd : s.DsInv)
    (hl : s.nLeaving i ≤ occ s.rRobHeadPtr s.rRobTailPtr)
    (hw : s.rState = .writeCause → ∀ p, s.rRobInflight p = false) (ha : AnswersInflight s i) :
    (s.step i).InflightInv := by
  constructor
  · intro p hf
    rcases inflight_step hf with (⟨h1, -, rfl⟩ | ⟨h2, -, rfl⟩) | ⟨hf, -⟩
    · exact inRob_tail hp hl h1
    · exact inRob_nextTail hp hl h2
    · have hs : s.rState ≠ .rat := fun hs => by
        rw [h.rat hs p] at hf
        cases hf
      obtain ⟨n, hn, rfl⟩ := h.inRob p hf
      refine inRob_step hp hs hl ?_ (by omega)
      by_contra hlt
      have hne : s.rState ≠ .writeCause := fun hs => by
        rw [hw hs] at hf
        cases hf
      have hc := (leaving_complete (i := i) hne hp (n := n) (by omega)).2
      rw [h.incomplete _ hf] at hc
      cases hc
  · intro p hf
    by_contra hc
    rw [Bool.not_eq_false] at hc
    rcases inflight_step hf with (⟨h1, hfold, rfl⟩ | ⟨h2, hfold, rfl⟩) | ⟨hf, hn1, hn2, hn3⟩
    · obtain ⟨hn1, hn2, hn3⟩ := h.answers_ne hd ha h1 (hp.tail_fresh h1)
      rcases complete_step hn1 hn2 hn3 hc with ⟨-, -, hfold'⟩ | ⟨-, he, -⟩ | ⟨hno, -, -⟩
      · rw [hfold] at hfold'
        cases hfold'
      · exact hp.nextTail_ne he.symm
      · exact hno ⟨h1, rfl⟩
    · obtain ⟨hn1, hn2, hn3⟩ := h.answers_ne hd ha (tAllocTwo_tAlloc h2).1
        (hp.nextTail_fresh h2)
      rcases complete_step hn1 hn2 hn3 hc with ⟨-, he, -⟩ | ⟨-, -, hfold'⟩ | ⟨-, hno, -⟩
      · exact hp.nextTail_ne he
      · rw [hfold] at hfold'
        cases hfold'
      · exact hno ⟨h2, rfl⟩
    · rcases complete_step hn1 hn2 hn3 hc with ⟨h1, he, -⟩ | ⟨h2, he, -⟩ | ⟨-, -, hc⟩
      · exact hp.tail_fresh h1 (he ▸ h.inRob p hf)
      · exact hp.nextTail_fresh h2 (he ▸ h.inRob p hf)
      · rw [h.incomplete p hf] at hc
        cases hc
  · intro hs p
    obtain ⟨hno, hall⟩ := ctl_rat hs
    by_contra hf
    rw [Bool.not_eq_false] at hf
    rcases inflight_step hf with (⟨h1, -⟩ | ⟨h2, -⟩) | ⟨hf, -⟩
    · rw [hno] at h1
      cases h1
    · rw [(tAllocTwo_tAlloc h2).1] at hno
      cases hno
    · rw [hall.elim (fun hs => h.rat hs p) fun hall => hall p] at hf
      cases hf

theorem InflightInv.step (h : s.InflightInv) (hi : s.RobInv) (hd : s.DsInv) (hm : s.MonitorEntry i)
    (ha : AnswersInflight s i) : (s.step i).InflightInv :=
  h.step_of_leaving hi.ptrs hd ((hi.retires hm).nLeaving_le hi.ptrs)
    (fun hs => absurd hs hi.noWrite.2) ha

theorem init_inflightInv (rob : RobPtr → RobEntry) (bob : BitVec 2 → BobEntry)
    (dq : BitVec 2 → Uop) : (init rob bob dq).InflightInv :=
  ⟨nofun, nofun, nofun⟩

end Core
end Rv32Core
