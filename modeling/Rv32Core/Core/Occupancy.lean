import Rv32Core.Core.Inflight

/-! # How many entries the reorder buffer holds

In the states around a serializing uop the number of entries in the ROB is fixed by the state: none
before the uop is allocated, one until it has completed.  On the way through an architectural fault
the faulting instruction stays at the head until WRITE_CAUSE drops it.  The slots in flight are
between head and tail and not complete, and none is in flight where a drain has ended or the core
is halted. -/

namespace Rv32Core

open RingBuffer

namespace Core

variable {s : Core} {i : CoreIn}

/-- The number of entries. -/
def robCount (s : Core) : ℕ := occ s.rRobHeadPtr s.rRobTailPtr

/-- The core halts, is halted or leaves the halt. -/
def Halted (c : CoreState) : Prop := c = .flushForHalt ∨ c = .halt ∨ c = .haltWaitForRestart

/-- The core records an architectural fault. -/
def Records (c : CoreState) : Prop := c = .writeEpc ∨ c = .writeCause

theorem robCount_eq_zero : s.robCount = 0 ↔ s.tRobEmpty = true := by
  rw [robCount, occ_eq_zero_iff, tRobEmpty, beq_iff_eq]

theorem robCount_step (hp : s.Ptrs) (hs : s.rState ≠ .rat) (hl : s.nLeaving i ≤ s.robCount) :
    (s.step i).robCount + s.nLeaving i = s.robCount + s.nAllocated i := by
  unfold robCount at hl ⊢
  have hc : (s.ctl i).tClrRob = false := by rw [ctl_tClrRob, decide_eq_false hs]
  have hroom := hp.room (i := i)
  have hh : (s.step i).rRobHeadPtr = s.rRobHeadPtr + BitVec.ofNat 6 (s.nLeaving i) := by
    rw [← bumpHead_eq]
    exact if_neg (by rw [hc]; exact Bool.false_ne_true)
  have ht : (s.step i).rRobTailPtr = s.rRobTailPtr + BitVec.ofNat 6 (s.nAllocated i) := by
    rw [← bumpTail_eq]
    exact if_neg (by rw [hc]; exact Bool.false_ne_true)
  have ho : occ s.rRobHeadPtr (s.rRobTailPtr + BitVec.ofNat 6 (s.nAllocated i)) =
      occ s.rRobHeadPtr s.rRobTailPtr + s.nAllocated i := occ_tail_add _ _ (by omega)
  rw [hh, ht, occ_head_add _ _ (by omega), ho]
  omega

theorem robHead_step (hs : s.rState ≠ .rat) (hl : s.nLeaving i = 0) :
    (s.step i).rRobHeadPtr = s.rRobHeadPtr := by
  have hx : (s.step i).rRobHeadPtr = s.bumpHead i s.rRobHeadPtr :=
    if_neg (by rw [ctl_tClrRob, decide_eq_false hs]; exact Bool.false_ne_true)
  rw [hx, bumpHead_eq, hl]
  exact BitVec.add_zero _

theorem robCount_rat (hs : s.rState = .rat) : (s.step i).robCount = 0 := by
  have hc : (s.ctl i).tClrRob = true := by rw [ctl_tClrRob, decide_eq_true hs]
  have hh : (s.step i).rRobHeadPtr = 0 := if_pos hc
  have ht : (s.step i).rRobTailPtr = 0 := if_pos hc
  rw [robCount, hh, ht, occ_self]

theorem not_inRob_of_zero (h : s.robCount = 0) (p : RobPtr) : ¬s.InRob p := by
  rintro ⟨n, hn, -⟩
  rw [robCount] at h
  omega

/-- An entry of the ROB was one before the cycle, or the cycle has allocated it. -/
theorem inRob_of_step (hp : s.Ptrs) (hl : s.nLeaving i ≤ s.robCount) {p : RobPtr}
    (h : (s.step i).InRob p) : s.InRob p ∨ ((s.ctl i).tAlloc = true ∧ p = idx s.rRobTailPtr) ∨
      ((s.ctl i).tAllocTwo = true ∧ p = idx s.rRobNextTailPtr) := by
  by_cases hs : s.rState = .rat
  · exact absurd h (not_inRob_of_zero (robCount_rat hs) p)
  · have hcount := robCount_step (i := i) hp hs hl
    obtain ⟨n, hn, rfl⟩ := h
    have hh : (s.step i).rRobHeadPtr = s.rRobHeadPtr + BitVec.ofNat 6 (s.nLeaving i) := by
      rw [← bumpHead_eq]
      exact if_neg (by rw [ctl_tClrRob, decide_eq_false hs]; exact Bool.false_ne_true)
    rw [hh, slot_head_add]
    change n < (s.step i).robCount at hn
    by_cases hin : s.nLeaving i + n < s.robCount
    · exact .inl ⟨_, hin, rfl⟩
    have ha : 0 < s.nAllocated i := by omega
    unfold nAllocated at ha hcount
    split_ifs at ha hcount with h1 h2
    · by_cases hx : s.nLeaving i + n = s.robCount
      · refine .inr (.inl ⟨h1, ?_⟩)
        rw [hx]
        exact slot_occ _ _
      · refine .inr (.inr ⟨h2, ?_⟩)
        rw [show s.nLeaving i + n = s.robCount + 1 by omega, hp.robNextTail, slot, ← add_ofNat_add,
          robCount, head_add_occ]
        rfl
    · refine .inr (.inl ⟨h1, ?_⟩)
      rw [show s.nLeaving i + n = s.robCount by omega]
      exact slot_occ _ _
    · omega

/-! ### Where the states come from -/

/-- Outside ACTIVE and the states around a serializing uop nothing is allocated or retired, and
only WRITE_CAUSE drops the head. -/
theorem halted_moves (h : Halted s.rState ∨ Records s.rState ∨ s.rState = .archFault) :
    s.nAllocated i = 0 ∧ s.nLeaving i = if s.rState = .writeCause then 1 else 0 := by
  have ha : (s.ctl i).tAlloc = false := by
    rw [ctl_tAlloc]
    rcases h with (h | h | h) | (h | h) | h <;> rw [h]
  have hr : (s.ctl i).tRetire = false := by
    rw [ctl_tRetire]
    rcases h with (h | h | h) | (h | h) | h <;> rw [h]
  have h2 : (s.ctl i).tRetireTwo = false := Bool.eq_false_iff.mpr fun h2 => by
    rw [(tRetireTwo_tRetire h2).1] at hr
    cases hr
  unfold nAllocated nLeaving
  rw [ha, hr, h2, ctl_tBumpRobHead]
  rcases h with (h | h | h) | (h | h) | h <;> rw [h] <;> exact ⟨rfl, rfl⟩

theorem ctl_halted (h : Halted (s.ctl i).nState) :
    Halted s.rState ∨ s.rState = .writeCause := by
  have hnot : ∀ q, ¬Halted q → (s.ctl i).nState ≠ q := fun q hq he => hq (he ▸ h)
  by_cases hs : s.rState = .active
  · cases activeMove (i := i) hs with
    | stay hn _ => exact absurd hn (hnot _ (by simp [Halted]))
    | drain hn _ _ _ => exact absurd hn (hnot _ (by simp [Halted]))
    | fault hn _ _ _ _ => exact absurd hn (hnot _ (by simp [Halted]))
    | serial hn _ _ _ _ _ =>
        rcases hn with hn | hn <;> exact absurd hn (hnot _ (by simp [Halted]))
  · unfold ctl at h
    cases hst : s.rState <;> simp only [hst] at h
    case active => exact absurd hst hs
    case flushForHalt | halt | haltWaitForRestart => exact .inl (by simp [Halted])
    case writeCause => exact .inr rfl
    all_goals
      simp only [drainCtl, ratCtl, allocForSerializeCtl, waitForSerializeAndRestartCtl,
        monitorFlushCacheCtl, handleMonitorCtl, allocForMonitorCtl, waitForMonitorCtl,
        archFaultCtl, writeEpcCtl] at h
      (try split_ifs at h) <;> simp [Halted, dfltCtl, hst] at h

theorem ctl_archFault (h : (s.ctl i).nState = .archFault) :
    s.rState = .active ∧ s.tCanRetireRobHead = true ∧ s.nAllocated i = 0 ∧ s.nLeaving i = 0 := by
  by_cases hs : s.rState = .active
  · cases activeMove (i := i) hs with
    | stay hn _ =>
        rw [hn] at h
        cases h
    | drain hn _ _ _ =>
        rw [hn] at h
        cases h
    | serial hn _ _ _ _ _ => rcases hn with hn | hn <;> rw [hn] at h <;> cases h
    | fault hn _ ha hc hf =>
        refine ⟨hs, hc, by rw [nAllocated, ha]; rfl, ?_⟩
        have hr : (s.ctl i).tRetire = false := by
          rw [ctl_of_active hs, activeCtl_tRetire, hf, Bool.not_true, Bool.and_false]
        have hb : (s.ctl i).tBumpRobHead = false := by
          rw [ctl_of_active hs, activeCtl_tBumpRobHead, hf, Bool.not_true, Bool.and_false]
        rw [nLeaving, hr, hb]
        rfl
  · exfalso
    unfold ctl at h
    cases hst : s.rState <;> simp only [hst] at h
    case active => exact hs hst
    all_goals
      simp only [drainCtl, ratCtl, allocForSerializeCtl, waitForSerializeAndRestartCtl,
        monitorFlushCacheCtl, handleMonitorCtl, allocForMonitorCtl, waitForMonitorCtl,
        flushForHaltCtl, haltCtl, haltWaitForRestartCtl, archFaultCtl, writeEpcCtl,
        writeCauseCtl] at h
      (try split_ifs at h) <;> simp [dfltCtl, hst] at h

/-- The core waits for a serializing uop after it has allocated it, or, from ALLOC_FOR_MONITOR,
without looking. -/
theorem ctl_waits (h : Waits (s.ctl i).nState) :
    (Serial s.rState ∧ (s.rState ≠ .allocForMonitor → (s.ctl i).tAlloc = true) ∧
        (s.ctl i).tAllocTwo = false ∧ s.nLeaving i = 0) ∨
      Waits s.rState ∧ s.nAllocated i = 0 ∧ s.nLeaving i = 0 := by
  by_cases hw : Waits s.rState
  · refine .inr ⟨hw, ?_⟩
    cases hc : s.tRobHeadComplete
    · have hd := waits_incomplete (i := i) hw hc
      unfold nAllocated nLeaving
      rw [hd]
      exact ⟨rfl, rfl⟩
    · obtain ⟨-, -, ha, -, hb, hr, hn⟩ := waits_complete (i := i) hw hc
      have hg : s.nGotRestartAck i = false := Bool.eq_false_iff.mpr fun hg => by
        rw [hn, if_pos hg] at h
        rcases h with h | h <;> cases h
      unfold nAllocated nLeaving
      rw [ha, hb, hr, hg, Bool.and_false]
      exact ⟨rfl, rfl⟩
  by_cases hser : Serial s.rState
  · refine .inl ⟨hser, ?_, (serialMove hser).2.1, ?_⟩
    · intro hne
      obtain ⟨-, -, ⟨hs', -⟩ | -⟩ := serialMove (i := i) hser
      · exfalso
        rcases h with h | h <;> rw [h] at hs' <;> simp [Serial] at hs'
      · unfold ctl at h ⊢
        rcases hser with hs | hs | hs | hs <;> simp only [hs] at h ⊢
        · rw [allocForSerializeCtl] at h ⊢
          cases ha : s.allocSerial i
          · rw [ha] at h
            rcases h with h | h <;> cases h
          · rfl
        · rw [monitorFlushCacheCtl] at h
          split_ifs at h
          · rcases h with h | h <;> cases h
          · rcases h with h | h <;> · change s.rState = _ at h; rw [hs] at h; cases h
        · rw [handleMonitorCtl] at h
          split_ifs at h
          · rcases h with h | h <;> cases h
          · rcases h with h | h <;> · change s.rState = _ at h; rw [hs] at h; cases h
        · exact absurd hs hne
    · have hr : (s.ctl i).tRetire = false := by
        rw [ctl_tRetire]
        rcases hser with hs | hs | hs | hs <;> rw [hs]
      have hb : (s.ctl i).tBumpRobHead = false := by
        rw [ctl_tBumpRobHead]
        rcases hser with hs | hs | hs | hs <;> rw [hs]
      rw [nLeaving, hr, hb]
      rfl
  · exfalso
    by_cases hs : s.rState = .active
    · cases activeMove (i := i) hs with
      | stay hn _ | drain hn _ _ _ | fault hn _ _ _ _ =>
          rw [hn] at h
          rcases h with h | h <;> cases h
      | serial hn _ _ _ _ _ =>
          rcases hn with hn | hn <;> rw [hn] at h <;> rcases h with h | h <;> cases h
    · unfold ctl at h
      cases hst : s.rState <;> simp only [hst] at h
      case active => exact hs hst
      case waitForSerializeAndRestart | waitForMonitor => exact hw (by rw [hst]; simp [Waits])
      case allocForSerialize | monitorFlushCache | handleMonitor | allocForMonitor =>
        exact hser (by rw [hst]; simp [Serial])
      all_goals
        simp only [drainCtl, ratCtl, flushForHaltCtl, haltCtl, haltWaitForRestartCtl,
          archFaultCtl, writeEpcCtl, writeCauseCtl] at h
        (try split_ifs at h) <;> simp [Waits, dfltCtl, hst] at h

theorem ctl_drain (h : (s.ctl i).nState = .drain) :
    s.rState = .drain ∨ s.rState = .active ∧ s.tRobEmpty = false := by
  by_cases hs : s.rState = .active
  · cases activeMove (i := i) hs with
    | drain _ _ _ he => exact .inr ⟨hs, he⟩
    | stay hn _ | fault hn _ _ _ _ =>
        rw [hn] at h
        cases h
    | serial hn _ _ _ _ _ =>
        rcases hn with hn | hn <;> rw [hn] at h <;> cases h
  · refine .inl ?_
    unfold ctl at h
    cases hst : s.rState <;> simp only [hst] at h
    case active => exact absurd hst hs
    case drain => rfl
    all_goals
      simp only [ratCtl, allocForSerializeCtl, waitForSerializeAndRestartCtl, monitorFlushCacheCtl,
        handleMonitorCtl, allocForMonitorCtl, waitForMonitorCtl, flushForHaltCtl, haltCtl,
        haltWaitForRestartCtl, archFaultCtl, writeEpcCtl, writeCauseCtl] at h
      (try split_ifs at h) <;> simp [dfltCtl, hst] at h

theorem ctl_records (h : Records (s.ctl i).nState) :
    s.rState = .archFault ∨ s.rState = .writeEpc :=
  ctl_faulting h

/-! ### The invariant -/

/-- The number of entries in each state, and the slots in flight. -/
structure Occupied (s : Core) : Prop where
  ptrs : s.Ptrs
  ds : s.DsInv
  inflight : s.InflightInv
  none : Serial s.rState → s.robCount = 0
  one : Waits s.rState → s.robCount = 1
  fault : s.rState = .archFault ∨ Records s.rState → 0 < s.robCount
  still : Halted s.rState → ∀ p, s.rRobInflight p = false

/-- What a cycle needs: the execution unit and the data cache answer what is in flight, the uop of
a monitor call is allocated, and nothing is in flight when a faulting instruction is dropped. -/
structure Orderly (s : Core) (i : CoreIn) : Prop where
  answers : AnswersInflight s i
  monitor : s.rState = .allocForMonitor → (s.ctl i).tAlloc = true
  quiet : s.rState = .writeCause → ∀ p, s.rRobInflight p = false

theorem Occupied.retires (h : s.Occupied) : s.RetiresEntry i := by
  intro hl
  have hsome : 0 < s.robCount → s.tRobEmpty = false := fun hc => by
    by_contra he
    rw [Bool.not_eq_false] at he
    rw [robCount_eq_zero.mpr he] at hc
    cases hc
  rw [ctl_tRetire, ctl_tBumpRobHead] at hl
  cases hs : s.rState <;> simp only [hs] at hl <;>
    first | exact absurd hl Bool.false_ne_true | skip
  case active =>
    rw [activeCtl_tRetire, activeCtl_tBumpRobHead] at hl
    simp only [tCanRetireRobHead, Bool.or_eq_true, Bool.and_eq_true, Bool.not_eq_true'] at hl
    rcases hl with hl | hl
    · exact hl.1.2.2
    · exact hl.1.1.2.2
  case waitForMonitor =>
    have h1 := h.one (by rw [hs]; simp [Waits])
    exact hsome (by omega)
  case writeCause => exact hsome (h.fault (by rw [hs]; simp [Records]))

theorem Occupied.nLeaving_le (h : s.Occupied) : s.nLeaving i ≤ s.robCount :=
  h.retires.nLeaving_le h.ptrs

/-- A cycle that allocates nothing puts nothing in flight. -/
theorem still_step (ha : s.nAllocated i = 0) (h : ∀ p, s.rRobInflight p = false) (p : RobPtr) :
    (s.step i).rRobInflight p = false := by
  by_contra hf
  rw [Bool.not_eq_false] at hf
  rcases inflight_step hf with (⟨h1, -⟩ | ⟨h2, -⟩) | ⟨hf, -⟩
  · rw [nAllocated, if_pos h1] at ha
    split_ifs at ha
  · rw [nAllocated, if_pos (tAllocTwo_tAlloc h2).1] at ha
    split_ifs at ha
  · rw [h p] at hf
    cases hf

theorem Occupied.step (h : s.Occupied) (ho : s.Orderly i) : (s.step i).Occupied := by
  have hp := h.ptrs
  have hl := h.nLeaving_le (i := i)
  have hst : (s.step i).rState = (s.ctl i).nState := rfl
  have hcount := fun hs => robCount_step (i := i) hp hs hl
  refine ⟨hp.step hl, h.ds.step, ?_, fun hn => ?_, fun hn => ?_, fun hn => ?_, fun hn => ?_⟩
  · exact h.inflight.step_of_leaving hp h.ds hl ho.quiet ho.answers
  · obtain ⟨hfrom, ha, hle⟩ := ctl_serial (hst ▸ hn)
    have hr : s.rState ≠ .rat := by
      rcases hfrom with (hs | hs | hs | hs) | ⟨hs, -⟩ <;> rw [hs] <;> decide
    have h0 : s.robCount = 0 := hfrom.elim h.none fun hs => robCount_eq_zero.mpr hs.2.1
    have := hcount hr
    omega
  · rcases ctl_waits (hst ▸ hn) with ⟨hs, ha, ha2, hle⟩ | ⟨hs, ha, hle⟩
    · have hr : s.rState ≠ .rat := by
        rcases hs with hs | hs | hs | hs <;> rw [hs] <;> decide
      have halloc : (s.ctl i).tAlloc = true := by
        by_cases hm : s.rState = .allocForMonitor
        · exact ho.monitor hm
        · exact ha hm
      have h1 : s.nAllocated i = 1 := by
        rw [nAllocated, if_pos halloc, ha2]
        rfl
      have h0 := h.none hs
      have := hcount hr
      omega
    · have h1 := h.one hs
      have := hcount hs.ne.2.2
      omega
  · rcases hn with hn | hn
    · obtain ⟨hs, hcan, ha, hle⟩ := ctl_archFault (hst ▸ hn)
      have hne : s.robCount ≠ 0 := fun h0 => by
        rw [tCanRetireRobHead, robCount_eq_zero.mp h0, Bool.not_true, Bool.and_false] at hcan
        cases hcan
      have := hcount (by rw [hs]; decide)
      omega
    · have hfrom := ctl_records (hst ▸ hn)
      have hr : s.rState ≠ .rat := by
        rcases hfrom with hs | hs <;> rw [hs] <;> decide
      have hne : s.rState ≠ .writeCause := by
        rcases hfrom with hs | hs <;> rw [hs] <;> decide
      have hmove := halted_moves (i := i) (.inr (hfrom.elim .inr fun hs => .inl (.inl hs)))
      rw [if_neg hne] at hmove
      have h0 := h.fault (hfrom.elim .inl fun hs => .inr (.inl hs))
      have := hcount hr
      omega
  · have hfrom := ctl_halted (hst ▸ hn)
    refine still_step (halted_moves (hfrom.imp_right fun hs => .inl (.inr hs))).1 ?_
    exact hfrom.elim h.still ho.quiet

theorem init_occupied (rob : RobPtr → RobEntry) (bob : BitVec 2 → BobEntry)
    (dq : BitVec 2 → Uop) : (init rob bob dq).Occupied where
  ptrs := init_ptrs rob bob dq
  ds := init_dsInv rob bob dq
  inflight := init_inflightInv rob bob dq
  none h := by rcases h with h | h | h | h <;> cases h
  one h := by rcases h with h | h <;> cases h
  fault h := by rcases h with h | h | h <;> cases h
  still _ _ := rfl

end Core
end Rv32Core
