import Rv32Core.L1d.Spec

/-! # The invariant of the data cache's control

What holds between the registers of the two ports, the state of the machine and the request to
the next level in every run, whatever arrives on the ports. -/

namespace Rv32Core

open RingBuffer

namespace L1d

variable {s : L1d} {i : L1dIn}

/-! ### The invariant -/

/-- The invariant of the control. -/
structure ReqInv (s : L1d) : Prop where
  /-- Port 1 and port 2 only hold requests in ACTIVE. -/
  gotReq : s.rGotReq = true → s.rState = .active
  gotReq2 : s.rGotReq2 = true → s.rState = .active
  lastWr : s.rLastWr = (s.rGotReq && s.rReq.isStore)
  /-- A load on port 1 has both ports to itself. -/
  both : s.rGotReq = true → s.rGotReq2 = true → s.rReq.isStore = true
  retry : s.rGotReq = true → s.rIsRetry = false → s.rDidReload = true
  cacheIdx : s.rGotReq = true → s.rCacheIdx = setOf s.rReq.addr ∧ s.rCacheTag = tagOf s.rReq.addr
  conflict : s.rGotReq = true → s.wrConflict = false
  noWait : s.rState ≠ .waitInjectReload
  /-- The request to the next level is about the set of port 1; an eviction leaves the line
  invalid, a refill brings in the line of port 1. -/
  inject : s.rState = .injectReload → setOf s.rMemReqAddr = setOf s.rReq.addr ∧
    s.rInhibitWrite = s.rLockCache ∧
    (s.rLockCache = false → tagOf s.rMemReqAddr = tagOf s.rReq.addr)
  handle : s.rState = .handleReload → s.dcDirty (setOf s.rReq.addr) = false ∧
    s.dcValid (setOf s.rReq.addr) = !s.rLockCache ∧
    (s.rLockCache = false → s.dcTag (setOf s.rReq.addr) = tagOf s.rReq.addr)
  reload : s.rGotReq = true → s.rDidReload = true → s.rDirtyOut = false ∧
    s.rValidOut = !s.rLockCache ∧ (s.rLockCache = false → s.rTagOut = s.rCacheTag)
  mqOcc : occ s.rMqHeadPtr s.rMqTailPtr + s.rGotReq2.toNat ≤ 8

/-! ### What the invariant says about port 1 -/

theorem ReqInv.lastWr_eq (h : s.ReqInv) (hg : s.rGotReq = true) : s.rLastWr = s.rReq.isStore := by
  rw [h.lastWr, hg, Bool.true_and]

theorem ReqInv.ports_empty (h : s.ReqInv) (hs : s.rState ≠ .active) :
    s.rGotReq = false ∧ s.rGotReq2 = false ∧ s.rLastWr = false := by
  have h1 : s.rGotReq = false := Bool.eq_false_iff.mpr fun hg => hs (h.gotReq hg)
  refine ⟨h1, Bool.eq_false_iff.mpr fun hg => hs (h.gotReq2 hg), ?_⟩
  rw [h.lastWr, h1, Bool.false_and]

/-- A request on port 1 that misses has its line evicted or requested: nothing holds it up. -/
theorem ReqInv.miss_starts (h : s.ReqInv) (hm : s.miss = true) :
    (s.evicts = true ∧ s.refills = false) ∨ (s.evicts = false ∧ s.refills = true) := by
  have hm' := hm
  simp only [miss, Bool.and_eq_true, Bool.not_eq_true'] at hm'
  obtain ⟨hg, hh⟩ := hm'
  cases hr : s.rIsRetry
  · obtain ⟨hd, hv, ht⟩ := h.reload hg (h.retry hg hr)
    have hl : s.rLockCache = true := by
      by_contra hl
      rw [Bool.not_eq_true] at hl
      simp [hitLine, hv, hl, ht hl] at hh
    right
    simp [evicts, refills, dirtyMiss, hm, hd, hl]
  · have hmr : s.mayRetry = true := by
      cases hb : s.rHitBusyAddr <;> simp [mayRetry, hr, hb]
    cases hdm : s.dirtyMiss <;> simp [evicts, refills, hm, hdm, hmr]

theorem ReqInv.nState_active (h : s.ReqInv) (hs : s.rState = .active) :
    (s.ctl i).nState =
      if s.startsFlush i then .flushCache
      else if s.startsFlushCl i then .flushCl
      else if s.miss then .injectReload else .active := by
  rw [ctl_active hs, activeCtl_eq]
  dsimp only
  cases hm : s.miss
  · have he : s.evicts = false := by simp [evicts, hm]
    have hf : s.refills = false := by simp [refills, hm]
    simp [he, hf, hs]
  · have hg : s.rGotReq = true := by
      simp only [miss, Bool.and_eq_true] at hm
      exact hm.1
    have hor : (s.evicts || s.refills) = true := by
      rcases h.miss_starts hm with ⟨he, -⟩ | ⟨-, he⟩ <;> simp [he]
    simp [hor, h.conflict hg]

/-! ### The head of the miss queue -/

theorem headGo_spec (h : s.headGo = true) :
    s.memQEmpty = false ∧ s.miss = false ∧ s.rLockCache = false ∧ s.tMhBlock = false := by
  simpa [headGo, and_assoc] using h

theorem fires_headGo (h : s.fires i = true) : s.headGo = true := by
  simp only [fires, firesStore, firesLoad, Bool.or_eq_true, Bool.and_eq_true] at h
  rcases h with h | h <;> exact h.1

theorem dropsStore_headGo (h : s.dropsStore i = true) : s.headGo = true := by
  simp only [dropsStore, Bool.and_eq_true] at h
  exact h.1

/-- A flush needs an empty miss queue. -/
theorem noFlush_of_headGo (h : s.headGo = true) :
    s.startsFlush i = false ∧ s.startsFlushCl i = false := by
  simp [startsFlush, startsFlushCl, flushable, (headGo_spec h).1]

theorem noFlush_of_accepts (h : s.accepts i = true) :
    s.startsFlush i = false ∧ s.startsFlushCl i = false := by
  simp [startsFlush, startsFlushCl, h]

theorem accepts_spec (h : s.accepts i = true) :
    i.coreMemReqValid = true ∧ s.miss = false ∧ s.memQAlmostFull = false ∧ s.memQFull = false ∧
      s.firesLoad = false ∧
      (s.rLastWr2 && s.rCacheIdx2 == setOf i.coreMemReq.addr && !i.coreMemReq.isStore) = false ∧
      s.tCmBlockStall i = false ∧ s.rRobInflight i.coreMemReq.robPtr = false := by
  unfold accepts at h
  simp only [Bool.and_eq_true, Bool.not_eq_true', Bool.or_eq_false_iff] at h
  obtain ⟨⟨⟨⟨⟨⟨h1, h2⟩, h3, h4⟩, h5⟩, h6⟩, h7⟩, h8⟩ := h
  exact ⟨h1, h2, h3, h4, h5, h6, h7, h8⟩

theorem pushes_gotReq2 (h : s.pushes i = true) : s.rGotReq2 = true := by
  simp only [pushes, Bool.and_eq_true] at h
  exact h.1.1

/-! ### The miss queue -/

theorem step_mqPtrs :
    (s.step i).rMqHeadPtr = s.rMqHeadPtr + BitVec.ofNat 4 (s.ctl i).tPopMq.toNat ∧
    (s.step i).rMqTailPtr = s.rMqTailPtr + BitVec.ofNat 4 (s.ctl i).tPushMiss.toNat := by
  constructor
  · change (if (s.ctl i).tPopMq then s.rMqHeadPtr + 1 else s.rMqHeadPtr) = _
    cases (s.ctl i).tPopMq <;> simp
  · change (if (s.ctl i).tPushMiss then s.rMqTailPtr + 1 else s.rMqTailPtr) = _
    cases (s.ctl i).tPushMiss <;> simp

theorem mq_room :
    (s.ctl i).tPopMq.toNat ≤ occ s.rMqHeadPtr s.rMqTailPtr ∧
    (s.ctl i).tPushMiss.toNat ≤ s.rGotReq2.toNat := by
  by_cases hs : s.rState = .active
  · rw [ctl_active hs, activeCtl_eq]
    dsimp only
    constructor
    · cases hp : s.fires i || s.dropsStore i
      · simp
      · have hg : s.headGo = true := by
          rcases (Bool.or_eq_true _ _).mp hp with hp | hp
          · exact fires_headGo hp
          · exact dropsStore_headGo hp
        have he := (headGo_spec hg).1
        rw [memQEmpty, beq_eq_false_iff_ne] at he
        exact occ_pos_iff.mpr he
    · cases hp : s.pushes i
      · simp
      · simp [pushes_gotReq2 hp]
  · have hq := quiet (i := i) hs
    simp [hq.tPopMq, hq.tPushMiss]

theorem ReqInv.step_occ (h : s.ReqInv) :
    occ (s.step i).rMqHeadPtr (s.step i).rMqTailPtr + (s.ctl i).tPopMq.toNat =
      occ s.rMqHeadPtr s.rMqTailPtr + (s.ctl i).tPushMiss.toNat := by
  have h8 := h.mqOcc
  obtain ⟨hpop, hpush⟩ := mq_room (s := s) (i := i)
  have ht : occ s.rMqHeadPtr (s.rMqTailPtr + BitVec.ofNat 4 (s.ctl i).tPushMiss.toNat) =
      occ s.rMqHeadPtr s.rMqTailPtr + (s.ctl i).tPushMiss.toNat := occ_tail_add _ _ (by omega)
  rw [step_mqPtrs.1, step_mqPtrs.2, occ_head_add _ _ (by omega), ht]
  omega

theorem step_rGotReq2 (hs : s.rState = .active) : (s.step i).rGotReq2 = s.accepts i := by
  show (s.ctl i).tGotReq2 = _
  rw [ctl_active hs, activeCtl_eq]

theorem ReqInv.step_mqOcc (h : s.ReqInv) :
    occ (s.step i).rMqHeadPtr (s.step i).rMqTailPtr + (s.step i).rGotReq2.toNat ≤ 8 := by
  have h8 := h.mqOcc
  have ho := h.step_occ (i := i)
  obtain ⟨hpop, hpush⟩ := mq_room (s := s) (i := i)
  by_cases hs : s.rState = .active
  · rw [step_rGotReq2 hs]
    cases hacc : s.accepts i
    · simp only [Bool.toNat_false]
      omega
    · obtain ⟨-, -, haf, hf, -⟩ := accepts_spec hacc
      have h7 : occ s.rMqHeadPtr s.rMqTailPtr < 2 ^ 3 :=
        (isFull_eq_false_iff (k := 3) (by omega)).mp hf
      have ho1 : occ s.rMqHeadPtr (s.rMqTailPtr + 1) = occ s.rMqHeadPtr s.rMqTailPtr + 1 :=
        occ_tail_add _ _ (n := 1) (by omega)
      have h6 := (isFull_eq_false_iff (k := 3) (by omega)).mp haf
      have h2 := Bool.toNat_le s.rGotReq2
      simp only [Bool.toNat_true]
      omega
  · have hg : (s.step i).rGotReq2 = false := (quiet hs).tGotReq2
    rw [hg, Bool.toNat_false]
    omega

/-! ### One cycle in ACTIVE -/

theorem step_rGotReq (hs : s.rState = .active) : (s.step i).rGotReq = s.fires i := by
  show (s.ctl i).tGotReq = _
  rw [ctl_tGotReq, hs]

/-- What the head of the miss queue leaves on port 1 when it is started. -/
structure Fired (s : L1d) (i : L1dIn) : Prop where
  headGo : s.headGo = true
  rState : (s.step i).rState = .active
  rIsRetry : (s.step i).rIsRetry = true
  addr : (s.step i).rReq.addr = s.tMemHead.addr
  isStore : (s.step i).rReq.isStore = s.tMemHead.isStore
  rCacheIdx : (s.step i).rCacheIdx = setOf s.tMemHead.addr
  rCacheTag : (s.step i).rCacheTag = tagOf s.tMemHead.addr

theorem ReqInv.fired (h : s.ReqInv) (hs : s.rState = .active) (hf : s.fires i = true) :
    s.Fired i := by
  have hgo := fires_headGo hf
  have hm := (headGo_spec hgo).2.1
  obtain ⟨hf1, hf2⟩ := noFlush_of_headGo (i := i) hgo
  have hc : s.ctl i = _ := (ctl_active hs).trans activeCtl_eq
  have hidx : (s.step i).rCacheIdx = _ := congrArg L1dCtl.tCacheIdx hc
  have htag : (s.step i).rCacheTag = _ := congrArg L1dCtl.tCacheTag hc
  have hreq : (s.step i).rReq = _ := congrArg L1dCtl.nReq hc
  have hretry : (s.step i).rIsRetry = s.fires i := congrArg L1dCtl.nIsRetry hc
  have hst : (s.step i).rState = _ := h.nState_active hs
  dsimp only at hidx htag hreq
  have hreq' : (s.step i).rReq.addr = s.tMemHead.addr ∧
      (s.step i).rReq.isStore = s.tMemHead.isStore := by
    rw [hreq]
    unfold fires at hf
    split_ifs with h1 h2
    · exact ⟨rfl, rfl⟩
    · exact ⟨rfl, rfl⟩
    · simp [h1, h2] at hf
  exact
    { headGo := hgo
      rState := by simp [hst, hm, hf1, hf2]
      rIsRetry := hretry.trans hf
      addr := hreq'.1
      isStore := hreq'.2
      rCacheIdx := by simp [hidx, hf, hf1, hf2]
      rCacheTag := by simp [htag, hf] }

theorem ReqInv.step_gotReq2 (h : s.ReqInv) (hs : s.rState = .active) (ha : s.accepts i = true) :
    (s.step i).rState = .active := by
  have hst : (s.step i).rState = _ := h.nState_active hs
  obtain ⟨h2, h3⟩ := noFlush_of_accepts ha
  simp [hst, (accepts_spec ha).2.1, h2, h3]

theorem ReqInv.step_lastWr (h : s.ReqInv) (hs : s.rState = .active) :
    (s.step i).rLastWr = ((s.step i).rGotReq && (s.step i).rReq.isStore) := by
  show (s.ctl i).nLastWr = _
  rw [ctl_nLastWr, hs, step_rGotReq hs]
  dsimp only
  cases hf : s.fires i
  · rw [fires, Bool.or_eq_false_iff] at hf
    simp [hf.1]
  · rw [(h.fired hs hf).isStore]
    have hg := fires_headGo hf
    simp only [fires, firesStore, firesLoad, hg, Bool.true_and] at hf ⊢
    cases hst : s.tMemHead.isStore <;> simp_all

/-- A load is only started when port 2 accepts nothing. -/
theorem ReqInv.step_both (h : s.ReqInv) (hs : s.rState = .active) (hf : s.fires i = true)
    (ha : s.accepts i = true) : (s.step i).rReq.isStore = true := by
  have hl := (accepts_spec ha).2.2.2.2.1
  rw [firesLoad, fires_headGo hf] at hl
  rw [(h.fired hs hf).isStore]
  simpa using hl

theorem ReqInv.step_conflict (h : s.ReqInv) (hs : s.rState = .active) (hf : s.fires i = true) :
    (s.step i).wrConflict = false := by
  have hmh := (headGo_spec (fires_headGo hf)).2.2.2
  show (s.rCacheIdx == (s.step i).rCacheIdx && s.rLastWr) = false
  rw [(h.fired hs hf).rCacheIdx]
  cases hw : s.rLastWr
  · simp
  · have hg : s.rGotReq = true := by
      have := h.lastWr
      rw [hw] at this
      exact (Bool.and_eq_true _ _ |>.mp this.symm).1
    simpa [tMhBlock, hg, hw] using hmh

/-- A miss asks for the line of port 1, or evicts the line that is in its place. -/
theorem ReqInv.step_inject (h : s.ReqInv) (hs : s.rState = .active) (hm : s.miss = true) :
    setOf (s.step i).rMemReqAddr = setOf (s.step i).rReq.addr ∧
      (s.step i).rInhibitWrite = (s.step i).rLockCache ∧
      ((s.step i).rLockCache = false →
        tagOf (s.step i).rMemReqAddr = tagOf (s.step i).rReq.addr) := by
  have hg : s.rGotReq = true := by
    simp only [miss, Bool.and_eq_true] at hm
    exact hm.1
  obtain ⟨hi, ht⟩ := h.cacheIdx hg
  have hc : s.ctl i = _ := (ctl_active hs).trans activeCtl_eq
  have hreq : (s.step i).rReq = _ := congrArg L1dCtl.nReq hc
  have haddr : (s.step i).rMemReqAddr = _ := congrArg L1dCtl.nMemReqAddr hc
  have hinh : (s.step i).rInhibitWrite = _ := congrArg L1dCtl.nInhibitWrite hc
  have hlock : (s.step i).rLockCache = _ := congrArg L1dCtl.nLockCache hc
  dsimp only at hreq haddr hinh hlock
  have hfs : s.firesStore i = false ∧ s.firesLoad = false := by
    simp [firesStore, firesLoad, headGo, hm]
  have hreq' : (s.step i).rReq = s.rReq := by rw [hreq]; simp [hfs]
  rw [haddr, hinh, hlock, hreq']
  rcases h.miss_starts hm with ⟨h1, -⟩ | ⟨h1, h2⟩
  · have hd : s.dirtyMiss = true := by
      simp only [evicts, Bool.and_eq_true] at h1
      exact h1.1.2
    simp [h1, hm, hd, hi]
  · have hd : s.dirtyMiss = false := by
      simp only [refills, Bool.and_eq_true, Bool.not_eq_true'] at h2
      exact h2.1.2
    simp [h1, h2, hm, hd, h.conflict hg]

theorem ReqInv.step_active (h : s.ReqInv) (hs : s.rState = .active) : (s.step i).ReqInv := by
  have hgot := step_rGotReq (i := i) hs
  have hgot2 := step_rGotReq2 (i := i) hs
  have hst : (s.step i).rState = _ := h.nState_active hs
  have hload : (s.step i).rDidReload = false := by
    show (s.ctl i).nDidReload = false
    rw [ctl_nDidReload, hs]
    rfl
  refine
    { gotReq := fun hg => (h.fired hs (hgot ▸ hg)).rState
      gotReq2 := fun hg => h.step_gotReq2 hs (hgot2 ▸ hg)
      lastWr := h.step_lastWr hs
      both := fun hg hg2 => h.step_both hs (hgot ▸ hg) (hgot2 ▸ hg2)
      retry := fun hg hr => ?retry
      cacheIdx := fun hg => ?cacheIdx
      conflict := fun hg => h.step_conflict hs (hgot ▸ hg)
      noWait := ?noWait
      inject := fun he => h.step_inject hs ?inject
      handle := fun he => ?handle
      reload := fun _ hd => absurd (hload ▸ hd) Bool.false_ne_true
      mqOcc := h.step_mqOcc }
  case retry =>
    rw [(h.fired hs (hgot ▸ hg)).rIsRetry] at hr
    cases hr
  case cacheIdx =>
    have hf := h.fired hs (hgot ▸ hg)
    rw [hf.rCacheIdx, hf.rCacheTag, hf.addr]
    exact ⟨rfl, rfl⟩
  case noWait =>
    rw [hst]
    split_ifs <;> simp
  case inject =>
    rw [hst] at he
    split_ifs at he with h1 h2 h3
    exact h3
  case handle =>
    rw [hst] at he
    split_ifs at he

/-! ### One cycle -/

theorem nState_reload (hs : s.rState ≠ .active) (hw : s.rState ≠ .waitInjectReload) :
    (s.ctl i).nState ≠ .waitInjectReload ∧
    ((s.ctl i).nState = .injectReload → s.rState = .injectReload ∧ i.memRspValid = false) ∧
    ((s.ctl i).nState = .handleReload → s.rState = .injectReload ∧ i.memRspValid = true) ∧
    (s.rState = .handleReload → (s.ctl i).nState = .active) := by
  unfold ctl
  cases h : s.rState <;>
    first | exact absurd h hs | exact absurd h hw | skip
  all_goals
    simp only [initCacheCtl, injectReloadCtl, flushClCtl, flushClWaitCtl, flushCacheCtl,
      flushCacheLastWaitCtl, flushCacheWaitCtl, handleReloadCtl]
    (try split_ifs) <;> simp [dfltCtl, *]

theorem ReqInv.step_handleReload (h : s.ReqInv) (hs : s.rState = .handleReload) :
    (s.step i).ReqInv := by
  have hne : s.rState ≠ .active := by rw [hs]; decide
  obtain ⟨hg, hg2, hw⟩ := h.ports_empty hne
  have hq := quiet (i := i) hne
  obtain ⟨hd, hv, ht⟩ := h.handle hs
  have hc : s.ctl i = s.handleReloadCtl i := by rw [ctl, hs]
  have hst : (s.step i).rState = .active := congrArg L1dCtl.nState hc
  have hgot2 : (s.step i).rGotReq2 = false := hq.tGotReq2
  have hidx : (s.step i).rCacheIdx = setOf s.rReq.addr := congrArg L1dCtl.tCacheIdx hc
  have htag : (s.step i).rCacheTag = tagOf s.rReq.addr := congrArg L1dCtl.tCacheTag hc
  have hreq : (s.step i).rReq = s.rReq := hq.nReq
  have hlock : (s.step i).rLockCache = s.rLockCache := congrArg L1dCtl.nLockCache hc
  have hcidx : (s.ctl i).tCacheIdx = setOf s.rReq.addr := hidx
  refine
    { gotReq := fun _ => hst
      gotReq2 := fun _ => hst
      lastWr := ?_
      both := fun _ h2 => absurd (hgot2 ▸ h2) Bool.false_ne_true
      retry := fun _ _ => congrArg L1dCtl.nDidReload hc
      cacheIdx := fun _ => by rw [hidx, htag, hreq]; exact ⟨rfl, rfl⟩
      conflict := fun _ => ?_
      noWait := by rw [hst]; decide
      inject := fun he => by rw [hst] at he; cases he
      handle := fun he => by rw [hst] at he; cases he
      reload := fun _ _ => ?_
      mqOcc := h.step_mqOcc }
  · have hl : (s.step i).rLastWr = s.rReq.isStore := congrArg L1dCtl.nLastWr hc
    have hgot : (s.step i).rGotReq = (s.rReq.isStore || !s.rAckLdEarly) :=
      congrArg L1dCtl.tGotReq hc
    rw [hl, hgot, hreq]
    cases s.rReq.isStore <;> simp
  · change (s.rCacheIdx == (s.step i).rCacheIdx && s.rLastWr) = false
    rw [hw, Bool.and_false]
  · change s.dcDirty (s.ctl i).tCacheIdx = false ∧ s.dcValid (s.ctl i).tCacheIdx = !_ ∧
      (_ → s.dcTag (s.ctl i).tCacheIdx = _)
    rw [hcidx, hlock, htag]
    exact ⟨hd, hv, ht⟩

theorem ReqInv.step_injectReload (h : s.ReqInv) (hs : s.rState = .injectReload) :
    (s.step i).ReqInv := by
  have hne : s.rState ≠ .active := by rw [hs]; decide
  obtain ⟨hg, hg2, hw⟩ := h.ports_empty hne
  have hq := quiet (i := i) hne
  obtain ⟨hset, hinh, htag⟩ := h.inject hs
  have hc : s.ctl i = s.injectReloadCtl i := by rw [ctl, hs]
  have hgot : (s.step i).rGotReq = false := (ctl_tGotReq (s := s) (i := i)).trans (by rw [hs])
  have hgot2 : (s.step i).rGotReq2 = false := hq.tGotReq2
  have hreq : (s.step i).rReq = s.rReq := hq.nReq
  obtain ⟨hnw, hinj, hhan, -⟩ := nState_reload (i := i) hne h.noWait
  have hlock : (s.step i).rLockCache = s.rLockCache := by
    change (s.ctl i).nLockCache = _
    rw [hc, injectReloadCtl]
    split_ifs <;> rfl
  have haddr : (s.step i).rMemReqAddr = s.rMemReqAddr := by
    change (s.ctl i).nMemReqAddr = _
    rw [hc, injectReloadCtl]
    split_ifs <;> rfl
  have hmark : (s.ctl i).tMarkInvalid = false := by
    rw [hc, injectReloadCtl]
    split_ifs <;> rfl
  have hno : (s.step i).rGotReq = true → False := fun hg => absurd (hgot ▸ hg) Bool.false_ne_true
  refine
    { gotReq := fun hg => (hno hg).elim
      gotReq2 := fun hg => absurd (hgot2 ▸ hg) Bool.false_ne_true
      lastWr := ?_
      both := fun hg _ => (hno hg).elim
      retry := fun hg _ => (hno hg).elim
      cacheIdx := fun hg => (hno hg).elim
      conflict := fun hg => (hno hg).elim
      noWait := hnw
      inject := fun he => ?_
      handle := fun he => ?_
      reload := fun hg _ => (hno hg).elim
      mqOcc := h.step_mqOcc }
  · change (s.ctl i).nLastWr = _
    rw [ctl_nLastWr, hs, hgot, Bool.false_and]
  · have hr := (hinj he).2
    have hi : (s.step i).rInhibitWrite = s.rInhibitWrite := by
      change (s.ctl i).nInhibitWrite = _
      rw [hc, injectReloadCtl, hr]
      rfl
    rw [hreq, haddr, hlock, hi]
    exact ⟨hset, hinh, htag⟩
  · have hr := (hhan he).2
    have hd : (s.step i).dcDirty = writeIf true (setOf s.rMemReqAddr) false s.dcDirty := by
      change s.nDcDirty i = _
      simp only [nDcDirty, hmark, hr, Bool.false_eq_true, if_false, if_true]
    have hv : (s.step i).dcValid =
        writeIf true (setOf s.rMemReqAddr) (!s.rInhibitWrite) s.dcValid := by
      change s.nDcValid i = _
      simp only [nDcValid, hmark, hr, Bool.false_eq_true, if_false]
    have ht : (s.step i).dcTag =
        writeIf true (setOf s.rMemReqAddr) (tagOf s.rMemReqAddr) s.dcTag := by
      change s.nDcTag i = _
      simp only [nDcTag, hr]
    rw [hreq, hlock, hd, hv, ht, hset, hinh]
    simp only [writeIf_true, Function.update_self]
    exact ⟨trivial, trivial, htag⟩

/-- Start-up and the flushes: both ports stay empty. -/
theorem ReqInv.step_other (h : s.ReqInv) (hs : s.rState ≠ .active) (hi : s.rState ≠ .injectReload)
    (hh : s.rState ≠ .handleReload) : (s.step i).ReqInv := by
  have hq := quiet (i := i) hs
  obtain ⟨hnw, hinj, hhan, -⟩ := nState_reload (i := i) hs h.noWait
  have hgot : (s.step i).rGotReq = false ∧ (s.step i).rLastWr = false := by
    change (s.ctl i).tGotReq = false ∧ (s.ctl i).nLastWr = false
    rw [ctl_tGotReq, ctl_nLastWr]
    cases hst : s.rState <;>
      first | exact absurd hst hs | exact absurd hst hi | exact absurd hst hh | exact ⟨rfl, rfl⟩
  have hgot2 : (s.step i).rGotReq2 = false := hq.tGotReq2
  have hno : (s.step i).rGotReq = true → False := fun hg =>
    absurd (hgot.1 ▸ hg) Bool.false_ne_true
  exact
    { gotReq := fun hg => (hno hg).elim
      gotReq2 := fun hg => absurd (hgot2 ▸ hg) Bool.false_ne_true
      lastWr := by rw [hgot.2, hgot.1, Bool.false_and]
      both := fun hg _ => (hno hg).elim
      retry := fun hg _ => (hno hg).elim
      cacheIdx := fun hg => (hno hg).elim
      conflict := fun hg => (hno hg).elim
      noWait := hnw
      inject := fun he => absurd (hinj he).1 hi
      handle := fun he => absurd (hhan he).1 hi
      reload := fun hg _ => (hno hg).elim
      mqOcc := h.step_mqOcc }

theorem ReqInv.step (h : s.ReqInv) : (s.step i).ReqInv := by
  by_cases hs : s.rState = .active
  · exact h.step_active hs
  by_cases hi : s.rState = .injectReload
  · exact h.step_injectReload hi
  by_cases hh : s.rState = .handleReload
  · exact h.step_handleReload hh
  · exact h.step_other hs hi hh

theorem init_reqInv (p : L1dPowerUp) : (init p).ReqInv where
  gotReq := fun h => absurd h Bool.false_ne_true
  gotReq2 := fun h => absurd h Bool.false_ne_true
  lastWr := rfl
  both := fun h => absurd h Bool.false_ne_true
  retry := fun h => absurd h Bool.false_ne_true
  cacheIdx := fun h => absurd h Bool.false_ne_true
  conflict := fun h => absurd h Bool.false_ne_true
  noWait := fun h => by cases h
  inject := fun h => by cases h
  handle := fun h => by cases h
  reload := fun h => absurd h Bool.false_ne_true
  mqOcc := by simp [init]

theorem reach_reqInv {env : L1d → L1dIn → Prop} (h : l1dMachine.Reach env s) : s.ReqInv :=
  h.invariant (fun _ ⟨p, he⟩ => he ▸ init_reqInv p) fun _ _ h _ => h.step

end L1d
end Rv32Core
