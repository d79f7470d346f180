import Mathlib.Algebra.BigOperators.Group.Finset.Basic
import Rv32Core.Lib.Trace
import Rv32Core.L1d.Answers

/-! # Every request is answered eventually

In an infinite run in which the next level answers every request to it and every store at the
head of the miss queue retires with its data, or is found dead in a drain (`Fair`), and in
which no flush races with a missing load, an accepted request is answered.  The argument
follows the request: from port 2 into the miss queue, up to its head, onto port 1 and through
at most one eviction and one reload. -/

namespace Rv32Core

open RingBuffer Clocked

namespace L1d

variable {s : L1d} {i : L1dIn}

/-- The states that wait for an answer of the next level. -/
def Waiting : L1dState → Prop
  | .injectReload | .flushCacheWait | .flushCacheLastWait | .flushClWait => True
  | _ => False

/-- The store at the head of the miss queue may leave it: it has retired and its data is
presented, or it is dead and the machine drains. -/
def Released (s : L1d) (i : L1dIn) : Prop :=
  s.storeReady i = true ∨ (i.drainDsComplete = true ∧ i.deadRobMask s.tMemHead.robPtr = true)

/-- What the surroundings of the data cache owe it. -/
structure Fair (T : Trace l1dMachine) : Prop where
  /-- The next level answers. -/
  answers : ∀ n, Waiting (T.st n).rState → ∃ m ≥ n, (T.inp m).memRspValid = true
  /-- The store at the head of the miss queue is released, and stays so until it leaves. -/
  releases : ∀ n, (T.st n).memQEmpty = false → (T.st n).tMemHead.isStore = true →
    ∃ m ≥ n, ∀ k ≥ m, (∀ j ≥ n, j < k → ((T.st j).ctl (T.inp j)).tPopMq = false) →
      (T.st k).Released (T.inp k)

/-! ### The lock of an eviction -/

/-- The cache stays locked from an eviction to the reload behind it. -/
structure LockInv (s : L1d) : Prop where
  lock : s.rLockCache = true → s.rState = .injectReload ∨ s.rState = .handleReload ∨
    (s.rGotReq = true ∧ s.rDidReload = true)
  noAck : s.rState = .handleReload → s.rLockCache = true → s.rAckLdEarly = false

/-- A request behind an eviction misses without a dirty line in the way. -/
theorem ReqInv.locked_miss (h : s.ReqInv) (hk : s.LockInv) (hs : s.rState = .active)
    (hl : s.rLockCache = true) :
    s.rGotReq = true ∧ s.miss = true ∧ s.dirtyMiss = false := by
  obtain ⟨hg, hd⟩ : s.rGotReq = true ∧ s.rDidReload = true := by
    rcases hk.lock hl with h1 | h1 | h1
    · rw [hs] at h1; cases h1
    · rw [hs] at h1; cases h1
    · exact h1
  obtain ⟨-, hv, -⟩ := h.reload hg hd
  rw [hl, Bool.not_true] at hv
  exact ⟨hg, by simp [miss, hg, hitLine, hv], by simp [dirtyMiss, hv]⟩

theorem LockInv.step (hk : s.LockInv) (h : s.ReqInv) (hr : s.NoFlushRace) :
    (s.step i).LockInv := by
  have hst : (s.step i).rState = (s.ctl i).nState := rfl
  have hlk : (s.step i).rLockCache = (s.ctl i).nLockCache := rfl
  by_cases hs : s.rState = .active
  · have hc : s.ctl i = _ := (ctl_active hs).trans activeCtl_eq
    have hst' : (s.step i).rState = _ := h.nState_active (i := i) hs
    have hlk' : (s.step i).rLockCache = _ := congrArg L1dCtl.nLockCache hc
    dsimp only at hlk'
    refine ⟨fun hl => ?_, fun hh => ?_⟩
    · left
      have hm : s.miss = true := by
        by_contra hm
        have he : s.evicts = false := by simp [evicts, hm]
        have hf : s.refills = false := by simp [refills, hm]
        rw [hlk', he, hf] at hl
        exact hm (h.locked_miss hk hs hl).2.1
      obtain ⟨h1, h2⟩ := hr.of_miss (i := i) hs hm
      simp [hst', h1, h2, hm]
    · rw [hst'] at hh
      split_ifs at hh
  · obtain ⟨-, hinj, hhan, -⟩ := nState_reload (i := i) hs h.noWait
    by_cases hi : s.rState = .injectReload
    · have hc : s.ctl i = s.injectReloadCtl i := by rw [ctl, hi]
      rw [← hst] at hinj hhan
      constructor
      · intro _
        rw [hst, hc, injectReloadCtl]
        split_ifs <;> simp [dfltCtl, hi]
      · intro _ hl
        change (s.ctl i).tAckLdEarly = false
        rw [(ctl_nCoreMemRspValid hs).2]
        have : s.rLockCache = true := by
          rw [hlk, hc, injectReloadCtl] at hl
          split_ifs at hl <;> exact hl
        simp [this]
    · have hne : s.rState ≠ .handleReload → s.rLockCache = false := fun hh => by
        by_contra hl
        rcases hk.lock (Bool.not_eq_false _ |>.mp hl) with h1 | h1 | h1
        · exact hi h1
        · exact hh h1
        · exact hs (h.gotReq h1.1)
      have hlk' : (s.ctl i).nLockCache = s.rLockCache := by
        unfold ctl
        cases hq : s.rState <;>
          first | exact absurd hq hs | exact absurd hq hi | skip
        all_goals
          simp only [initCacheCtl, flushClCtl, flushClWaitCtl, flushCacheCtl,
            flushCacheLastWaitCtl, flushCacheWaitCtl, handleReloadCtl]
          (try split_ifs) <;> rfl
      rw [hlk'] at hlk
      by_cases hh : s.rState = .handleReload
      · have hc : s.ctl i = s.handleReloadCtl i := by rw [ctl, hh]
        constructor
        · intro hl
          right; right
          have ha := hk.noAck hh (hlk ▸ hl)
          have h1 : (s.step i).rGotReq = (s.rReq.isStore || !s.rAckLdEarly) :=
            congrArg L1dCtl.tGotReq hc
          exact ⟨by rw [h1, ha]; simp, congrArg L1dCtl.nDidReload hc⟩
        · intro he
          exact absurd (hhan he).1 hi
      · constructor
        · intro hl
          rw [hlk, hne hh] at hl
          cases hl
        · intro _ hl
          rw [hlk, hne hh] at hl
          cases hl

/-! ### Following the states of a trace -/

section Progress

variable {T : Trace l1dMachine}

theorem trace_next (T : Trace l1dMachine) (n : ℕ) :
    T.st (n + 1) = (T.st n).step (T.inp n) := T.next n

theorem trace_reqInv (T : Trace l1dMachine) (n : ℕ) : (T.st n).ReqInv :=
  reach_reqInv (T.reach (fun _ => trivial) n : l1dMachine.Reach (fun _ _ => True) _)

theorem trace_lockInv (hr : ∀ n, (T.st n).NoFlushRace) (n : ℕ) : (T.st n).LockInv := by
  induction n with
  | zero =>
      obtain ⟨p, hp⟩ := T.start
      rw [hp]
      exact ⟨fun h => absurd h Bool.false_ne_true, fun h => by cases h⟩
  | succ n ih => rw [trace_next]; exact ih.step (trace_reqInv T n) (hr n)

theorem exists_answer (hf : Fair T) {β : Type*} (v : L1d → β) {q : L1dState} (hw : Waiting q)
    (hv : ∀ s i, s.rState = q → i.memRspValid = false →
      (s.step i).rState = q ∧ v (s.step i) = v s) {n : ℕ} (hn : (T.st n).rState = q) :
    ∃ m ≥ n, ((T.st m).rState = q ∧ v (T.st m) = v (T.st n)) ∧ (T.inp m).memRspValid = true := by
  refine exists_of_stays (P := fun m => (T.st m).rState = q ∧ v (T.st m) = v (T.st n))
    ⟨hn, rfl⟩ ?_ (hf.answers n (hn ▸ hw))
  rintro k - ⟨h1, h2⟩ hk
  obtain ⟨h3, h4⟩ := hv _ (T.inp k) h1 (Bool.not_eq_true _ |>.mp hk)
  rw [trace_next]
  exact ⟨h3, h4.trans h2⟩

/-- The registers of port 1 that a reload keeps. -/
def reloadRegs (s : L1d) : MemReq × Bool := (s.rReq, s.rLockCache)

theorem inject_stays (s : L1d) (i : L1dIn) (hs : s.rState = .injectReload)
    (hm : i.memRspValid = false) :
    (s.step i).rState = .injectReload ∧ (s.step i).reloadRegs = s.reloadRegs := by
  have hc : s.ctl i = s.dfltCtl i := by rw [ctl, hs]; simp [injectReloadCtl, hm]
  exact ⟨(congrArg L1dCtl.nState hc).trans hs,
    congrArg₂ Prod.mk (congrArg L1dCtl.nReq hc) (congrArg L1dCtl.nLockCache hc)⟩

theorem exists_reload (hf : Fair T) {n : ℕ} (hn : (T.st n).rState = .injectReload) :
    ∃ m ≥ n, (T.st m).rState = .injectReload ∧ (T.inp m).memRspValid = true ∧
      (T.st m).reloadRegs = (T.st n).reloadRegs ∧
      (T.st (m + 1)).rState = .handleReload ∧
      (T.st (m + 1)).reloadRegs = (T.st n).reloadRegs ∧
      (T.st (m + 2)).rState = .active ∧ (T.st (m + 2)).reloadRegs = (T.st n).reloadRegs := by
  obtain ⟨m, hm, ⟨h1, h2⟩, h3⟩ := exists_answer hf reloadRegs (by trivial) inject_stays hn
  have hc : (T.st m).ctl (T.inp m) = (T.st m).injectReloadCtl (T.inp m) := by rw [ctl, h1]
  have h4 : (T.st (m + 1)).rState = .handleReload := by
    rw [trace_next]
    refine (congrArg L1dCtl.nState hc).trans ?_
    rw [injectReloadCtl, h3, if_pos rfl]
    split_ifs <;> rfl
  have h5 : (T.st (m + 1)).reloadRegs = (T.st m).reloadRegs := by
    rw [trace_next]
    refine congrArg₂ Prod.mk ((congrArg L1dCtl.nReq hc).trans ?_)
      ((congrArg L1dCtl.nLockCache hc).trans ?_)
    all_goals
      rw [injectReloadCtl]
      split_ifs <;> rfl
  have hc' : (T.st (m + 1)).ctl (T.inp (m + 1)) = (T.st (m + 1)).handleReloadCtl (T.inp (m + 1)) := by
    rw [ctl, h4]
  refine ⟨m, hm, h1, h3, h2, h4, h5.trans h2, ?_, ?_⟩
  · rw [trace_next T (m + 1)]
    exact congrArg L1dCtl.nState hc'
  · rw [← h2, ← h5, trace_next T (m + 1)]
    exact congrArg₂ Prod.mk (congrArg L1dCtl.nReq hc') (congrArg L1dCtl.nLockCache hc')

/-! ### Back to ACTIVE -/

/-- The set a walk over the cache is at, counted down. -/
def walkRank (s : L1d) : ℕ :=
  2 * (4095 - s.rCacheIdx.toNat) + if s.rState = .flushCacheWait then 1 else 0

theorem walk_succ {a : SetIdx} (h : a ≠ 4095) : (a + 1).toNat = a.toNat + 1 := by
  bv_omega

theorem flushCacheWait_stays (s : L1d) (i : L1dIn) (hs : s.rState = .flushCacheWait)
    (hm : i.memRspValid = false) :
    (s.step i).rState = .flushCacheWait ∧ (s.step i).rCacheIdx = s.rCacheIdx := by
  have hc : s.ctl i = { s.dfltCtl i with tCacheIdx := s.rCacheIdx } := by
    rw [ctl, hs]
    simp [flushCacheWaitCtl, hm]
  exact ⟨(congrArg L1dCtl.nState hc).trans hs, congrArg L1dCtl.tCacheIdx hc⟩

theorem wait_stays {q : L1dState} (hq : q = .flushClWait ∨ q = .flushCacheLastWait) (s : L1d)
    (i : L1dIn) (hs : s.rState = q) (hm : i.memRspValid = false) :
    (s.step i).rState = q ∧ () = () := by
  refine ⟨?_, rfl⟩
  rcases hq with rfl | rfl
  · have hc : s.ctl i = s.dfltCtl i := by rw [ctl, hs]; simp [flushClWaitCtl, hm]
    exact (congrArg L1dCtl.nState hc).trans hs
  · have hc : s.ctl i = { s.dfltCtl i with tCacheIdx := s.rCacheIdx } := by
      rw [ctl, hs]
      simp [flushCacheLastWaitCtl, hm]
    exact (congrArg L1dCtl.nState hc).trans hs

theorem wait_active (hf : Fair T) {q : L1dState}
    (hq : q = .flushClWait ∨ q = .flushCacheLastWait) {n : ℕ} (hn : (T.st n).rState = q) :
    ∃ m ≥ n, (T.st m).rState = .active := by
  have hw : Waiting q := by rcases hq with rfl | rfl <;> trivial
  obtain ⟨m, hm, ⟨h1, -⟩, h3⟩ := exists_answer hf (fun _ => ()) hw (wait_stays hq) hn
  refine ⟨m + 1, by omega, ?_⟩
  rw [trace_next]
  rcases hq with rfl | rfl
  · have hc : (T.st m).ctl (T.inp m) = (T.st m).flushClWaitCtl (T.inp m) := by rw [ctl, h1]
    refine (congrArg L1dCtl.nState hc).trans ?_
    rw [flushClWaitCtl, h3, if_pos rfl]
  · have hc : (T.st m).ctl (T.inp m) = (T.st m).flushCacheLastWaitCtl (T.inp m) := by rw [ctl, h1]
    refine (congrArg L1dCtl.nState hc).trans ?_
    rw [flushCacheLastWaitCtl, h3, if_pos rfl]

theorem flushCache_step (hs : s.rState = .flushCache) :
    (s.step i).rState = .active ∨ (s.step i).rState = .flushCacheLastWait ∨
      (((s.step i).rState = .flushCache ∨ (s.step i).rState = .flushCacheWait) ∧
        (s.step i).walkRank < s.walkRank) := by
  have hc : s.ctl i = s.flushCacheCtl i := by rw [ctl, hs]
  have h1 : (s.step i).rState = (s.flushCacheCtl i).nState := congrArg L1dCtl.nState hc
  have h2 : (s.step i).rCacheIdx = s.rCacheIdx + 1 := by
    refine (congrArg L1dCtl.tCacheIdx hc).trans ?_
    rw [flushCacheCtl]
    split_ifs <;> rfl
  by_cases hl : s.rCacheIdx = 4095
  · rw [h1, flushCacheCtl]
    cases s.rDirtyOut <;> simp [hl]
  · right; right
    have hlt := walk_succ hl
    have hlt' := s.rCacheIdx.isLt
    have hne : s.rCacheIdx.toNat ≠ 4095 := fun h => hl (by bv_omega)
    unfold walkRank
    cases hd : s.rDirtyOut
    · have h3 : (s.step i).rState = .flushCache := by
        rw [h1]
        simp only [flushCacheCtl, hd, hl, Bool.not_false, if_true, if_false, dfltCtl, hs]
      refine ⟨.inl h3, ?_⟩
      rw [h2, hlt, hs, h3]
      simp
      omega
    · have h3 : (s.step i).rState = .flushCacheWait := by
        rw [h1]
        simp only [flushCacheCtl, hd, hl, Bool.not_true, Bool.false_eq_true, if_false]
      refine ⟨.inr h3, ?_⟩
      rw [h2, hlt, hs, h3]
      simp
      omega

theorem initCache_step (hs : s.rState = .initCache) :
    (s.step i).rState = .active ∨ ((s.step i).rState = .initCache ∧
      (s.step i).walkRank < s.walkRank) := by
  have hc : s.ctl i = s.initCacheCtl i := by rw [ctl, hs]
  have h1 : (s.step i).rState = (s.initCacheCtl i).nState := congrArg L1dCtl.nState hc
  have h2 : (s.step i).rCacheIdx = s.rCacheIdx + 1 := by
    refine (congrArg L1dCtl.tCacheIdx hc).trans ?_
    rw [initCacheCtl]
    split_ifs <;> rfl
  by_cases hl : s.rCacheIdx = 4095
  · left
    rw [h1, initCacheCtl, if_pos hl]
  · right
    have hlt := walk_succ hl
    have hlt' := s.rCacheIdx.isLt
    have hne : s.rCacheIdx.toNat ≠ 4095 := fun h => hl (by bv_omega)
    unfold walkRank
    rw [h2, hlt, hs, h1, initCacheCtl, if_neg hl]
    simp [dfltCtl, hs]
    omega

theorem flush_active (hf : Fair T) {n : ℕ}
    (hn : (T.st n).rState = .flushCache ∨ (T.st n).rState = .flushCacheWait) :
    ∃ m ≥ n, (T.st m).rState = .active := by
  refine exists_of_decreasing (P := fun k => (T.st k).rState = .flushCache ∨
    (T.st k).rState = .flushCacheWait) (fun k => (T.st k).walkRank) ?_ hn
  rintro k (hk | hk)
  · rcases flushCache_step (i := T.inp k) hk with h | h | ⟨h, hlt⟩ <;> rw [← trace_next] at h
    · exact ⟨k + 1, by omega, .inl h⟩
    · obtain ⟨m, hm, h⟩ := wait_active hf (.inr rfl) h
      exact ⟨m, by omega, .inl h⟩
    · exact ⟨k + 1, by omega, .inr ⟨h, by rw [trace_next]; exact hlt⟩⟩
  · obtain ⟨m, hm, ⟨h1, h2⟩, h3⟩ :=
      exists_answer hf L1d.rCacheIdx (by trivial) flushCacheWait_stays hk
    have hc : (T.st m).ctl (T.inp m) = (T.st m).flushCacheWaitCtl (T.inp m) := by rw [ctl, h1]
    have h4 : (T.st (m + 1)).rState = .flushCache := by
      rw [trace_next]
      refine (congrArg L1dCtl.nState hc).trans ?_
      rw [flushCacheWaitCtl, h3, if_pos rfl]
    have h5 : (T.st (m + 1)).rCacheIdx = (T.st m).rCacheIdx := by
      rw [trace_next]
      refine (congrArg L1dCtl.tCacheIdx hc).trans ?_
      rw [flushCacheWaitCtl, h3, if_pos rfl]
    refine ⟨m + 1, by omega, .inr ⟨.inl h4, ?_⟩⟩
    simp [walkRank, h4, h5, h2, hk]

/-- **The cache always comes back to ACTIVE.** -/
theorem exists_active (hf : Fair T) (n : ℕ) : ∃ m ≥ n, (T.st m).rState = .active := by
  have hinit : ∀ n, (T.st n).rState = .initCache → ∃ m ≥ n, (T.st m).rState = .active := by
    refine fun n hn => exists_of_decreasing (P := fun k => (T.st k).rState = .initCache)
      (fun k => (T.st k).walkRank) (fun k hk => ⟨k + 1, by omega, ?_⟩) hn
    rw [trace_next]
    exact initCache_step hk
  cases hs : (T.st n).rState with
  | initialise =>
      have h1 : (T.st (n + 1)).rState = .initCache := by rw [trace_next, step, ctl, hs]
      obtain ⟨m, hm, h⟩ := hinit _ h1
      exact ⟨m, by omega, h⟩
  | initCache => exact hinit n hs
  | active => exact ⟨n, le_rfl, hs⟩
  | injectReload =>
      obtain ⟨m, hm, -, -, -, -, -, h, -⟩ := exists_reload hf hs
      exact ⟨m + 2, by omega, h⟩
  | waitInjectReload => exact absurd hs (trace_reqInv T n).noWait
  | flushCache => exact flush_active hf (.inl hs)
  | flushCacheWait => exact flush_active hf (.inr hs)
  | flushCacheLastWait => exact wait_active hf (.inr rfl) hs
  | flushCl =>
      by_cases hd : (T.st n).rDirtyOut = true
      · have h1 : (T.st (n + 1)).rState = .flushClWait := by
          rw [trace_next, step, ctl, hs]
          simp [flushClCtl, hd]
        obtain ⟨m, hm, h⟩ := wait_active hf (.inl rfl) h1
        exact ⟨m, by omega, h⟩
      · refine ⟨n + 1, by omega, ?_⟩
        rw [trace_next, step, ctl, hs]
        simp [flushClCtl, hd]
  | flushClWait => exact wait_active hf (.inl rfl) hs
  | handleReload =>
      refine ⟨n + 1, by omega, ?_⟩
      rw [trace_next, step, ctl, hs]
      rfl

/-! ### Port 1 -/

/-- A miss moves to INJECT_RELOAD, locked for an eviction and not for a reload. -/
theorem miss_injects (hr : ∀ n, (T.st n).NoFlushRace) {n : ℕ} (hs : (T.st n).rState = .active)
    (hm : (T.st n).miss = true) :
    (T.st (n + 1)).rState = .injectReload ∧
      (T.st (n + 1)).reloadRegs = ((T.st n).rReq, (T.st n).dirtyMiss) := by
  have h := trace_reqInv T n
  obtain ⟨h1, h2⟩ := (hr n).of_miss (i := T.inp n) hs hm
  have hc : (T.st n).ctl (T.inp n) = _ := (ctl_active hs).trans activeCtl_eq
  have hg : (T.st n).headGo = false := by simp [headGo, hm]
  have hgot : (T.st n).rGotReq = true := by
    simp only [miss, Bool.and_eq_true] at hm
    exact hm.1
  rw [trace_next]
  refine ⟨?_, congrArg₂ Prod.mk ((congrArg L1dCtl.nReq hc).trans ?_)
    ((congrArg L1dCtl.nLockCache hc).trans ?_)⟩
  · have hst : ((T.st n).step (T.inp n)).rState = _ := h.nState_active hs
    rw [hst]
    simp [h1, h2, hm]
  · simp [firesStore, firesLoad, hg]
  · rcases h.miss_starts hm with ⟨he, -⟩ | ⟨he, hf⟩
    · have hd : (T.st n).dirtyMiss = true := by
        simp only [evicts, Bool.and_eq_true] at he
        exact he.1.2
      simp [he, hd]
    · have hd : (T.st n).dirtyMiss = false := by
        simp only [refills, Bool.and_eq_true, Bool.not_eq_true'] at hf
        exact hf.1.2
      simp [he, hf, h.conflict hgot, hd]

theorem exists_refill (hf : Fair T) (hr : ∀ n, (T.st n).NoFlushRace) {n : ℕ}
    (hs : (T.st n).rState = .active) (hm : (T.st n).miss = true) :
    ∃ m ≥ n, (T.st m).rState = .injectReload ∧ (T.st m).reloadRegs = ((T.st n).rReq, false) := by
  obtain ⟨h1, h2⟩ := miss_injects hr hs hm
  cases hd : (T.st n).dirtyMiss
  · exact ⟨n + 1, by omega, h1, by rw [h2, hd]⟩
  · -- the eviction first; behind it the request misses again, without a dirty line
    obtain ⟨m, hm, -, -, -, -, -, h3, h4⟩ := exists_reload hf h1
    rw [h2, hd] at h4
    obtain ⟨h5, h6⟩ := Prod.mk.injEq .. ▸ h4
    obtain ⟨-, h7, h8⟩ := (trace_reqInv T (m + 2)).locked_miss (trace_lockInv hr _) h3 h6
    obtain ⟨h9, h10⟩ := miss_injects hr h3 h7
    exact ⟨m + 3, by omega, h9, by rw [h10, h5, h8]⟩

/-- **A load on port 1 is answered.** -/
theorem load_answered (hf : Fair T) (hr : ∀ n, (T.st n).NoFlushRace) {n : ℕ}
    (hs : (T.st n).rState = .active) (hg : (T.st n).rGotReq = true)
    (hl : (T.st n).rReq.isStore = false) :
    ∃ m ≥ n, (T.st n).rReq.ticket ∈ (T.st m).answered (T.inp m) := by
  cases hm : (T.st n).miss
  · refine ⟨n, le_rfl, ?_⟩
    have ha : (T.st n).answers1 = true := by
      simp only [miss, hg, Bool.true_and, Bool.not_eq_false'] at hm
      simp [answers1, hg, hm, hl]
    rw [answered_active (trace_reqInv T n) hs, ha]
    simp
  · obtain ⟨k, hk, h1, h2⟩ := exists_refill hf hr hs hm
    obtain ⟨m, hmk, h3, h4, h5, -⟩ := exists_reload hf h1
    rw [h2] at h5
    obtain ⟨h6, h7⟩ := Prod.mk.injEq .. ▸ h5
    refine ⟨m, by omega, ?_⟩
    have hc : (T.st m).ctl (T.inp m) = (T.st m).injectReloadCtl (T.inp m) := by rw [ctl, h3]
    have h8 : (!((T.st m).rReq.isStore || (T.st m).rLockCache)) = true := by rw [h6, h7, hl]; rfl
    unfold answered
    rw [hc, injectReloadCtl, h4, if_pos rfl]
    dsimp only
    rw [if_pos h8, ← h6]
    simp [MemRsp.ticket, MemReq.ticket]

/-- Port 1 does not miss forever. -/
theorem exists_noMiss (hf : Fair T) (hr : ∀ n, (T.st n).NoFlushRace) (n : ℕ) :
    ∃ m ≥ n, (T.st m).rState = .active ∧ (T.st m).miss = false := by
  obtain ⟨k, hk, hs⟩ := exists_active hf n
  cases hm : (T.st k).miss
  · exact ⟨k, hk, hs, hm⟩
  · obtain ⟨j, hj, h1, h2⟩ := exists_refill hf hr hs hm
    obtain ⟨m, hmj, h3, -, -, h4, -, h5, h6⟩ := exists_reload hf h1
    rw [h2] at h6
    refine ⟨m + 2, by omega, h5, ?_⟩
    by_contra hm'
    rw [Bool.not_eq_false] at hm'
    have hi := trace_reqInv T (m + 2)
    have hl : (T.st (m + 2)).rLockCache = false := (Prod.mk.injEq .. ▸ h6).2
    have hg : (T.st (m + 2)).rGotReq = true := by
      simp only [miss, Bool.and_eq_true] at hm'
      exact hm'.1
    have hd : (T.st (m + 2)).rDidReload = true := by
      rw [trace_next T (m + 1)]
      change ((T.st (m + 1)).ctl _).nDidReload = true
      rw [ctl_nDidReload, h4]
      rfl
    obtain ⟨-, hv, ht⟩ := hi.reload hg hd
    simp [miss, hg, hitLine, hv, hl, ht hl] at hm'

/-! ### The miss queue -/

/-- The head of the miss queue leaves in this cycle. -/
def pops (T : Trace l1dMachine) (n : ℕ) : Prop := ((T.st n).ctl (T.inp n)).tPopMq = true

theorem trace_mqView (T : Trace l1dMachine) (n : ℕ) :
    (T.st (n + 1)).mqView =
      (T.st n).mqView.drop ((T.st n).ctl (T.inp n)).tPopMq.toNat ++
        if ((T.st n).ctl (T.inp n)).tPushMiss then [(T.st n).rReq2] else [] := by
  rw [trace_next]
  exact mqView_step (trace_reqInv T n)

theorem mqView_ne_nil : s.mqView ≠ [] ↔ s.memQEmpty = false := by
  rw [memQEmpty, beq_eq_false_iff_ne, ← occ_pos_iff, ← List.length_pos_iff, mqView,
    contents_length]

theorem mqView_head (h : s.memQEmpty = false) : s.mqView[0]? = some s.tMemHead := by
  rw [memQEmpty, beq_eq_false_iff_ne] at h
  rw [mqView, contents_pop _ h]
  rfl

theorem pops_of_headGo {n : ℕ} (hs : (T.st n).rState = .active) (hg : (T.st n).headGo = true)
    (hrel : (T.st n).tMemHead.isStore = true → (T.st n).Released (T.inp n)) : pops T n := by
  have hc : (T.st n).ctl (T.inp n) = _ := (ctl_active hs).trans activeCtl_eq
  refine (congrArg L1dCtl.tPopMq hc).trans ?_
  unfold fires firesStore firesLoad dropsStore
  rw [hg]
  dsimp only
  cases hi : (T.st n).tMemHead.isStore
  · simp
  · cases hr : (T.st n).storeReady (T.inp n)
    · rcases hrel hi with h | ⟨h1, h2⟩
      · rw [hr] at h
        cases h
      · simp [h1, h2]
    · simp

/-- **The miss queue moves.** -/
theorem exists_pop (hf : Fair T) (hr : ∀ n, (T.st n).NoFlushRace) {n : ℕ}
    (hq : (T.st n).memQEmpty = false) : ∃ m ≥ n, pops T m := by
  by_contra hno
  have hno : ∀ m ≥ n, ((T.st m).ctl (T.inp m)).tPopMq = false := fun m hm =>
    Bool.eq_false_iff.mpr fun h => hno ⟨m, hm, h⟩
  -- nothing leaves, so the head stays
  have hview : ∀ d, (T.st (n + d)).mqView[0]? = some (T.st n).tMemHead := fun d => by
    induction d with
    | zero => exact mqView_head hq
    | succ d ih =>
        rw [← Nat.add_assoc, trace_mqView, hno _ (Nat.le_add_right _ _), Bool.toNat_false,
          List.drop_zero, List.getElem?_append_left, ih]
        by_contra hlt
        rw [List.getElem?_eq_none (Nat.not_lt.mp hlt)] at ih
        cases ih
  have hstay : ∀ m ≥ n, (T.st m).memQEmpty = false ∧ (T.st m).tMemHead = (T.st n).tMemHead := by
    intro m hm
    have hv := hview (m - n)
    rw [Nat.add_sub_cancel' hm] at hv
    have he : (T.st m).memQEmpty = false := mqView_ne_nil.mp fun h => by
      rw [h] at hv
      cases hv
    rw [mqView_head he, Option.some.injEq] at hv
    exact ⟨he, hv⟩
  obtain ⟨m₀, hm₀, hrel⟩ : ∃ m ≥ n, ∀ k ≥ m, (T.st k).tMemHead.isStore = true →
      (T.st k).Released (T.inp k) := by
    cases hst : (T.st n).tMemHead.isStore
    · refine ⟨n, le_rfl, fun k hk h => ?_⟩
      rw [(hstay k hk).2, hst] at h
      cases h
    · obtain ⟨m, hm, h⟩ := hf.releases n hq hst
      exact ⟨m, hm, fun k hk _ => h k hk fun j hj _ => hno j hj⟩
  obtain ⟨k, hk, hs, hm⟩ := exists_noMiss hf hr m₀
  have hkn : k ≥ n := by omega
  have hlk : (T.st k).rLockCache = false := by
    by_contra hl
    have := ((trace_reqInv T k).locked_miss (trace_lockInv hr k) hs
      (Bool.not_eq_false _ |>.mp hl)).2.1
    rw [hm] at this
    cases this
  have hnp : ∀ j ≥ m₀, (T.st j).rState = .active → (T.st j).headGo = false := fun j hj hs =>
    Bool.eq_false_iff.mpr fun hg => by
      have := pops_of_headGo hs hg (hrel j hj)
      rw [pops, hno j (by omega)] at this
      cases this
  -- only a store written in this cycle can be in the way, and it is gone in the next one
  have hmh := hnp k hk hs
  have hst1 : (T.st (k + 1)).rState = .active := by
    rw [trace_next]
    have hst : ((T.st k).step (T.inp k)).rState = _ := (trace_reqInv T k).nState_active hs
    rw [hst]
    simp [startsFlush, startsFlushCl, flushable, (hstay k hkn).1, hm]
  have hg1 : (T.st (k + 1)).rGotReq = false := by
    rw [trace_next]
    change ((T.st k).ctl _).tGotReq = false
    rw [ctl_tGotReq, hs]
    simp [fires, firesStore, firesLoad, hmh]
  have hlk1 : (T.st (k + 1)).rLockCache = false := by
    by_contra hl
    have := ((trace_reqInv T (k + 1)).locked_miss (trace_lockInv hr _) hst1
      (Bool.not_eq_false _ |>.mp hl)).1
    rw [hg1] at this
    cases this
  have := hnp (k + 1) (by omega) hst1
  simp [headGo, (hstay (k + 1) (by omega)).1, miss, hg1, hlk1, tMhBlock] at this

/-- Every request of the miss queue gets to its head and leaves. -/
theorem exists_pop_at (hf : Fair T) (hr : ∀ n, (T.st n).NoFlushRace) {r : MemReq} (k : ℕ) :
    ∀ {n : ℕ}, (T.st n).mqView[k]? = some r →
      ∃ m ≥ n, (T.st m).memQEmpty = false ∧ (T.st m).tMemHead = r ∧ pops T m := by
  induction k with
  | zero =>
      intro n hn
      have hne : ∀ m, (T.st m).mqView[0]? = some r → (T.st m).memQEmpty = false := fun m h =>
        mqView_ne_nil.mp fun h' => by rw [h'] at h; cases h
      obtain ⟨m, hm, h1, h2⟩ := exists_of_stays (P := fun m => (T.st m).mqView[0]? = some r) hn
        (fun m _ h1 h2 => by
          rw [trace_mqView, Bool.not_eq_true _ |>.mp h2, Bool.toNat_false, List.drop_zero,
            List.getElem?_append_left, h1]
          by_contra hlt
          rw [List.getElem?_eq_none (Nat.not_lt.mp hlt)] at h1
          cases h1) (exists_pop hf hr (hne n hn))
      have he := hne m h1
      rw [mqView_head he, Option.some.injEq] at h1
      exact ⟨m, hm, he, h1, h2⟩
  | succ k ih =>
      intro n hn
      have hq : (T.st n).memQEmpty = false := mqView_ne_nil.mp fun h' => by
        rw [h'] at hn
        cases hn
      obtain ⟨m, hm, h1, h2⟩ := exists_of_stays (P := fun m => (T.st m).mqView[k + 1]? = some r)
        hn (fun m _ h1 h2 => by
          rw [trace_mqView, Bool.not_eq_true _ |>.mp h2, Bool.toNat_false, List.drop_zero,
            List.getElem?_append_left, h1]
          by_contra hlt
          rw [List.getElem?_eq_none (Nat.not_lt.mp hlt)] at h1
          cases h1) (exists_pop hf hr hq)
      have h3 : (T.st (m + 1)).mqView[k]? = some r := by
        rw [trace_mqView, h2, Bool.toNat_true, List.getElem?_append_left, List.getElem?_drop,
          Nat.add_comm, h1]
        by_contra hlt
        rw [List.length_drop, Nat.not_lt] at hlt
        rw [List.getElem?_eq_none (by omega)] at h1
        cases h1
      obtain ⟨m', hm', h⟩ := ih h3
      exact ⟨m', by omega, h⟩

/-- **Every accepted request is answered.** -/
theorem accepted_answered (hf : Fair T) (hr : ∀ n, (T.st n).NoFlushRace) {n : ℕ} {τ : Ticket}
    (ha : τ ∈ (T.st n).accepted (T.inp n)) :
    ∃ m > n, τ ∈ (T.st m).answered (T.inp m) := by
  have hack : ((T.st n).ctl (T.inp n)).coreMemReqAck = true ∧
      τ = (T.inp n).coreMemReq.ticket := by
    unfold accepted at ha
    split_ifs at ha with h
    · exact ⟨h, Multiset.mem_singleton.mp ha⟩
    · cases ha
  obtain ⟨hack, rfl⟩ := hack
  have hs : (T.st n).rState = .active := by
    by_contra hs
    rw [(quiet hs).coreMemReqAck] at hack
    cases hack
  have hc : (T.st n).ctl (T.inp n) = _ := (ctl_active hs).trans activeCtl_eq
  have hacc : (T.st n).accepts (T.inp n) = true :=
    (congrArg L1dCtl.coreMemReqAck hc).symm.trans hack
  -- on port 2
  have hg2 : (T.st (n + 1)).rGotReq2 = true := by
    rw [trace_next]
    exact (congrArg L1dCtl.tGotReq2 hc).trans hacc
  have hr2 : (T.st (n + 1)).rReq2 = (T.inp n).coreMemReq := by
    rw [trace_next]
    exact (congrArg L1dCtl.nReq2 hc).trans (if_pos hacc)
  have hi := trace_reqInv T (n + 1)
  have hs1 := hi.gotReq2 hg2
  cases h2 : (T.st (n + 1)).answers2 (T.inp (n + 1))
  · -- a load that goes to the miss queue
    have hp : (T.st (n + 1)).pushes (T.inp (n + 1)) = true ∧
        (T.st (n + 1)).rReq2.isStore = false := by
      simpa [answers2, hg2] using h2
    have hc1 : (T.st (n + 1)).ctl (T.inp (n + 1)) = _ := (ctl_active hs1).trans activeCtl_eq
    have hpush : ((T.st (n + 1)).ctl (T.inp (n + 1))).tPushMiss = true :=
      (congrArg L1dCtl.tPushMiss hc1).trans hp.1
    have hv := trace_mqView T (n + 1)
    rw [hpush, if_pos rfl] at hv
    have hk : (T.st (n + 1 + 1)).mqView[((T.st (n + 1)).mqView.drop
        ((T.st (n + 1)).ctl (T.inp (n + 1))).tPopMq.toNat).length]? =
        some (T.st (n + 1)).rReq2 := by
      rw [hv]
      simp
    obtain ⟨m, hm, -, h3, h4⟩ := exists_pop_at hf hr _ hk
    -- onto port 1
    have hsm : (T.st m).rState = .active := by
      by_contra hsm
      rw [pops, (quiet hsm).tPopMq] at h4
      cases h4
    have hcm : (T.st m).ctl (T.inp m) = _ := (ctl_active hsm).trans activeCtl_eq
    have hst : (T.st m).tMemHead.isStore = false := by rw [h3]; exact hp.2
    have hfl : (T.st m).firesLoad = true ∧ (T.st m).firesStore (T.inp m) = false := by
      have h4 : ((T.st m).fires (T.inp m) || (T.st m).dropsStore (T.inp m)) = true :=
        (congrArg L1dCtl.tPopMq hcm).symm.trans h4
      simpa [fires, firesStore, firesLoad, dropsStore, hst] using h4
    have hg1 : (T.st (m + 1)).rGotReq = true := by
      rw [trace_next]
      refine (congrArg L1dCtl.tGotReq hcm).trans ?_
      simp [fires, hfl]
    have hreq : (T.st (m + 1)).rReq = (T.inp n).coreMemReq := by
      rw [trace_next]
      refine (congrArg L1dCtl.nReq hcm).trans ?_
      simp [hfl, h3, hr2]
    have hl : (T.st (m + 1)).rReq.isStore = false := by rw [hreq, ← hr2]; exact hp.2
    obtain ⟨q, hq, h⟩ := load_answered hf hr ((trace_reqInv T (m + 1)).gotReq hg1) hg1 hl
    rw [hreq] at h
    exact ⟨q, by omega, h⟩
  · refine ⟨n + 1, by omega, ?_⟩
    rw [answered_active hi hs1, h2, hr2]
    simp

end Progress

/-! ### The result -/

/-- The tickets accepted before time `n`. -/
def acceptedUntil (T : Trace l1dMachine) (n : ℕ) : Multiset Ticket :=
  ∑ k ∈ Finset.range n, (T.st k).accepted (T.inp k)

/-- The tickets answered before time `n`. -/
def answeredUntil (T : Trace l1dMachine) (n : ℕ) : Multiset Ticket :=
  ∑ k ∈ Finset.range n, (T.st k).answered (T.inp k)

theorem balance_until (T : Trace l1dMachine) {n : ℕ} (hr : ∀ k < n, (T.st k).NoFlushRace) :
    acceptedUntil T n = answeredUntil T n + (T.st n).pending := by
  unfold acceptedUntil answeredUntil
  induction n with
  | zero =>
      obtain ⟨p, hp⟩ := T.start
      simp [hp, init_pending]
  | succ n ih =>
      have hn := pending_step (i := T.inp n) (trace_reqInv T n) (hr n (Nat.lt_succ_self n))
      rw [Finset.sum_range_succ, Finset.sum_range_succ, trace_next,
        ih fun k hk => hr k (hk.trans (Nat.lt_succ_self n)), add_assoc, ← hn]
      abel

/-- **Every request is answered exactly once**, as long as no flush races with a missing load.
Until then the requests accepted are those answered together with those the cache still holds,
and a cycle breaks this, or lets a flush override a reload or an eviction, exactly when it is
such a race.  Without a race and in fair surroundings each accepted request is answered. -/
theorem answered_once (T : Trace l1dMachine) :
    (∀ n, (∀ k < n, (T.st k).NoFlushRace) →
      acceptedUntil T n = answeredUntil T n + (T.st n).pending ∧
        ((T.st n).Accounts (T.inp n) ↔ (T.st n).NoFlushRace)) ∧
    (Fair T → (∀ n, (T.st n).NoFlushRace) →
      ∀ n τ, τ ∈ (T.st n).accepted (T.inp n) → ∃ m > n, τ ∈ (T.st m).answered (T.inp m)) :=
  ⟨fun n hr => ⟨balance_until T hr, accounts_iff (trace_reqInv T n)⟩,
    fun hf hr _ _ ha => accepted_answered hf hr ha⟩

/-! ### A load that misses

It is put into the miss queue, moves on to port 1, reloads its line and is answered with it. -/

/-- A load from address 0 for slot 1 and register 40. -/
def loadRequest : MemReq :=
  { MemReq.zero with op := .lw, isLoad := true, robPtr := 1, dstPtr := 40, dstValid := true }

/-- The load arrives in the first cycle of ACTIVE; the next level answers from the ninth on. -/
def loadInputs (n : ℕ) : L1dIn :=
  if n = 4097 then { L1dIn.idle with coreMemReqValid := true, coreMemReq := loadRequest }
  else if 4105 ≤ n then { L1dIn.idle with memRspValid := true }
  else L1dIn.idle

def loadTrace : Trace l1dMachine :=
  .ofInputs l1dMachine (s := init L1dPowerUp.zero) ⟨_, rfl⟩ loadInputs

theorem loadInputs_quiet (n : ℕ) : (loadInputs n).flushReq = false ∧
    (loadInputs n).flushClReq = false ∧ (n ≠ 4097 → (loadInputs n).coreMemReqValid = false) := by
  unfold loadInputs
  by_cases hn : n = 4097
  · rw [if_pos hn]
    exact ⟨rfl, rfl, fun h => absurd hn h⟩
  · rw [if_neg hn]
    split_ifs <;> exact ⟨rfl, rfl, fun _ => rfl⟩

theorem loadTrace_walking {k : ℕ} (hk : k ≤ 4095) :
    ∃ b, loadTrace.st (k + 1) = walking (BitVec.ofNat 12 k) b := by
  have hidle : ∀ n < 4097, loadTrace.inp n = L1dIn.idle := fun n hn =>
    (if_neg hn.ne).trans (if_neg (by omega))
  induction k with
  | zero =>
      refine ⟨0, (trace_next loadTrace 0).trans ?_⟩
      rw [hidle 0 (by omega)]
      exact step_initial
  | succ k ih =>
      obtain ⟨b, hb⟩ := ih (by omega)
      refine ⟨BitVec.ofNat 12 k, ?_⟩
      rw [trace_next, hb, hidle (k + 1) (by omega)]
      exact walk_next hk b

theorem loadTrace_ready : loadTrace.st 4097 = ready := by
  obtain ⟨b, hb⟩ := loadTrace_walking (k := 4095) le_rfl
  have hi : loadInputs 4096 = L1dIn.idle := (if_neg (by omega)).trans (if_neg (by omega))
  rw [trace_next loadTrace 4096, hb]
  change (walking (BitVec.ofNat 12 4095) b).step (loadInputs 4096) = ready
  rw [hi]
  exact step_walking_last b

/-- The states from the first cycle of ACTIVE on. -/
def loading : ℕ → L1d
  | 0 => ready
  | k + 1 => (loading k).step (loadInputs (4097 + k))

theorem loadTrace_loading (k : ℕ) : loadTrace.st (4097 + k) = loading k := by
  induction k with
  | zero => exact loadTrace_ready
  | succ k ih =>
      rw [← Nat.add_assoc, trace_next, ih]
      rfl

/-- The cache holds no request, and no flush is pending. -/
structure Undisturbed (s : L1d) : Prop where
  state : s.rState = .initialise ∨ s.rState = .initCache ∨ s.rState = .active
  empty : s.memQEmpty = true
  gotReq : s.rGotReq = false
  gotReq2 : s.rGotReq2 = false
  flush : s.rFlushReq = false ∧ s.rFlushClReq = false

theorem Undisturbed.step (h : s.Undisturbed) (hf : i.flushReq = false ∧ i.flushClReq = false)
    (hn : i.coreMemReqValid = false) : (s.step i).Undisturbed := by
  have hng : s.headGo = false := by simp [headGo, h.empty]
  have hm : s.miss = false := by simp [miss, h.gotReq]
  have hq : (s.ctl i).tPopMq = false ∧ (s.ctl i).tPushMiss = false ∧ (s.ctl i).tGotReq = false ∧
      (s.ctl i).tGotReq2 = false ∧
      ((s.ctl i).nState = .initialise ∨ (s.ctl i).nState = .initCache ∨
        (s.ctl i).nState = .active) ∧
      (s.ctl i).nFlushReq = false ∧ (s.ctl i).nFlushClReq = false := by
    rcases h.state with hs | hs | hs
    · have hc : s.ctl i = { s.dfltCtl i with nState := .initCache } := by rw [ctl, hs]
      simp [hc, dfltCtl, h.flush, hf]
    · have hc : s.ctl i = s.initCacheCtl i := by rw [ctl, hs]
      simp only [hc, initCacheCtl]
      split_ifs <;> simp [dfltCtl, h.flush, hf, hs]
    · have hc : s.ctl i = _ := (ctl_active hs).trans activeCtl_eq
      have he : s.evicts = false ∧ s.refills = false := by simp [evicts, refills, hm]
      have hacc : s.accepts i = false := by simp [accepts, hn]
      simp only [hc]
      refine ⟨by simp [fires, firesStore, firesLoad, dropsStore, hng], by simp [pushes, h.gotReq2],
        by simp [fires, firesStore, firesLoad, hng], hacc, ?_, ?_, ?_⟩
      · simp [startsFlush, startsFlushCl, h.flush, he, hs]
      · simp [h.flush, hf]
      · simp [h.flush, hf]
  obtain ⟨hpop, hpush, hgot, hgot2, hst, hfl⟩ := hq
  refine ⟨hst, ?_, hgot, hgot2, hfl⟩
  have he := h.empty
  rw [memQEmpty, step_mqPtrs.1, step_mqPtrs.2, hpop, hpush]
  simpa [memQEmpty] using he

theorem loadTrace_before {n : ℕ} (hn : n ≤ 4097) : (loadTrace.st n).Undisturbed := by
  induction n with
  | zero => exact ⟨.inl rfl, rfl, rfl, rfl, rfl, rfl⟩
  | succ n ih =>
      obtain ⟨hf, hcl, hreq⟩ := loadInputs_quiet n
      rw [trace_next]
      exact (ih (by omega)).step ⟨hf, hcl⟩ (hreq (by omega))

theorem loading_after (k : ℕ) : (loading (10 + k)).Undisturbed := by
  induction k with
  | zero =>
      exact ⟨.inr (.inr (by decide +kernel)), by decide +kernel, by decide +kernel,
        by decide +kernel, by decide +kernel⟩
  | succ k ih =>
      obtain ⟨hf, hcl, hreq⟩ := loadInputs_quiet (4097 + (10 + k))
      exact ih.step ⟨hf, hcl⟩ (hreq (by omega))

theorem loadTrace_quiet (n : ℕ) :
    ((loadTrace.st n).rFlushReq = false ∧ (loadTrace.st n).rFlushClReq = false) ∧
      ((loadTrace.st n).memQEmpty = false → (loadTrace.st n).tMemHead.isStore = false) := by
  have hidle : ∀ {s : L1d}, s.Undisturbed → (s.rFlushReq = false ∧ s.rFlushClReq = false) ∧
      (s.memQEmpty = false → s.tMemHead.isStore = false) := fun h =>
    ⟨h.flush, fun he => absurd (he.symm.trans h.empty) Bool.false_ne_true⟩
  obtain hn | hn := le_or_gt n 4097
  · exact hidle (loadTrace_before hn)
  obtain ⟨k, rfl⟩ := Nat.exists_eq_add_of_lt hn
  rw [Nat.add_assoc, loadTrace_loading]
  obtain hk | hk := lt_or_ge (k + 1) 10
  · have h10 : ∀ j < 10, ((loading j).rFlushReq = false ∧ (loading j).rFlushClReq = false) ∧
        ((loading j).memQEmpty = false → (loading j).tMemHead.isStore = false) := by
      decide +kernel
    exact h10 _ hk
  · obtain ⟨j, hj⟩ := Nat.exists_eq_add_of_le hk
    rw [hj]
    exact hidle (loading_after j)

/-- While the load waits for its line it is accepted and not answered; it is answered later. -/
theorem answered_once_load :
    acceptedUntil loadTrace 4102 = answeredUntil loadTrace 4102 + {loadRequest.ticket} ∧
    ∃ m > 4097, loadRequest.ticket ∈ (loadTrace.st m).answered (loadTrace.inp m) := by
  have hrace : ∀ n, (loadTrace.st n).NoFlushRace := fun n _ _ _ _ => (loadTrace_quiet n).1
  have hfair : Fair loadTrace := by
    refine ⟨fun n _ => ⟨max n 4105, le_max_left .., ?_⟩, fun n he hs => ?_⟩
    · change (loadInputs (max n 4105)).memRspValid = true
      rw [loadInputs, if_neg (by omega), if_pos (le_max_right ..)]
    · exact absurd (hs.symm.trans ((loadTrace_quiet n).2 he)) (by decide)
  obtain ⟨hall, hprog⟩ := answered_once loadTrace
  refine ⟨?_, hprog hfair hrace 4097 _ ?_⟩
  · have hp : (loadTrace.st 4102).pending = {loadRequest.ticket} := by
      rw [loadTrace_loading 5]
      decide +kernel
    rw [← hp]
    exact (hall 4102 fun k _ => hrace k).1
  · rw [loadTrace_ready]
    change loadRequest.ticket ∈ ready.accepted (loadInputs 4097)
    decide +kernel

/-! ### A load that is forgotten -/

/-- The load is accepted and misses on port 2, `flush_req` is raised while it leaves the miss
queue. -/
def raceInputs : List L1dIn :=
  [{ L1dIn.idle with coreMemReqValid := true, coreMemReq := loadRequest }, L1dIn.idle,
   { L1dIn.idle with flushReq := true }]

/-- Then the flush overrides the reload, and nothing holds the load any more. -/
theorem load_forgotten :
    ¬∀ s, l1dMachine.Reach (fun _ _ => True) s → ∀ i, s.Accounts i := fun h => by
  have hready : l1dMachine.Reach (fun _ _ => True) ready := reach_ready fun _ _ => trivial
  have hrun : l1dMachine.Allowed (fun _ _ => True) ready raceInputs :=
    ⟨trivial, trivial, trivial, trivial⟩
  exact (h _ (hready.run hrun) L1dIn.idle).2
    ⟨⟨by decide +kernel, .inl (by decide +kernel)⟩, by decide +kernel⟩

end L1d
end Rv32Core
