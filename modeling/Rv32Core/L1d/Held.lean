import Rv32Core.L1d.Outstanding

/-! # The requests the data cache holds

A pending ticket belongs to a request: the one on port 2, a load of the miss queue, or the load on
port 1.  A cycle only adds the request it accepts, and an answer carries the registers of a request
held, with its destination valid exactly when the request's is. -/

namespace Rv32Core

open RingBuffer

namespace L1d

variable {s : L1d} {i : L1dIn} {r : MemReq}

/-- The request is accepted and not yet answered. -/
def Holds (s : L1d) (r : MemReq) : Prop :=
  (s.rGotReq2 = true ∧ r = s.rReq2) ∨ (r ∈ s.mqView ∧ r.isStore = false) ∨
    (s.holdsLoad = true ∧ r = s.rReq)

theorem Holds.pending (h : s.Holds r) : r.ticket ∈ s.pending := by
  unfold L1d.pending
  obtain ⟨hg, rfl⟩ | ⟨hm, hst⟩ | ⟨hl, rfl⟩ := h
  · rw [hg, if_pos rfl]
    exact Multiset.mem_add.mpr (.inl (Multiset.mem_add.mpr (.inl (Multiset.mem_singleton_self _))))
  · refine Multiset.mem_add.mpr (.inl (Multiset.mem_add.mpr (.inr ?_)))
    refine Multiset.mem_coe.mpr (List.mem_map_of_mem (List.mem_filter.mpr ⟨hm, ?_⟩))
    rw [hst]
    rfl
  · rw [hl, if_pos rfl]
    exact Multiset.mem_add.mpr (.inr (Multiset.mem_singleton_self _))

theorem holdsLoad_load (h : s.holdsLoad = true) : s.rReq.isStore = false := by
  rw [holdsLoad, Bool.and_eq_true, Bool.not_eq_true'] at h
  exact h.1

theorem tMemHead_mem (h : s.headGo = true) : s.tMemHead ∈ s.mqView := by
  rw [mqView_cons h]
  exact List.mem_cons_self

/-- The load on port 1 after a cycle was there before it, or heads the miss queue. -/
theorem holdsLoad_step (h : s.ReqInv) (hl : (s.step i).holdsLoad = true) :
    (s.holdsLoad = true ∧ (s.step i).rReq = s.rReq) ∨
      (s.tMemHead ∈ s.mqView ∧ s.tMemHead.isStore = false ∧ (s.step i).rReq = s.tMemHead) := by
  have hst := holdsLoad_load hl
  by_cases hs : s.rState = .active
  · have hc : s.ctl i = _ := (ctl_active hs).trans activeCtl_eq
    have hreq : (s.step i).rReq = _ := congrArg L1dCtl.nReq hc
    have hgot : (s.step i).rGotReq = s.fires i := congrArg L1dCtl.tGotReq hc
    have hnext : (s.step i).rState = _ := h.nState_active (i := i) hs
    dsimp only at hreq
    by_cases hf : s.fires i = true
    · have hgo := fires_headGo hf
      have hno : s.firesStore i = false := Bool.eq_false_iff.mpr fun hfs => by
        rw [hreq, if_pos hfs] at hst
        have hfs' := hfs
        simp only [firesStore, Bool.and_eq_true] at hfs'
        rw [show ({ s.tMemHead with data := i.coreStoreData.data } : MemReq).isStore =
          s.tMemHead.isStore from rfl, hfs'.2.1] at hst
        cases hst
      have hload : s.firesLoad = true := by
        rw [fires, hno, Bool.false_or] at hf
        exact hf
      rw [hno, hload, if_neg Bool.false_ne_true, if_pos rfl] at hreq
      exact .inr ⟨tMemHead_mem hgo, hreq ▸ hst, hreq⟩
    · rw [Bool.not_eq_true] at hf
      have hf' := hf
      rw [fires, Bool.or_eq_false_iff] at hf'
      rw [hf'.1, hf'.2, if_neg Bool.false_ne_true, if_neg Bool.false_ne_true] at hreq
      refine .inl ⟨?_, hreq⟩
      rw [hreq] at hst
      rw [holdsLoad, hnext, hgot, hf, hreq, hst] at hl
      have hmiss : s.miss = true := by
        by_contra hm
        rw [Bool.not_eq_true] at hm
        rw [hm] at hl
        revert hl
        cases s.startsFlush i <;> cases s.startsFlushCl i <;> simp
      simp only [miss, Bool.and_eq_true] at hmiss
      rw [holdsLoad, hs, hst, hmiss.1]
      rfl
  · have hreq : (s.step i).rReq = s.rReq := (quiet hs).nReq
    refine .inl ⟨?_, hreq⟩
    have hb := balance_other (i := i) h hs
    rw [hl, if_pos rfl] at hb
    by_contra hn
    rw [if_neg hn] at hb
    have hc := congrArg Multiset.card hb
    rw [Multiset.card_add, Multiset.card_singleton, Multiset.card_zero] at hc
    omega

/-- **What is held after a cycle** was held before or is accepted in it. -/
theorem holds_step (h : s.ReqInv) (hr : (s.step i).Holds r) :
    s.Holds r ∨ ((s.ctl i).coreMemReqAck = true ∧ r = i.coreMemReq) := by
  obtain ⟨hg, rfl⟩ | ⟨hm, hst⟩ | ⟨hl, rfl⟩ := hr
  · have hgot : (s.step i).rGotReq2 = (s.ctl i).tGotReq2 := rfl
    have hs : s.rState = .active := by
      by_contra hs
      rw [hgot, (quiet hs).tGotReq2] at hg
      cases hg
    have hc : s.ctl i = _ := (ctl_active hs).trans activeCtl_eq
    have ha : (s.ctl i).tGotReq2 = s.accepts i := congrArg L1dCtl.tGotReq2 hc
    have hk : (s.ctl i).coreMemReqAck = s.accepts i := congrArg L1dCtl.coreMemReqAck hc
    have hn : (s.step i).rReq2 = if s.accepts i then i.coreMemReq else s.rReq2 :=
      congrArg L1dCtl.nReq2 hc
    rw [hgot, ha] at hg
    exact .inr ⟨hk.trans hg, by rw [hn, if_pos hg]⟩
  · rw [mqView_step h, List.mem_append] at hm
    obtain hm | hm := hm
    · exact .inl (.inr (.inl ⟨List.mem_of_mem_drop hm, hst⟩))
    · split_ifs at hm with hp
      · obtain rfl := List.mem_singleton.mp hm
        have hs : s.rState = .active := by
          by_contra hs
          rw [(quiet hs).tPushMiss] at hp
          cases hp
        have hc : s.ctl i = _ := (ctl_active hs).trans activeCtl_eq
        have hpush : (s.ctl i).tPushMiss = s.pushes i := congrArg L1dCtl.tPushMiss hc
        exact .inl (.inl ⟨pushes_gotReq2 (hpush ▸ hp), rfl⟩)
      · cases hm
  · obtain ⟨ho, he⟩ | ⟨hm, hst, he⟩ := holdsLoad_step h hl
    · rw [he]
      exact .inl (.inr (.inr ⟨ho, rfl⟩))
    · rw [he]
      exact .inl (.inr (.inl ⟨hm, hst⟩))

/-! ### Requests that access the cache -/

/-- No request without an access goes to the miss queue. -/
structure NoNop (s : L1d) : Prop where
  queue : ∀ r ∈ s.mqView, r.op ≠ .nop
  port1 : s.holdsLoad = true → s.rReq.op ≠ .nop

theorem NoNop.step (hn : s.NoNop) (h : s.ReqInv) : (s.step i).NoNop := by
  constructor
  · intro r hm
    rw [mqView_step h, List.mem_append] at hm
    obtain hm | hm := hm
    · exact hn.queue r (List.mem_of_mem_drop hm)
    · split_ifs at hm with hp
      · obtain rfl := List.mem_singleton.mp hm
        have hs : s.rState = .active := by
          by_contra hs
          rw [(quiet hs).tPushMiss] at hp
          cases hp
        have hc : s.ctl i = _ := (ctl_active hs).trans activeCtl_eq
        have hpush : (s.ctl i).tPushMiss = s.pushes i := congrArg L1dCtl.tPushMiss hc
        rw [hpush] at hp
        simp only [pushes, bypass2, Bool.and_eq_true, Bool.not_eq_true', Bool.or_eq_false_iff,
          beq_eq_false_iff_ne] at hp
        exact hp.1.2.2
      · cases hm
  · intro hl
    obtain ⟨ho, he⟩ | ⟨hm, -, he⟩ := holdsLoad_step h hl
    · exact he ▸ hn.port1 ho
    · exact he ▸ hn.queue _ hm

theorem init_noNop (p : L1dPowerUp) : (init p).NoNop := by
  have hm : (init p).mqView = [] := contents_self (init p).rMemQ _
  refine ⟨fun r hr => ?_, fun hl => ?_⟩
  · rw [hm] at hr
    cases hr
  · rw [holdsLoad, init, Bool.and_false] at hl
    cases hl

theorem reach_noNop {env : L1d → L1dIn → Prop} (h : l1dMachine.Reach env s) : s.NoNop := by
  have hx : s.ReqInv ∧ s.NoNop := by
    refine h.invariant (P := fun s => s.ReqInv ∧ s.NoNop) ?_ fun _ _ h _ => ⟨h.1.step, h.2.step h.1⟩
    rintro _ ⟨p, rfl⟩
    exact ⟨init_reqInv p, init_noNop p⟩
  exact hx.2

/-! ### Answers -/

theorem valid_of_dstValid (hd : (s.ctl i).nCoreMemRsp.dstValid = true) :
    (s.ctl i).nCoreMemRspValid = true := by
  by_cases hs : s.rState = .active
  · have hc : s.ctl i = _ := (ctl_active hs).trans activeCtl_eq
    have hrsp : (s.ctl i).nCoreMemRsp = _ := congrArg L1dCtl.nCoreMemRsp hc
    have hval : (s.ctl i).nCoreMemRspValid = (s.answers1 || s.answers2 i) :=
      congrArg L1dCtl.nCoreMemRspValid hc
    dsimp only at hrsp
    rw [hval, Bool.or_eq_true]
    rw [hrsp] at hd
    cases h1 : s.answers1
    · rw [h1, if_neg Bool.false_ne_true] at hd
      cases hg : s.rGotReq2
      · rw [hg, if_neg Bool.false_ne_true] at hd
        cases hd
      · rw [hg, if_pos rfl] at hd
        refine .inr ?_
        unfold answers2 pushes
        unfold rsp2 at hd
        rw [hg]
        cases hb : s.bypass2 i
        · cases hst : s.rReq2.isStore
          · cases hl : s.loadHit2
            · simp [hb, hst, hl, dfltCtl] at hd
            · rfl
          · rfl
        · rfl
    · exact .inl rfl
  · unfold ctl at hd ⊢
    cases h : s.rState <;> first | exact absurd h hs | skip
    all_goals
      rw [h] at hd
      simp only [initCacheCtl, injectReloadCtl, handleReloadCtl, flushClCtl, flushClWaitCtl,
        flushCacheCtl, flushCacheLastWaitCtl, flushCacheWaitCtl] at hd ⊢
      (try split_ifs at hd ⊢) <;> first | rfl | cases hd

/-- An answer for the request `r`. -/
structure AnswersFor (c : MemRsp) (r : MemReq) : Prop where
  robPtr : c.robPtr = r.robPtr
  dstPtr : c.dstPtr = r.dstPtr
  badAddr : c.badAddr = r.spansCacheline
  dst : c.dstValid = true → r.dstValid = true
  load : r.dstValid = true → r.isStore = false → (isLoadOp r.op = true ∨ r.op = .nop) →
    c.dstValid = true

theorem answersFor_rsp2 {c : MemRsp} (hs : s.rState = .active) (h : s.answers2 i = true) :
    AnswersFor (s.rsp2 i c) s.rReq2 := by
  simp only [answers2, Bool.and_eq_true, Bool.not_eq_true'] at h
  obtain ⟨hg, hp⟩ := h
  unfold rsp2
  dsimp only
  cases hb : s.bypass2 i
  · rw [if_neg Bool.false_ne_true]
    cases hst : s.rReq2.isStore
    · cases hl : s.loadHit2
      · simp [pushes, hg, hb, hst, hl] at hp
      · rw [if_neg Bool.false_ne_true, if_pos rfl]
        have hhit : s.tHitCache2 = true := by
          simp only [loadHit2, tPort2HitCache, Bool.and_eq_true] at hl
          simp [tHitCache2, hl.1, hg, hs]
        have hd : s.tRspDstValid2 = (isLoadOp s.rReq2.op && s.rReq2.dstValid) := by
          rw [tRspDstValid2, hhit, Bool.and_true]
        refine ⟨rfl, rfl, rfl, fun hv => ?_, fun hv _ hop => ?_⟩
        · have hv' : s.tRspDstValid2 = true := hv
          rw [hd, Bool.and_eq_true] at hv'
          exact hv'.2
        · show s.tRspDstValid2 = true
          have hop' : isLoadOp s.rReq2.op = true := hop.resolve_right fun hn => by
            rw [bypass2, hn] at hb
            simp at hb
          rw [hd, hop', hv]
          rfl
    · rw [if_pos rfl]
      exact ⟨rfl, rfl, rfl, fun hv => Bool.noConfusion hv, fun _ hf _ => by
        rw [hst] at hf
        cases hf⟩
  · rw [if_pos rfl]
    exact ⟨rfl, rfl, rfl, fun hv => hv, fun hv _ _ => hv⟩

/-- **An answer is for a request held.** -/
theorem answer_held (h : s.ReqInv) (hn : s.NoNop) (hv : (s.ctl i).nCoreMemRspValid = true) :
    ∃ r, s.Holds r ∧ AnswersFor (s.ctl i).nCoreMemRsp r := by
  by_cases hs : s.rState = .active
  · have hc : s.ctl i = _ := (ctl_active hs).trans activeCtl_eq
    have hrsp : (s.ctl i).nCoreMemRsp = _ := congrArg L1dCtl.nCoreMemRsp hc
    have hval : (s.ctl i).nCoreMemRspValid = (s.answers1 || s.answers2 i) :=
      congrArg L1dCtl.nCoreMemRspValid hc
    dsimp only at hrsp
    rw [hrsp]
    cases h1 : s.answers1
    · rw [hval, h1, Bool.false_or] at hv
      have hg2 : s.rGotReq2 = true := by
        simp only [answers2, Bool.and_eq_true] at hv
        exact hv.1
      rw [if_neg Bool.false_ne_true, if_pos hg2]
      exact ⟨s.rReq2, .inl ⟨hg2, rfl⟩, answersFor_rsp2 hs hv⟩
    · have h1' := h1
      simp only [answers1, Bool.and_eq_true, Bool.not_eq_true'] at h1'
      obtain ⟨⟨hg, hhit⟩, hst⟩ := h1'
      have hg2 : s.rGotReq2 = false := by
        by_contra hg2
        rw [h.both hg (Bool.not_eq_false _ |>.mp hg2)] at hst
        cases hst
      have hl : s.holdsLoad = true := by
        rw [holdsLoad, hs, hst, hg]
        rfl
      have hcache : s.tHitCache = true := by
        simp only [hitLine, Bool.and_eq_true] at hhit
        simp [tHitCache, hhit, hg, hs]
      rw [if_pos rfl, hg2, if_neg Bool.false_ne_true]
      refine ⟨s.rReq, .inr (.inr ⟨hl, rfl⟩), rfl, rfl, rfl, fun hd => ?_, fun hd _ hop => ?_⟩
      · have hd' : s.tRspDstValid = true := hd
        simp only [tRspDstValid, Bool.and_eq_true] at hd'
        exact hd'.2.1
      · show s.tRspDstValid = true
        rw [tRspDstValid, hcache, hd, hop.resolve_right (hn.port1 hl)]
        rfl
  · obtain ⟨hack, hcond⟩ := ctl_nCoreMemRspValid (i := i) hs
    rw [hack, hcond, Bool.and_eq_true, Bool.and_eq_true, decide_eq_true_eq] at hv
    obtain ⟨⟨hst, hm⟩, hl⟩ := hv
    have hrsp : (s.ctl i).nCoreMemRsp =
        ⟨(s.tRspData i).setWidth 32, s.rReq.robPtr, s.rReq.dstPtr, s.rReq.dstValid,
          s.rReq.spansCacheline, s.rReq.pc⟩ := by
      rw [ctl, hst]
      simp only [injectReloadCtl, hm, hl, if_true]
    have hload : s.holdsLoad = true := by
      rw [Bool.not_eq_true', Bool.or_eq_false_iff] at hl
      rw [holdsLoad, hst, hl.1]
      rfl
    rw [hrsp]
    exact ⟨s.rReq, .inr (.inr ⟨hload, rfl⟩), rfl, rfl, rfl, fun hd => hd, fun hd _ _ => hd⟩

end L1d
end Rv32Core
