import Rv32Core.L1d.Answers

/-! # What the data cache still owes

`r_n_inflight` counts the requests accepted and not yet answered, and `memq_empty` tells the core
that there are none; a flush of the whole cache that is asked for stays pending until it starts and
is reported once. -/

namespace Rv32Core

open RingBuffer

namespace L1d

variable {s : L1d} {i : L1dIn}

/-! ### Acknowledges -/

theorem reqAck_accepts (h : (s.ctl i).coreMemReqAck = true) : s.accepts i = true := by
  by_cases hs : s.rState = .active
  · have hc : s.ctl i = _ := (ctl_active hs).trans activeCtl_eq
    rw [hc] at h
    exact h
  · rw [(quiet hs).coreMemReqAck] at h
    cases h

theorem dataAck_valid (h : (s.ctl i).coreStoreDataAck = true) : i.coreStoreDataValid = true := by
  by_cases hs : s.rState = .active
  · have hc : s.ctl i = _ := (ctl_active hs).trans activeCtl_eq
    rw [hc] at h
    have hf : s.firesStore i = true := h
    simp only [firesStore, storeReady, Bool.and_eq_true] at hf
    by_contra hv
    rw [if_neg hv] at hf
    exact Bool.false_ne_true hf.2.2.2
  · rw [(quiet hs).coreStoreDataAck] at h
    cases h

/-! ### The counter -/

/-- The counter is the number of pending requests, modulo 16. -/
def Counts (s : L1d) : Prop := s.rNInflight = BitVec.ofNat 4 s.pending.card

theorem Counts.step (hc : s.Counts) (h : s.ReqInv) (hr : s.NoFlushRace) : (s.step i).Counts := by
  have hb := congrArg Multiset.card (pending_step (i := i) h hr)
  rw [Multiset.card_add, Multiset.card_add, answered, accepted] at hb
  unfold Counts at hc ⊢
  show s.nNInflight i = _
  have hv : (s.ctl i).coreMemReqAck = true → i.coreMemReqValid = true := fun ha =>
    (accepts_spec (reqAck_accepts ha)).1
  unfold nNInflight
  rw [hc]
  cases ha : (s.ctl i).coreMemReqAck <;> cases hn : (s.ctl i).nCoreMemRspValid <;>
    rw [ha, hn] at hb <;> simp only [if_true, Bool.false_eq_true, if_false, Multiset.card_zero,
      Multiset.card_singleton, Nat.add_zero] at hb
  · simp [ha, hn, hb]
  · have hcard : s.pending.card = (s.step i).pending.card + 1 := by omega
    simp [ha, hn, hcard, BitVec.ofNat_add]
  · simp [hv ha, ha, hn, hb, BitVec.ofNat_add]
  · have hcard : s.pending.card = (s.step i).pending.card := by omega
    simp [hv ha, ha, hn, hcard]

theorem init_counts (p : L1dPowerUp) : (init p).Counts := by
  unfold Counts
  rw [init_pending]
  rfl

/-- There is room for nine pending requests. -/
theorem ReqInv.pending_card (h : s.ReqInv) : s.pending.card ≤ 9 := by
  have h8 := h.mqOcc
  have hl : (loadTickets s.mqView).card ≤ occ s.rMqHeadPtr s.rMqTailPtr := by
    rw [loadTickets, Multiset.coe_card, List.length_map]
    refine (List.length_filter_le _ _).trans ?_
    rw [mqView, contents_length]
  have h2 : (if s.rGotReq2 then {s.rReq2.ticket} else 0 : Multiset Ticket).card =
      s.rGotReq2.toNat := by cases s.rGotReq2 <;> rfl
  have h1 : (if s.holdsLoad then {s.rReq.ticket} else 0 : Multiset Ticket).card ≤ 1 := by
    cases s.holdsLoad <;> simp
  unfold pending
  rw [Multiset.card_add, Multiset.card_add, h2]
  omega

/-- **`memq_empty` means that nothing is pending**, and that the drain has gone on for a cycle. -/
theorem Counts.memqEmpty (hc : s.Counts) (h : s.ReqInv) (hr : s.NoFlushRace)
    (he : (s.step i).memqEmpty = true) : i.drainDsComplete = true ∧ i.coreMemReqValid = false ∧
      s.pending = 0 ∧ (s.step i).pending = 0 := by
  have he' : (s.memQEmpty && i.drainDsComplete && !i.coreMemReqValid && !(s.ctl i).tGotReq &&
    !(s.ctl i).tGotReq2 && !(s.ctl i).tPushMiss && s.rNInflight == 0) = true := he
  simp only [Bool.and_eq_true, Bool.not_eq_true', beq_iff_eq] at he'
  obtain ⟨⟨⟨⟨⟨⟨-, hd⟩, hv⟩, -⟩, -⟩, -⟩, hn⟩ := he'
  have hcard := h.pending_card
  rw [Counts, hn] at hc
  have h0 : s.pending.card = 0 := by
    have := congrArg BitVec.toNat hc
    rw [BitVec.toNat_ofNat, Nat.mod_eq_of_lt (by omega)] at this
    exact this.symm
  have hp : s.pending = 0 := Multiset.card_eq_zero.mp h0
  have hacc : s.accepted i = 0 := by
    unfold accepted
    cases ha : (s.ctl i).coreMemReqAck
    · rfl
    · rw [(accepts_spec (reqAck_accepts ha)).1] at hv
      cases hv
  have hb := pending_step (i := i) h hr
  have hb' := congrArg Multiset.card hb
  rw [hp, hacc, Multiset.card_add, add_zero, Multiset.card_zero] at hb'
  exact ⟨hd, hv, hp, Multiset.card_eq_zero.mp (by omega)⟩

/-! ### Flushes of the whole cache -/

/-- The cache initialises or flushes all its lines. -/
def flushing (s : L1d) : Bool :=
  match s.rState with
  | .initialise | .initCache | .flushCache | .flushCacheWait | .flushCacheLastWait => true
  | _ => false

/-- No single line is flushed. -/
structure NoLineFlush (s : L1d) : Prop where
  req : s.rFlushClReq = false
  state : s.rState ≠ .flushCl ∧ s.rState ≠ .flushClWait

/-- **A flush is not lost and not repeated**: what is asked for, pending or under way stays so or
is reported. -/
theorem NoLineFlush.step (hn : s.NoLineFlush) (h : s.ReqInv) (hi : i.flushClReq = false)
    (h1 : i.flushReq.toNat + s.rFlushReq.toNat + s.flushing.toNat ≤ 1) :
    (s.step i).NoLineFlush ∧
      (s.step i).rFlushReq.toNat + (s.step i).flushing.toNat +
          (s.step i).rFlushComplete.toNat =
        i.flushReq.toNat + s.rFlushReq.toNat + s.flushing.toNat := by
  have hcl := hn.req
  have hreq : (s.step i).rFlushReq = (s.ctl i).nFlushReq := rfl
  have hreqCl : (s.step i).rFlushClReq = (s.ctl i).nFlushClReq := rfl
  have hcomp : (s.step i).rFlushComplete = (s.ctl i).nFlushComplete := rfl
  have hst : (s.step i).rState = (s.ctl i).nState := rfl
  by_cases hs : s.rState = .active
  · have hc : s.ctl i = _ := (ctl_active hs).trans activeCtl_eq
    have hnext := h.nState_active (i := i) hs
    have hfcl : s.startsFlushCl i = false := by simp [startsFlushCl, hcl]
    have hq : (s.ctl i).nFlushReq = if s.startsFlush i then false else s.rFlushReq || i.flushReq :=
      congrArg L1dCtl.nFlushReq hc
    have hqcl : (s.ctl i).nFlushClReq =
        if s.startsFlushCl i then false else s.rFlushClReq || i.flushClReq :=
      congrArg L1dCtl.nFlushClReq hc
    have hqc : (s.ctl i).nFlushComplete = false := congrArg L1dCtl.nFlushComplete hc
    rw [hfcl, hcl, hi] at hqcl
    rw [hfcl] at hnext
    have hf0 : s.flushing = false := by rw [flushing, hs]
    refine ⟨⟨by rw [hreqCl, hqcl]; rfl, ?_⟩, ?_⟩
    · rw [hst, hnext, if_neg Bool.false_ne_true]
      split_ifs <;> decide
    · unfold flushing
      rw [hreq, hcomp, hst, hq, hqc, hnext]
      change _ = _ + _ + s.flushing.toNat
      rw [hf0] at h1 ⊢
      cases hsf : s.startsFlush i
      · have hm : ∀ b : Bool, (match (if b then .injectReload else .active : L1dState) with
          | .initialise | .initCache | .flushCache | .flushCacheWait | .flushCacheLastWait => true
          | _ => false) = false := by decide
        simp only [Bool.false_eq_true, if_false]
        rw [hm]
        revert h1
        cases s.rFlushReq <;> cases i.flushReq <;> decide
      · have hr : s.rFlushReq = true := by
          simp only [startsFlush, Bool.and_eq_true] at hsf
          exact hsf.2.1
        rw [hr] at h1 ⊢
        have hz : i.flushReq = false := by
          revert h1
          cases i.flushReq <;> decide
        rw [hz]
        rfl
  · have hw := hn.state
    unfold flushing at h1 ⊢
    constructor
    · constructor
      · rw [hreqCl]
        unfold ctl
        cases hq : s.rState <;> simp only [initCacheCtl, injectReloadCtl, handleReloadCtl, flushClCtl,
          flushClWaitCtl, flushCacheCtl, flushCacheLastWaitCtl, flushCacheWaitCtl] <;>
          first | exact absurd hq hs | skip
        all_goals
          (try split_ifs) <;> simp [dfltCtl, hcl, hi]
      · rw [hst]
        unfold ctl
        cases hq : s.rState <;> simp only [initCacheCtl, injectReloadCtl, handleReloadCtl, flushClCtl,
          flushClWaitCtl, flushCacheCtl, flushCacheLastWaitCtl, flushCacheWaitCtl] <;>
          first | exact absurd hq hs | exact absurd hq hw.1 | exact absurd hq hw.2 | skip
        all_goals
          (try split_ifs) <;> simp [dfltCtl, hq]
    · rw [hreq, hcomp, hst]
      unfold ctl
      revert h1
      cases hq : s.rState <;> simp only [initCacheCtl, injectReloadCtl, handleReloadCtl, flushClCtl,
        flushClWaitCtl, flushCacheCtl, flushCacheLastWaitCtl, flushCacheWaitCtl] <;>
        first | exact absurd hq hs | exact absurd hq hw.1 | exact absurd hq hw.2 | skip
      all_goals
        (try split_ifs) <;> simp only [dfltCtl, hq] <;> cases s.rFlushReq <;>
          cases i.flushReq <;> decide

end L1d
end Rv32Core
