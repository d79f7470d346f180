import Mathlib.Algebra.Order.Group.Multiset
import Mathlib.Tactic.Abel
import Rv32Core.Queue
import Rv32Core.L1d.Invariant

/-! # Every request is answered once

A request carries its ROB slot and destination register as a ticket.  At any time the tickets
accepted are those answered together with those the cache still holds: the request on port 2,
the loads of the miss queue, and a load on port 1 or waiting there for its line (`pending`).
One cycle keeps this balance unless a flush starts while a retried load misses on port 1
(`NoFlushRace`); then the flush overrides the reload and the load is forgotten. -/

namespace Rv32Core

open RingBuffer

/-- The ROB slot and the destination register of a request. -/
abbrev Ticket := RobPtr × PrfPtr

def MemReq.ticket (r : MemReq) : Ticket := (r.robPtr, r.dstPtr)

def MemRsp.ticket (r : MemRsp) : Ticket := (r.robPtr, r.dstPtr)

namespace L1d

variable {s : L1d} {i : L1dIn}

/-- The tickets accepted in a cycle. -/
def accepted (s : L1d) (i : L1dIn) : Multiset Ticket :=
  if (s.ctl i).coreMemReqAck then {i.coreMemReq.ticket} else 0

/-- The tickets answered in a cycle. -/
def answered (s : L1d) (i : L1dIn) : Multiset Ticket :=
  if (s.ctl i).nCoreMemRspValid then {(s.ctl i).nCoreMemRsp.ticket} else 0

/-- The requests in the miss queue, oldest first. -/
def mqView (s : L1d) : List MemReq := contents s.rMemQ s.rMqHeadPtr s.rMqTailPtr

/-- The tickets of the loads in a list of requests. -/
def loadTickets (l : List MemReq) : Multiset Ticket :=
  ((l.filter fun r => !r.isStore).map MemReq.ticket : List Ticket)

/-- Port 1 holds a load, or waits for the line of one. -/
def holdsLoad (s : L1d) : Bool :=
  !s.rReq.isStore &&
    match s.rState with
    | .active => s.rGotReq
    | .injectReload => true
    | .handleReload => !s.rAckLdEarly
    | _ => false

/-- The tickets accepted and not yet answered. -/
def pending (s : L1d) : Multiset Ticket :=
  (if s.rGotReq2 then {s.rReq2.ticket} else 0) + loadTickets s.mqView +
    (if s.holdsLoad then {s.rReq.ticket} else 0)

/-- No flush starts in the cycle in which a retried load misses: in ACTIVE, with the miss queue
empty and a load on port 1 that misses, no flush is pending. -/
def NoFlushRace (s : L1d) : Prop :=
  s.rState = .active → s.miss = true → s.rLastWr = false → s.memQEmpty = true →
    s.rFlushReq = false ∧ s.rFlushClReq = false

@[simp] theorem loadTickets_append (l m : List MemReq) :
    loadTickets (l ++ m) = loadTickets l + loadTickets m := by
  simp [loadTickets]

@[simp] theorem loadTickets_nil : loadTickets [] = 0 := rfl

theorem loadTickets_cons (r : MemReq) (l : List MemReq) :
    loadTickets (r :: l) = (if r.isStore then 0 else {r.ticket}) + loadTickets l := by
  cases h : r.isStore <;> simp [loadTickets, h]

/-! ### The miss queue -/

theorem mqView_step (h : s.ReqInv) :
    (s.step i).mqView = s.mqView.drop (s.ctl i).tPopMq.toNat ++
      if (s.ctl i).tPushMiss then [s.rReq2] else [] := by
  obtain ⟨hpop, hpush⟩ := mq_room (s := s) (i := i)
  have h8 := h.mqOcc
  rw [mqView, step_mqPtrs.1, step_mqPtrs.2]
  refine contents_cycle (k := 3) _ _ _ _ (fun hp => ?_) fun hp => ?_
  · rw [hp, Bool.toNat_true] at hpush
    omega
  · rw [hp, Bool.toNat_true] at hpop
    exact occ_pos_iff.mp hpop

theorem mqView_cons (h : s.headGo = true) :
    s.mqView = s.tMemHead :: contents s.rMemQ (s.rMqHeadPtr + 1) s.rMqTailPtr := by
  have he := (headGo_spec h).1
  rw [memQEmpty, beq_eq_false_iff_ne] at he
  exact contents_pop _ he

/-! ### One cycle -/

/-- **A missing load is not overtaken by a flush.** -/
theorem NoFlushRace.of_miss (hr : s.NoFlushRace) (hs : s.rState = .active)
    (hm : s.miss = true) : s.startsFlush i = false ∧ s.startsFlushCl i = false := by
  have hg : s.rGotReq = true := by
    simp only [miss, Bool.and_eq_true] at hm
    exact hm.1
  unfold startsFlush startsFlushCl flushable
  cases hw : s.rLastWr
  · cases hq : s.memQEmpty
    · simp
    · obtain ⟨h1, h2⟩ := hr hs hm hw hq
      simp [h1, h2]
  · simp [hg]

/-- In ACTIVE at most one of the ports answers a load, and its answer names that load. -/
theorem answered_active (h : s.ReqInv) (hs : s.rState = .active) :
    s.answered i =
      (if s.answers2 i then {s.rReq2.ticket} else 0) +
        (if s.answers1 then {s.rReq.ticket} else 0) := by
  have hc : s.ctl i = _ := (ctl_active hs).trans activeCtl_eq
  unfold answered
  rw [hc]
  dsimp only
  cases h1 : s.answers1
  · cases h2 : s.answers2 i
    · simp
    · have hg2 : s.rGotReq2 = true := by
        simp only [answers2, Bool.and_eq_true] at h2
        exact h2.1
      simp only [Bool.or_true, if_true, hg2, Bool.false_eq_true, if_false]
      congr 1
      unfold rsp2
      dsimp only
      split_ifs <;> rfl
  · have h1' := h1
    simp only [answers1, Bool.and_eq_true, Bool.not_eq_true'] at h1'
    have hg2 : s.rGotReq2 = false := by
      by_contra hg2
      rw [h.both h1'.1.1 (Bool.not_eq_false _ |>.mp hg2)] at h1'
      cases h1'.2
    have h2 : s.answers2 i = false := by simp [answers2, hg2]
    simp [h2, hg2, dfltCtl, rsp1, MemRsp.ticket, MemReq.ticket]

/-- The request on port 2 is answered, or goes to the miss queue as a load or as a store that
is answered at the same time. -/
theorem answers2_balance :
    (if s.rGotReq2 then {s.rReq2.ticket} else 0 : Multiset Ticket) =
      (if s.answers2 i then {s.rReq2.ticket} else 0) +
        loadTickets (if s.pushes i then [s.rReq2] else []) := by
  unfold answers2
  cases hg : s.rGotReq2
  · simp [pushes, hg]
  · cases hp : s.pushes i <;> cases hst : s.rReq2.isStore <;> simp [loadTickets_cons, hst]

theorem balance_active (h : s.ReqInv) (hr : s.NoFlushRace) (hs : s.rState = .active) :
    loadTickets (s.mqView.drop (s.ctl i).tPopMq.toNat) +
        (if (s.step i).holdsLoad then {(s.step i).rReq.ticket} else 0) +
        (if s.answers1 then {s.rReq.ticket} else 0) =
      loadTickets s.mqView + (if s.holdsLoad then {s.rReq.ticket} else 0) := by
  have hc : s.ctl i = _ := (ctl_active hs).trans activeCtl_eq
  have hst : (s.step i).rState = _ := h.nState_active (i := i) hs
  have hreq : (s.step i).rReq = _ := congrArg L1dCtl.nReq hc
  have hgot : (s.step i).rGotReq = s.fires i := congrArg L1dCtl.tGotReq hc
  have hpop : (s.ctl i).tPopMq = (s.fires i || s.dropsStore i) := congrArg L1dCtl.tPopMq hc
  dsimp only at hreq
  by_cases hm : s.miss = true
  · -- nothing leaves the queue; a load that misses is reloaded
    obtain ⟨h1, h2⟩ := hr.of_miss (i := i) hs hm
    have hng : s.headGo = false := by simp [headGo, hm]
    have hf : s.firesStore i = false ∧ s.firesLoad = false ∧ s.dropsStore i = false := by
      simp [firesStore, firesLoad, dropsStore, hng]
    have hr' : (s.step i).rReq = s.rReq := by rw [hreq]; simp [hf]
    have hmg := hm
    simp only [miss, Bool.and_eq_true, Bool.not_eq_true'] at hmg
    have ha : s.answers1 = false := by simp [answers1, hmg.2]
    have hh : (s.step i).holdsLoad = s.holdsLoad := by
      simp [holdsLoad, hst, h1, h2, hm, hs, hr', hmg.1]
    rw [hh, hr', ha, hpop]
    simp [fires, hf]
  · -- a load on port 1 is answered; the head of the queue may take its place
    rw [Bool.not_eq_true] at hm
    have ha : s.answers1 = s.holdsLoad := by
      unfold answers1 holdsLoad
      rw [hs]
      unfold miss at hm
      cases hg : s.rGotReq
      · simp
      · rw [hg] at hm
        have hl : s.hitLine = true := by simpa using hm
        simp [hl]
    rw [ha]
    congr 1
    by_cases hg : s.headGo = true
    · obtain ⟨h1, h2⟩ := noFlush_of_headGo (i := i) hg
      have hst' : (s.step i).rState = .active := by rw [hst]; simp [h1, h2, hm]
      have hh : (s.step i).holdsLoad = (!(s.step i).rReq.isStore && s.fires i) := by
        rw [holdsLoad, hst', hgot]
      rw [hh, hpop, mqView_cons hg, loadTickets_cons, hreq]
      unfold fires firesStore firesLoad dropsStore
      rw [hg]
      cases hi : s.tMemHead.isStore
      · simp only [MemReq.ticket, Bool.not_false, Bool.true_and, Bool.false_and, Bool.false_or,
          Bool.false_eq_true, if_false, if_true, Bool.or_false, Bool.and_true, hi, Bool.toNat_true,
          List.drop_succ_cons, List.drop_zero]
        abel
      · cases hsr : s.storeReady i
        · cases hd : i.drainDsComplete && i.deadRobMask s.tMemHead.robPtr
          · simp [loadTickets_cons, hi]
          · simp
        · simp
    · rw [Bool.not_eq_true] at hg
      have hf : s.firesStore i = false ∧ s.firesLoad = false ∧ s.dropsStore i = false := by
        simp [firesStore, firesLoad, dropsStore, hg]
      have hh : (s.step i).holdsLoad = false := by
        rw [holdsLoad, hst, hgot, fires, hf.1, hf.2.1, hm]
        cases s.startsFlush i <;> cases s.startsFlushCl i <;> simp
      rw [hh, hpop]
      simp [fires, hf]

/-- Outside ACTIVE a load waits on port 1 until its line is there. -/
theorem balance_other (h : s.ReqInv) (hs : s.rState ≠ .active) :
    s.answered i + (if (s.step i).holdsLoad then {s.rReq.ticket} else 0) =
      if s.holdsLoad then {s.rReq.ticket} else 0 := by
  have hreq : (s.step i).rReq = s.rReq := (quiet hs).nReq
  have hst : (s.step i).rState = (s.ctl i).nState := rfl
  have hgot : (s.step i).rGotReq = (s.ctl i).tGotReq := rfl
  have hack : (s.step i).rAckLdEarly = (s.ctl i).tAckLdEarly := rfl
  unfold answered holdsLoad
  rw [hreq, hst, hgot, hack, ctl_tGotReq]
  unfold ctl
  have hw := h.noWait
  cases hq : s.rState <;>
    first | exact absurd hq hs | exact absurd hq hw | skip
  case injectReload =>
    simp only [injectReloadCtl]
    cases hm : i.memRspValid <;> cases hl : s.rReq.isStore <;> cases hk : s.rLockCache <;>
      simp [dfltCtl, hq, MemReq.ticket, MemRsp.ticket]
  all_goals
    simp only [initCacheCtl, flushClCtl, flushClWaitCtl, flushCacheCtl, flushCacheLastWaitCtl,
      flushCacheWaitCtl, handleReloadCtl, dfltCtl, Bool.false_eq_true, if_false, zero_add]
  all_goals cases s.rReq.isStore <;> split_ifs <;> simp_all

/-- **One cycle of the balance**: what was pending or is accepted now is answered or stays
pending. -/
theorem pending_step (h : s.ReqInv) (hr : s.NoFlushRace) :
    (s.step i).pending + s.answered i = s.pending + s.accepted i := by
  have hgot2 : (s.step i).rGotReq2 = (s.ctl i).tGotReq2 := rfl
  have hreq2 : (s.step i).rReq2 = (s.ctl i).nReq2 := rfl
  unfold pending accepted
  rw [hgot2, hreq2, mqView_step h, loadTickets_append]
  by_cases hs : s.rState = .active
  · have hc : s.ctl i = _ := (ctl_active hs).trans activeCtl_eq
    have hb := balance_active (i := i) h hr hs
    have h2 := answers2_balance (s := s) (i := i)
    have ha : (s.ctl i).tGotReq2 = s.accepts i := congrArg L1dCtl.tGotReq2 hc
    have hn : (s.ctl i).nReq2 = if s.accepts i then i.coreMemReq else s.rReq2 :=
      congrArg L1dCtl.nReq2 hc
    have hp : (s.ctl i).tPushMiss = s.pushes i := congrArg L1dCtl.tPushMiss hc
    have hk : (s.ctl i).coreMemReqAck = s.accepts i := congrArg L1dCtl.coreMemReqAck hc
    rw [answered_active h hs, ha, hn, hp, hk, h2, add_assoc _ (loadTickets s.mqView), ← hb]
    cases s.accepts i <;> simp only [if_true, Bool.false_eq_true, if_false] <;> abel
  · have hq := quiet (i := i) hs
    obtain ⟨-, hg2, -⟩ := h.ports_empty hs
    have hreq : (s.step i).rReq = s.rReq := hq.nReq
    rw [hq.tGotReq2, hg2, hq.tPopMq, hq.tPushMiss, hq.coreMemReqAck, hreq,
      ← balance_other (i := i) h hs]
    simp only [Bool.false_eq_true, if_false, Bool.toNat_false, List.drop_zero, loadTickets_nil]
    abel

theorem init_pending (p : L1dPowerUp) : (init p).pending = 0 := by
  simp [pending, holdsLoad, mqView, init]

/-! ### When a flush races with a miss -/

/-- The cycle starts a reload or an eviction. -/
def startsReload (s : L1d) : Bool := decide (s.rState = .active) && (s.evicts || s.refills)

/-- The cycle leaves ACTIVE for a flush. -/
def leavesForFlush (s : L1d) (i : L1dIn) : Prop :=
  s.rState = .active ∧ ((s.ctl i).nState = .flushCache ∨ (s.ctl i).nState = .flushCl)

/-- What is asked of a cycle: the balance is kept, and a reload or an eviction is not
overtaken by a flush. -/
def Accounts (s : L1d) (i : L1dIn) : Prop :=
  (s.step i).pending + s.answered i = s.pending + s.accepted i ∧
    ¬(s.leavesForFlush i ∧ s.startsReload = true)

theorem startsReload_of_miss (h : s.ReqInv) (hs : s.rState = .active) (hm : s.miss = true) :
    s.startsReload = true := by
  rcases h.miss_starts hm with ⟨he, -⟩ | ⟨-, he⟩ <;> simp [startsReload, hs, he]

theorem miss_of_startsReload (h : s.startsReload = true) : s.rState = .active ∧ s.miss = true := by
  simp only [startsReload, evicts, refills, Bool.and_eq_true, Bool.or_eq_true,
    decide_eq_true_eq] at h
  rcases h with ⟨hs, h | h⟩
  · exact ⟨hs, h.1.1⟩
  · exact ⟨hs, h.1.1⟩

/-- When a flush overtakes a missing load, the load is forgotten. -/
theorem pending_race (h : s.ReqInv) (hr : ¬s.NoFlushRace) :
    s.leavesForFlush i ∧ s.startsReload = true ∧
      (s.step i).pending + s.answered i + {s.rReq.ticket} = s.pending + s.accepted i := by
  obtain ⟨hs, hm, hw, hq, hf⟩ : s.rState = .active ∧ s.miss = true ∧ s.rLastWr = false ∧
      s.memQEmpty = true ∧ ¬(s.rFlushReq = false ∧ s.rFlushClReq = false) := by
    simpa [NoFlushRace] using hr
  have hg : s.rGotReq = true := by
    simp only [miss, Bool.and_eq_true] at hm
    exact hm.1
  have hl : s.rReq.isStore = false := by rw [← h.lastWr_eq hg, hw]
  have hacc : s.accepts i = false := by simp [accepts, hm]
  have hfl : s.startsFlush i = true ∨ (s.startsFlush i = false ∧ s.startsFlushCl i = true) := by
    have hfb : s.flushable = true := by simp [flushable, hq, hw]
    cases h1 : s.rFlushReq
    · cases h2 : s.rFlushClReq
      · exact absurd ⟨h1, h2⟩ hf
      · right
        simp [startsFlush, startsFlushCl, hacc, hfb, h1, h2]
    · left
      simp [startsFlush, hacc, hfb, h1]
  have hst : (s.step i).rState = .flushCache ∨ (s.step i).rState = .flushCl := by
    have hst : (s.step i).rState = _ := h.nState_active (i := i) hs
    rcases hfl with h1 | ⟨h1, h2⟩
    · simp [hst, h1]
    · simp [hst, h1, h2]
  refine ⟨⟨hs, hst⟩, startsReload_of_miss h hs hm, ?_⟩
  have hc : s.ctl i = _ := (ctl_active hs).trans activeCtl_eq
  have hng : s.headGo = false := by simp [headGo, hm]
  have hpop : (s.ctl i).tPopMq = false := by
    have : (s.ctl i).tPopMq = (s.fires i || s.dropsStore i) := congrArg L1dCtl.tPopMq hc
    simp [this, fires, firesStore, firesLoad, dropsStore, hng]
  have hp : (s.ctl i).tPushMiss = s.pushes i := congrArg L1dCtl.tPushMiss hc
  have hgot2 : (s.step i).rGotReq2 = false := (congrArg L1dCtl.tGotReq2 hc).trans hacc
  have hk : (s.ctl i).coreMemReqAck = false := (congrArg L1dCtl.coreMemReqAck hc).trans hacc
  have ha : s.answers1 = false := by
    simp only [miss, hg, Bool.true_and, Bool.not_eq_true'] at hm
    simp [answers1, hm]
  have hh : (s.step i).holdsLoad = false := by
    unfold holdsLoad
    rcases hst with hst | hst <;> rw [hst, Bool.and_false]
  have hh0 : s.holdsLoad = true := by simp [holdsLoad, hl, hs, hg]
  have h2 := answers2_balance (s := s) (i := i)
  unfold pending accepted
  rw [answered_active h hs, mqView_step h, loadTickets_append, hgot2, hh, hh0, hk, ha, hpop, hp, h2]
  simp only [Bool.false_eq_true, if_false, if_true, Bool.toNat_false, List.drop_zero]
  abel

theorem accounts_iff (h : s.ReqInv) : s.Accounts i ↔ s.NoFlushRace := by
  constructor
  · intro ha
    by_contra hr
    obtain ⟨h1, h2, -⟩ := pending_race (i := i) h hr
    exact ha.2 ⟨h1, h2⟩
  · refine fun hr => ⟨pending_step h hr, fun ⟨hl, hs⟩ => ?_⟩
    obtain ⟨hs, hm⟩ := miss_of_startsReload hs
    have hst := h.nState_active (i := i) hs
    obtain ⟨h1, h2⟩ := hr.of_miss (i := i) hs hm
    rcases hl.2 with hl | hl <;> simp [hst, h1, h2, hm] at hl

end L1d
end Rv32Core
