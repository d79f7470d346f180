import Rv32Core.Back.Flush
import Rv32Core.Core.TwoWide
import Rv32Core.Exec.Writers

/-! # Every slot in flight is somewhere

The slots of the uops held by the execution unit and of the requests pending in the data cache
are the tokens of the machine.  Until a drain has begun they are the slots the core counts as in
flight, each once.  A drain drops the tokens of the queues at once and gives up waiting for some
of the others; when it ends none is left, because the queues are empty from its second cycle on,
`memq_empty` is seen from its third, and no operation of the multiplier or the divider is ever given
up. -/

namespace Rv32Core

open Clocked

/-! ### What is sent off and reported -/

namespace Core

variable {s : Core} {i : CoreIn}

/-- The slots sent to the execution unit in a cycle. -/
def sentOff (s : Core) (i : CoreIn) : Multiset RobPtr :=
  single (s.tPush1 i) (RingBuffer.idx s.rRobTailPtr) +
    single (s.tPush2 i) (RingBuffer.idx s.rRobNextTailPtr)

/-- The slots reported on in a cycle. -/
def reportedOn (i : CoreIn) : Multiset RobPtr :=
  single i.tCompleteValid1 i.tCompleteBundle1.robPtr +
    single i.tCompleteValid2 i.tCompleteBundle2.robPtr +
    single i.coreMemRspValid i.coreMemRsp.robPtr

theorem mem_sentOff {p : RobPtr} : p ∈ s.sentOff i ↔
    (s.tPush1 i = true ∧ RingBuffer.idx s.rRobTailPtr = p) ∨
      (s.tPush2 i = true ∧ RingBuffer.idx s.rRobNextTailPtr = p) := by
  rw [sentOff, Multiset.mem_add, mem_single, mem_single]

theorem mem_reportedOn {p : RobPtr} : p ∈ reportedOn i ↔
    (i.tCompleteValid1 = true ∧ i.tCompleteBundle1.robPtr = p) ∨
      (i.tCompleteValid2 = true ∧ i.tCompleteBundle2.robPtr = p) ∨
      (i.coreMemRspValid = true ∧ i.coreMemRsp.robPtr = p) := by
  rw [reportedOn, Multiset.mem_add, Multiset.mem_add, mem_single, mem_single, mem_single, or_assoc]

theorem tPush_alloc : (s.tPush1 i = true → (s.ctl i).tAlloc = true) ∧
    (s.tPush2 i = true → (s.ctl i).tAllocTwo = true) :=
  ⟨fun h => (Bool.and_eq_true _ _ |>.mp h).1, fun h => (Bool.and_eq_true _ _ |>.mp h).1⟩

/-- What is sent off was not in the ROB, and its slots are different. -/
theorem sentOff_fresh (hp : s.Ptrs) : (s.sentOff i).Nodup ∧ ∀ p ∈ s.sentOff i, ¬s.InRob p := by
  constructor
  · rw [sentOff, Multiset.nodup_add]
    refine ⟨by cases s.tPush1 i <;> simp, by cases s.tPush2 i <;> simp, ?_⟩
    rw [Multiset.disjoint_left]
    intro p h1 h2
    rw [mem_single] at h1 h2
    exact hp.nextTail_ne (h2.2.trans h1.2.symm)
  · intro p hm
    rcases mem_sentOff.mp hm with ⟨h, rfl⟩ | ⟨h, rfl⟩
    · exact hp.tail_fresh (tPush_alloc.1 h)
    · exact hp.nextTail_fresh (tPush_alloc.2 h)

/-- While the core does not drain, a slot is in flight from its allocation to its report. -/
theorem inflight_low (hd : s.rDsDone = false) (p : RobPtr) :
    (s.step i).rRobInflight p = true ↔
      (s.rRobInflight p = true ∧ p ∉ reportedOn i) ∨ p ∈ s.sentOff i := by
  have h : (s.step i).rRobInflight p = s.nRobInflight i p := rfl
  rw [h, mem_reportedOn, mem_sentOff]
  unfold nRobInflight tPush1 tPush2
  rw [hd, if_neg Bool.false_ne_true]
  simp only [writeIf_apply]
  split_ifs with h2 h1 h3 h4 h5 <;> grind

/-- While it drains, a slot stays in flight unless it is reported or given up. -/
theorem inflight_high (hd : s.rDsDone = true) (p : RobPtr) :
    (s.step i).rRobInflight p = true ↔
      s.rRobInflight p = true ∧ p ∉ reportedOn i ∧ i.uqWait p = false ∧ i.mqWait p = false := by
  have h : (s.step i).rRobInflight p = s.nRobInflight i p := rfl
  rw [h, mem_reportedOn]
  unfold nRobInflight tClrMask
  rw [hd, if_pos rfl, Bool.and_eq_true, Bool.not_eq_true']
  simp only [writeIf_apply]
  split_ifs with h3 h2 h1 <;> grind

end Core

namespace Exec

variable {i : ExecIn}

/-- The slots pushed are those of the uops pushed, when each goes to one queue. -/
theorem pushedIn_eq (h : ∀ u ∈ pushedUops i, u.isInt = !u.isMem) :
    pushedIn i = ((pushedUops i).map Uop.robPtr : List RobPtr) := by
  have hmem : (pushedUops i).filter Uop.isMem = (pushedUops i).filter fun u => !u.isInt :=
    List.filter_congr fun u hu => by rw [h u hu, Bool.not_not]
  rw [pushedIn, pushedSlots, pushedSlots, accepted_eq, accepted_eq, hmem, Multiset.coe_add,
    ← List.map_append]
  exact Multiset.coe_eq_coe.mpr ((List.filter_append_perm ..).map _)

end Exec

namespace Back

variable {s : Back} {i : BackIn} {env : Back → BackIn → Prop}

/-! ### Tokens -/

/-- The slots of the requests pending in the data cache. -/
def cacheSlots (s : Back) : Multiset RobPtr := s.l1d.pending.map Prod.fst

/-- The tokens of the machine. -/
def inFlight (s : Back) : Multiset RobPtr := s.exec.inFlight + s.cacheSlots

theorem handedOver_eq : s.exec.handedOver (s.execIn i) =
    (s.l1d.accepted (s.l1dIn i)).map Prod.fst := by
  have h : s.exec.handedOver (s.execIn i) =
      single (s.l1d.ctl (s.l1dIn i)).coreMemReqAck s.exec.memReq.robPtr := rfl
  rw [h, L1d.accepted]
  cases (s.l1d.ctl (s.l1dIn i)).coreMemReqAck <;> rfl

theorem reportedOn_eq : Core.reportedOn (s.coreIn i) =
    s.exec.reports + (s.l1d.answered (s.l1dIn i)).map Prod.fst := by
  have h : Core.reportedOn (s.coreIn i) = s.exec.reports +
      single (s.l1d.ctl (s.l1dIn i)).nCoreMemRspValid
        (s.l1d.ctl (s.l1dIn i)).nCoreMemRsp.robPtr := rfl
  rw [h, L1d.answered]
  cases (s.l1d.ctl (s.l1dIn i)).nCoreMemRspValid <;> rfl

/-- The uops pushed are the first of the two that are allocated, unless it is folded, and then the
second. -/
theorem pushedUops_eq : Exec.pushedUops (s.execIn i) =
    (if s.core.tPush1 (s.coreIn i) then [s.core.tAllocUop (s.coreIn i)] else []) ++
      if s.core.tPush2 (s.coreIn i) then [s.core.tAllocUop2 (s.coreIn i)] else [] := by
  have hpush : (s.execIn i).uqPush = (s.core.tPush1 (s.coreIn i) ||
    (!s.core.tPush1 (s.coreIn i) && s.core.tPush2 (s.coreIn i))) := rfl
  have hpush2 : (s.execIn i).uqPushTwo =
    (s.core.tPush2 (s.coreIn i) && s.core.tPush1 (s.coreIn i)) := rfl
  have huop : (s.execIn i).uqUop = if s.core.tPush1 (s.coreIn i) then s.core.tAllocUop (s.coreIn i)
    else s.core.tAllocUop2 (s.coreIn i) := rfl
  have huop2 : (s.execIn i).uqUopTwo = s.core.tAllocUop2 (s.coreIn i) := rfl
  rw [Exec.pushedUops, hpush, hpush2, huop, huop2]
  cases s.core.tPush1 (s.coreIn i) <;> cases s.core.tPush2 (s.coreIn i) <;> rfl

theorem pushed_cases {u : Uop} (hu : u ∈ Exec.pushedUops (s.execIn i)) :
    (s.core.tPush1 (s.coreIn i) = true ∧ u = s.core.tAllocUop (s.coreIn i)) ∨
      (s.core.tPush2 (s.coreIn i) = true ∧ u = s.core.tAllocUop2 (s.coreIn i)) := by
  rw [pushedUops_eq, List.mem_append] at hu
  obtain hu | hu := hu <;> split_ifs at hu with h
  · exact .inl ⟨h, List.mem_singleton.mp hu⟩
  · cases hu
  · exact .inr ⟨h, List.mem_singleton.mp hu⟩
  · cases hu

theorem pushed_decoded (hq : s.core.DqDecoded) (hp : s.core.DqPtrs) {u : Uop}
    (hu : u ∈ Exec.pushedUops (s.execIn i)) :
    (∃ f, u.Renames (decodeRiscv f)) ∧ Core.folds u.op = false := by
  have hfold : ∀ {b c : Bool}, (b && !c) = true → c = false := fun {b c} h =>
    (Bool.not_eq_true' _).mp (Bool.and_eq_true _ _ |>.mp h).2
  obtain ⟨h, rfl⟩ | ⟨h, rfl⟩ := pushed_cases hu
  · obtain ⟨f, hf⟩ := hq _ (Core.tUop_mem (Core.tPush_alloc.1 h))
    exact ⟨⟨f, hf ▸ s.core.tAllocUop_renames _⟩, hfold h⟩
  · obtain ⟨f, hf⟩ := hq _ (Core.tUop2_mem hp (Core.tPush_alloc.2 h))
    exact ⟨⟨f, hf ▸ s.core.tAllocUop2_renames _⟩, hfold h⟩

theorem pushedIn_eq (hq : s.core.DqDecoded) (hp : s.core.DqPtrs) :
    Exec.pushedIn (s.execIn i) = s.core.sentOff (s.coreIn i) := by
  have hone : ∀ u ∈ Exec.pushedUops (s.execIn i), u.isInt = !u.isMem := fun u hu => by
    obtain ⟨⟨f, _, _, _, _, rfl⟩, hf⟩ := pushed_decoded hq hp hu
    exact Core.oneQueue_decoded f hf
  have hrob := fun h => s.core.tAllocUop_robPtr _ (Core.tPush_alloc (i := s.coreIn i).1 h)
  have hrob2 := fun h => s.core.tAllocUop2_robPtr _ (Core.tPush_alloc (i := s.coreIn i).2 h)
  rw [Exec.pushedIn_eq hone, pushedUops_eq, List.map_append, ← Multiset.coe_add, Core.sentOff]
  congr 1
  · cases h : s.core.tPush1 (s.coreIn i) <;> simp [*]
  · cases h : s.core.tPush2 (s.coreIn i) <;> simp [*]

theorem inFlight_reset (h : backMachine.reset s) : s.inFlight = 0 := by
  obtain ⟨-, he, p, hl⟩ := h
  have hpend : s.cacheSlots = 0 := by
    rw [cacheSlots, hl, L1d.init_pending]
    rfl
  rw [inFlight, Exec.inFlight_reset he, hpend]
  rfl

/-- The cache's share: what it is handed comes in, what it reports on goes out. -/
theorem cacheSlots_step (h : backMachine.Reach env s) (hr : s.l1d.NoFlushRace) :
    (s.step i).cacheSlots + (s.l1d.answered (s.l1dIn i)).map Prod.fst =
      s.cacheSlots + s.exec.handedOver (s.execIn i) := by
  have hc := congrArg (Multiset.map Prod.fst)
    (L1d.pending_step (i := s.l1dIn i) (L1d.reach_reqInv (reach_l1d h)) hr)
  rwa [Multiset.map_add, Multiset.map_add, ← handedOver_eq] at hc

/-- **Tokens move**: those sent off come in, those reported on go out. -/
theorem inFlight_step (h : backMachine.Reach env s) (hr : s.l1d.NoFlushRace)
    (hd : s.core.rDsDone = false) : (s.step i).inFlight + Core.reportedOn (s.coreIn i) =
      s.inFlight + s.core.sentOff (s.coreIn i) := by
  obtain ⟨hptrs, hq⟩ := Core.dqDecoded_of_reach (reach_core h)
  obtain ⟨l, hl⟩ := (reach_exec h).exists_observed Exec.emptyLog Exec.watchQueues
  obtain ⟨age, ho⟩ := AluSched.ordered_of_reach (Exec.reach_sched (reach_exec h))
  obtain ⟨age2, ho2⟩ := AluSched.ordered_of_reach (Exec.reach_sched2 (reach_exec h))
  have he := (Exec.queuesInv_of_reach hl).inFlight_step (i := s.execIn i)
    (Exec.portInv_of_reach (reach_exec h)) polite ho ho2 hd
  have hc := cacheSlots_step (i := i) h hr
  rw [pushedIn_eq hq hptrs] at he
  have hx : (s.step i).inFlight =
      (s.exec.step (s.execIn i)).inFlight + (s.step i).cacheSlots := rfl
  rw [hx, reportedOn_eq, inFlight]
  ext p
  have h1 := congrArg (Multiset.count p) he
  have h2 := congrArg (Multiset.count p) hc
  simp only [Multiset.count_add] at h1 h2 ⊢
  omega

/-- A drain drops tokens and makes up none. -/
theorem inFlight_drain (h : backMachine.Reach env s) (hr : s.l1d.NoFlushRace)
    (hd : s.core.rDsDone = true) :
    (s.step i).inFlight + Core.reportedOn (s.coreIn i) ≤ s.inFlight := by
  obtain ⟨l, hl⟩ := (reach_exec h).exists_observed Exec.emptyLog Exec.watchQueues
  have he := (Exec.queuesInv_of_reach hl).inFlight_flush (i := s.execIn i)
    (Exec.portInv_of_reach (reach_exec h)) polite hd
  have hc := cacheSlots_step (i := i) h hr
  have hx : (s.step i).inFlight =
      (s.exec.step (s.execIn i)).inFlight + (s.step i).cacheSlots := rfl
  rw [hx, reportedOn_eq, inFlight, Multiset.le_iff_count]
  intro p
  have h1 := Multiset.le_iff_count.mp he p
  have h2 := congrArg (Multiset.count p) hc
  simp only [Multiset.count_add] at h1 h2 ⊢
  omega

theorem reportedOn_mem (h : backMachine.Reach env s) (hr : s.l1d.NoFlushRace) {p : RobPtr}
    (hp : p ∈ Core.reportedOn (s.coreIn i)) : p ∈ s.inFlight := by
  rw [reportedOn_eq, Multiset.mem_add] at hp
  unfold inFlight
  rcases hp with hp | hp
  · exact Multiset.mem_add.mpr (.inl (Multiset.mem_add.mpr (.inl (Multiset.mem_add.mpr (.inr hp)))))
  · have hc := congrArg (Multiset.map Prod.fst)
      (L1d.pending_step (i := s.l1dIn i) (L1d.reach_reqInv (reach_l1d h)) hr)
    rw [Multiset.map_add, Multiset.map_add] at hc
    have hin : p ∈ s.l1d.pending.map Prod.fst + (s.l1d.accepted (s.l1dIn i)).map Prod.fst := by
      rw [← hc]
      exact Multiset.mem_add.mpr (.inr hp)
    rcases Multiset.mem_add.mp hin with hin | hin
    · exact Multiset.mem_add.mpr (.inr hin)
    · rw [← handedOver_eq] at hin
      refine Multiset.mem_add.mpr (.inl (Multiset.mem_add.mpr (.inr ?_)))
      exact Exec.handedOver_mem polite hin

/-! ### The slots reported on have been allocated -/

/-- The tokens are slots allocated so far, and register 0 belongs to `x0`. -/
structure Reports (s : Back) (o : RobPtr → Bool) : Prop where
  zero : s.core.ZeroInv o
  tokens : ∀ p ∈ s.inFlight, o p = true

theorem Reports.allocated {o : RobPtr → Bool} (h : s.Reports o) (hre : backMachine.Reach env s)
    (hr : s.l1d.NoFlushRace) : Core.ReportsAllocated o (s.coreIn i) := by
  have hin : ∀ p ∈ Core.reportedOn (s.coreIn i), o p = true := fun p hp =>
    h.tokens p (reportedOn_mem hre hr hp)
  simp only [Core.mem_reportedOn] at hin
  exact ⟨fun hv => hin _ (.inl ⟨hv, rfl⟩), fun hv => hin _ (.inr (.inl ⟨hv, rfl⟩)),
    fun hv => hin _ (.inr (.inr ⟨hv, rfl⟩))⟩

theorem Reports.step {o : RobPtr → Bool} (h : s.Reports o) (hre : backMachine.Reach env s)
    (hr : s.l1d.NoFlushRace) (hb : s.core.BankReady (s.coreIn i)) :
    (s.step i).Reports (Core.everAllocated o s.core (s.coreIn i)) := by
  refine ⟨h.zero.step (h.allocated hre hr) hb, fun p hp => ?_⟩
  have hold : o p = true → Core.everAllocated o s.core (s.coreIn i) p = true := fun ho =>
    Core.writeIf_eq (Core.writeIf_eq ho fun _ _ => rfl) fun _ _ => rfl
  cases hd : s.core.rDsDone
  · have hin := (inFlight_step (i := i) hre hr hd).symm ▸ Multiset.mem_add.mpr (.inl hp)
    obtain hin | hin := Multiset.mem_add.mp hin
    · exact hold (h.tokens p hin)
    obtain ⟨h1, rfl⟩ | ⟨h2, rfl⟩ := Core.mem_sentOff.mp hin
    · exact Core.writeIf_eq ((writeIf_apply ..).trans (if_pos ⟨Core.tPush_alloc.1 h1, rfl⟩))
        fun _ _ => rfl
    · rw [Core.everAllocated, writeIf_apply, if_pos ⟨Core.tPush_alloc.2 h2, rfl⟩]
  · exact hold (h.tokens p
      (Multiset.mem_of_le (inFlight_drain (i := i) hre hr hd) (Multiset.mem_add.mpr (.inl hp))))

theorem reports_reset (h : backMachine.reset s) : s.Reports fun _ => false := by
  have h0 := inFlight_reset h
  obtain ⟨⟨rob, bob, dq, hc⟩, -⟩ := h
  exact ⟨hc ▸ Core.init_zeroInv rob bob dq, fun p hp => absurd (h0 ▸ hp) (Multiset.notMem_zero p)⟩

/-- **Only free registers are handed out** in the composed machine as well, under the conditions
that no flush of the data cache overtakes a load and the serializing uops find a register. -/
theorem reach_allocates_iff
    (h : backMachine.Reach (fun s i => s.l1d.NoFlushRace ∧ s.core.BankReady (s.coreIn i)) s) :
    s.core.rPrfFree 0 = false ∧
      (s.core.AllocatesFree (s.coreIn i) ↔ s.core.BankReady (s.coreIn i)) := by
  have hall : ∃ o, s.Reports o := by
    induction h with
    | reset h0 => exact ⟨_, reports_reset h0⟩
    | step hre he ih =>
        obtain ⟨o, ho⟩ := ih
        exact ⟨_, ho.step hre he.1 he.2⟩
  obtain ⟨o, ho⟩ := hall
  exact ⟨ho.zero.prfFree, Core.allocatesFree_iff ho.zero.prfFree⟩

end Back
end Rv32Core
