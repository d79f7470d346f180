import Rv32Core.Back.Slots
import Rv32Core.Exec.Operands

/-! # The core supplies its execution unit in order

A run of the three modules is watched with the uops of the slots and the registers of the execution
unit.  The registers that loads are to write are those of the requests the data cache holds; a
register still to be written or still to be read is that of a slot in the ROB, and so not free; and
what a flush leaves behind has been written when the next uop is pushed.  So the uops arrive in the
order the execution unit relies on, and it starts each of them on the right operands. -/

namespace Rv32Core

open Clocked RingBuffer

/-- The uops of the slots and what the execution unit has done. -/
structure FlowLog where
  slots : RobPtr → Slot
  operands : OperandLog

/-- The requests of a slot have its destination, and loads have one. -/
theorem Slot.Sent.writes_iff {x : Slot} {q : MemReq} {e : RobEntry} {p : RobPtr} {r : PrfPtr}
    (h : x.Sent q) (hx : Core.SlotOk p x e) :
    x.Writes r ↔ q.dstValid = true ∧ q.dstPtr = r := by
  constructor
  · rintro ⟨hd, rfl⟩
    have hload := (h.load hx hd).1
    obtain ⟨-, -, a, hb⟩ := h
    exact ⟨hload, hb.dstPtr⟩
  · rintro ⟨hd, rfl⟩
    exact h.writes hx hd

/-- What is left of a balance without repetition. -/
theorem mem_of_balance {α : Type*} {a b c : Multiset α} (h : a + b = c) (hn : c.Nodup) (x : α) :
    x ∈ a ↔ x ∈ c ∧ x ∉ b := by
  subst h
  have hdis := (Multiset.nodup_add.mp hn).2.2
  rw [Multiset.mem_add]
  constructor
  · exact fun hx => ⟨.inl hx, Multiset.disjoint_left.mp hdis hx⟩
  · exact fun ⟨hx, hb⟩ => hx.resolve_right hb

namespace Back

variable {s : Back} {i : BackIn} {env : Back → BackIn → Prop} {l : FlowLog} {p : RobPtr}
  {r : PrfPtr}

/-- The log after a cycle. -/
def watchFlow (l : FlowLog) (s : Back) (i : BackIn) : FlowLog where
  slots := Core.watchSlots l.slots s.core (s.coreIn i)
  operands := Exec.watchOperands l.operands s.exec (s.execIn i)

/-- The log before the first cycle. -/
def emptyFlow : FlowLog := ⟨fun _ => ⟨Uop.zero, Uop.zero⟩, Exec.emptyOperands⟩

/-- The composed machine with the log of the uops and the registers. -/
def flowMachine : Machine (Back × FlowLog) BackIn := backMachine.observed emptyFlow watchFlow

/-- No architectural fault is taken, and the registers handed out are free. -/
structure Regular (s : Back) (i : BackIn) : Prop where
  noFault : s.core.rState ≠ .archFault
  free : s.core.AllocatesFree (s.coreIn i)

/-- **What a regular run asks**: no architectural fault, and a register in the bank that each
serializing uop allocates from. -/
theorem regular_iff
    (h : backMachine.Reach (fun s i => s.core.rState ≠ .archFault ∧ s.core.BankReady (s.coreIn i)) s) :
    s.Regular i ↔ s.core.rState ≠ .archFault ∧ s.core.BankReady (s.coreIn i) := by
  have hrun : (∃ d, s.FaultFree d) ∧
      backMachine.Reach (fun s i => s.l1d.NoFlushRace ∧ s.core.BankReady (s.coreIn i)) s := by
    induction h with
    | reset h0 => exact ⟨⟨⟨Uop.zero, false⟩, faultFree_reset h0⟩, .reset h0⟩
    | @step s i hre he ih =>
        obtain ⟨⟨d, hf⟩, hr⟩ := ih
        have hq := hf.inv.noFlushRace (L1d.reach_reqInv (reach_l1d hre)) (hf.calm i).quiet
        exact ⟨⟨_, hf.step hre he.1⟩, hr.step ⟨hq, he.2⟩⟩
  have hfree := (reach_allocates_iff (i := i) hrun.2).2
  exact ⟨fun hc => ⟨hc.noFault, hfree.mp hc.free⟩, fun hc => ⟨hc.1, hfree.mpr hc.2⟩⟩

/-- Regular runs of the watched machine. -/
def RegularRun (x : Back × FlowLog) (i : BackIn) : Prop := x.1.Regular i

/-- The slots have their uops, the execution unit is supplied in order, the data cache owes the
registers of the loads it holds, and nothing is left of a flush once uops may be pushed again. -/
structure FlowInv (s : Back) (l : FlowLog) : Prop where
  slotsInv : s.SlotsInv l.slots
  supplied : Exec.operandExec.Reach Exec.InOrder (s.exec, l.operands)
  loads : ∀ r, r ∈ l.operands.loads ↔ ∃ p ∈ s.cacheSlots, (l.slots p).Writes r
  left : s.core.rDsDone = false → l.operands.left = 0

/-! ### What is still to be written or read -/

/-- A register still to be written is that of a slot in flight. -/
theorem SlotsInv.writer {l : RobPtr → Slot} (hs : s.SlotsInv l) {loads : Multiset PrfPtr}
    (hl : ∀ r ∈ loads, ∃ p ∈ s.cacheSlots, (l p).Writes r) (hr : r ∈ s.exec.writers loads) :
    ∃ p ∈ s.inFlight, (l p).Writes r := by
  have huop : ∀ {u : Uop}, u.robPtr ∈ s.inFlight → u = (l u.robPtr).renamed →
      r ∈ u.dsts → (l u.robPtr).Writes r := by
    intro u hin hu hd
    obtain ⟨hv, he⟩ := mem_single.mp hd
    refine ⟨?_, by rw [← hu]; exact he⟩
    rw [← (hs.window.slots _ (hs.inRob _ hin)).dstValid, ← hu]
    exact hv
  unfold Exec.writers at hr
  simp only [Multiset.mem_add, Multiset.mem_bind] at hr
  obtain ((((⟨u, hu, hd⟩ | hd) | hd) | ⟨u, hu, hd⟩) | ⟨q, hq, hd⟩) | hd := hr
  · have hu' : u ∈ s.exec.waiting + s.exec.onPorts := Multiset.mem_add.mpr hu
    exact ⟨_, waiting_inFlight hu', huop (waiting_inFlight hu') (hs.int u hu') hd⟩
  · obtain ⟨k, -, hk⟩ := Multiset.mem_sum.mp hd
    obtain ⟨hc, rfl⟩ := mem_single.mp hk
    exact ⟨_, mul_inFlight hc, hs.mul k hc⟩
  · obtain ⟨hk, rfl⟩ := mem_single.mp hd
    have hk' := of_decide_eq_true hk
    exact ⟨_, div_inFlight hk', hs.div hk'⟩
  · exact ⟨_, memWaiting_inFlight hu, huop (memWaiting_inFlight hu) (hs.mem u hu) hd⟩
  · obtain ⟨hv, rfl⟩ := mem_single.mp hd
    have hin := sent_inFlight (Multiset.mem_coe.mp hq)
    exact ⟨_, hin, (hs.sent q hq).writes (hs.window.slots _ (hs.inRob _ hin)) hv⟩
  · obtain ⟨p, hp, hw⟩ := hl r hd
    exact ⟨p, Multiset.mem_of_le cacheSlots_le hp, hw⟩

theorem FlowInv.writer (h : s.FlowInv l) (hr : r ∈ s.exec.writers l.operands.loads) :
    ∃ p ∈ s.inFlight, (l.slots p).Writes r :=
  h.slotsInv.writer (fun r => (h.loads r).mp) hr

theorem SlotsInv.writers_zero {l : RobPtr → Slot} (hs : s.SlotsInv l) {loads : Multiset PrfPtr}
    (hl : ∀ r ∈ loads, ∃ p ∈ s.cacheSlots, (l p).Writes r) (h0 : s.inFlight = 0) :
    s.exec.writers loads = 0 := by
  refine Multiset.eq_zero_of_forall_notMem fun r hr => ?_
  obtain ⟨p, hp, -⟩ := hs.writer hl hr
  rw [h0] at hp
  exact Multiset.notMem_zero p hp

theorem SlotsInv.reads {l : RobPtr → Slot} (h : s.SlotsInv l) (hp : s.core.InRob p)
    (hr : (l p).renamed.Reads r) : s.core.rPrfFree r = false := by
  obtain ⟨a, b, d, q, hren⟩ := (h.window.slots p hp).renames
  have ha : (l p).renamed.srcAValid = (l p).decoded.srcAValid := by rw [hren]
  have hb : (l p).renamed.srcBValid = (l p).decoded.srcBValid := by rw [hren]
  obtain ⟨hv, rfl⟩ | ⟨hv, rfl⟩ := hr
  · exact h.window.src hp (Slot.mem_reads.mpr (.inl ⟨ha ▸ hv, rfl⟩))
  · exact h.window.src hp (Slot.mem_reads.mpr (.inr ⟨hb ▸ hv, rfl⟩))

/-- A register still to be read is not free. -/
theorem FlowInv.reads (h : s.FlowInv l) (hd : s.DataInv) (hr : s.exec.Reads 0 r) :
    s.core.rPrfFree r = false := by
  have hs := h.slotsInv
  obtain ⟨u, hu, hr⟩ | ⟨u, hu, hr⟩ | ⟨d, hmem, rfl⟩ := hr
  · have hu' : u ∈ s.exec.waiting + s.exec.onPorts := Multiset.mem_add.mpr (.inl hu)
    exact hs.reads (hs.inRob _ (waiting_inFlight hu')) (hs.int u hu' ▸ hr)
  · have hu' : u ∈ s.exec.memWaiting := Multiset.mem_add.mpr (.inl hu)
    exact hs.reads (hs.inRob _ (memWaiting_inFlight hu')) (hs.mem u hu' ▸ hr)
  · rw [List.drop_zero] at hmem
    have hin := (hd.waits d.robPtr (Multiset.mem_add.mpr
      (.inl (Multiset.mem_coe.mpr (List.mem_map_of_mem hmem))))).1
    obtain ⟨hv, he⟩ := hs.data d hmem
    exact hs.window.src hin (Slot.mem_reads.mpr (.inr ⟨hv, congrArg (Prod.mk _) he⟩))

/-! ### The uops pushed arrive in order -/

theorem pushes_free (ha : s.core.AllocatesFree (s.coreIn i))
    (h : Exec.pushes (s.execIn i) r = true) : s.core.rPrfFree r = true := by
  have hmem : ∃ u ∈ Exec.pushedUops (s.execIn i), u.dstValid = true ∧ u.dst = r := by
    unfold Exec.pushes at h
    simp only [Bool.or_eq_true, Bool.and_eq_true, beq_iff_eq] at h
    obtain ⟨⟨hp, hv⟩, rfl⟩ | ⟨⟨hp, hv⟩, rfl⟩ := h
    · exact ⟨_, by simp [Exec.pushedUops, hp], hv, rfl⟩
    · exact ⟨_, by simp [Exec.pushedUops, hp], hv, rfl⟩
  obtain ⟨u, hu, hv, rfl⟩ := hmem
  exact (pushed_dst ha hu hv).1

theorem pushed_pair (h2 : (s.execIn i).uqPushTwo = true)
    (hv1 : (s.execIn i).uqUop.dstValid = true) (hv2 : (s.execIn i).uqUopTwo.dstValid = true) :
    (s.execIn i).uqUop.dst ≠ (s.execIn i).uqUopTwo.dst := by
  have hpush2 : (s.core.tPush2 (s.coreIn i) && s.core.tPush1 (s.coreIn i)) = true := h2
  rw [Bool.and_eq_true] at hpush2
  have huop : (s.execIn i).uqUop = s.core.tAllocUop (s.coreIn i) := if_pos hpush2.2
  have huop2 : (s.execIn i).uqUopTwo = s.core.tAllocUop2 (s.coreIn i) := rfl
  have ha1 := Core.tPush_alloc.1 hpush2.2
  have ha2 := Core.tPush_alloc.2 hpush2.1
  rw [huop] at hv1 ⊢
  have hv1' : s.core.tUop.dstValid = true := hv1
  have hv2' : s.core.tUop2.dstValid = true := hv2
  rw [huop2, s.core.tAllocUop_dst _ ha1 hv1', s.core.tAllocUop2_dst _ ha2 hv2']
  have hact := (Core.tAllocTwo_tAlloc ha2).2.1
  exact (Core.nPrfEntry_ne (Core.nPrfEntry_free hact ha1 hv1').2
    (Core.nPrfEntry2_free ha2 hv2').2).symm

theorem FlowInv.answers (h : s.FlowInv l) (hreq : s.l1d.ReqInv) (hn : s.l1d.NoNop)
    (hv : (s.execIn i).memRspDstValid = true) :
    (s.execIn i).memRspDstPtr ∈ l.operands.loads := by
  obtain ⟨q, hq, ha⟩ := L1d.answer_held hreq hn (L1d.valid_of_dstValid hv)
  have hin := h.slotsInv.inRob _ (held_inFlight hq)
  have hw := (h.slotsInv.held q hq).writes (h.slotsInv.window.slots _ hin) (ha.dst hv)
  rw [← ha.dstPtr] at hw
  exact (h.loads _).mpr ⟨q.robPtr, held_cacheSlots hq, hw⟩

/-- **The core supplies the execution unit in order.** -/
theorem FlowInv.inOrder (h : s.FlowInv l) (hi : s.Inv) (hd : s.DataInv)
    (hre : backMachine.Reach env s) (ha : s.core.AllocatesFree (s.coreIn i)) :
    Exec.InOrder (s.exec, l.operands) (s.execIn i) where
  polite := polite
  pushable := pushed_pushable hi.occ.ptrs (Core.dqDecoded_of_reach (reach_core hre)).2 ha
  fresh := by
    intro r hr
    have hfree := pushes_free ha hr
    refine ⟨fun hw => ?_, fun hread => ?_⟩
    · obtain ⟨p, hp, hw⟩ := h.writer hw
      obtain ⟨hu, -⟩ := h.slotsInv.window.dst (h.slotsInv.inRob p hp) hw.1
      rw [hw.2, hfree] at hu
      cases hu
    · rw [h.reads hd hread] at hfree
      cases hfree
  pair := fun _ => pushed_pair
  sources := by
    intro u hu r _
    have hal : (s.core.ctl (s.coreIn i)).tAlloc = true := by
      obtain ⟨h1, -⟩ | ⟨h2, -⟩ := pushed_cases hu
      · exact Core.tPush_alloc.1 h1
      · exact (Core.tAllocTwo_tAlloc (Core.tPush_alloc.2 h2)).1
    have hleft := h.left (hi.occ.ds.of_alloc hal)
    rw [hleft]
    exact Multiset.notMem_zero r
  answers := h.answers (L1d.reach_reqInv (reach_l1d hre)) (L1d.reach_noNop (reach_l1d hre))

/-! ### One cycle -/

theorem Inv.cacheSlots_step (hi : s.Inv) (hre : backMachine.Reach env s) (hr : s.l1d.NoFlushRace) :
    p ∈ (s.step i).cacheSlots ↔ (p ∈ s.cacheSlots ∨ p ∈ s.exec.handedOver (s.execIn i)) ∧
      p ∉ (s.l1d.answered (s.l1dIn i)).map Prod.fst := by
  have hb := congrArg (Multiset.map Prod.fst)
    (L1d.pending_step (i := s.l1dIn i) (L1d.reach_reqInv (reach_l1d hre)) hr)
  rw [Multiset.map_add, Multiset.map_add, ← handedOver_eq] at hb
  have hn := Multiset.nodup_add.mp hi.tokens.nodup
  have hnd : (s.cacheSlots + s.exec.handedOver (s.execIn i)).Nodup := by
    refine Multiset.nodup_add.mpr ⟨hn.2.1, ?_, Multiset.disjoint_left.mpr fun hc ha => ?_⟩
    · rw [Exec.handedOver]
      cases (s.execIn i).memReqAck <;> simp
    · have hin : _ ∈ s.exec.inFlight :=
        Multiset.mem_add.mpr (.inr (Exec.handedOver_mem polite ha))
      exact Multiset.disjoint_left.mp hn.2.2 hin hc
  rw [← Multiset.mem_add]
  exact mem_of_balance hb hnd p

theorem Inv.accepted_fresh (hi : s.Inv) (hp : p ∈ s.exec.handedOver (s.execIn i)) :
    p ∉ s.cacheSlots := by
  have hn := Multiset.nodup_add.mp hi.tokens.nodup
  have hin : p ∈ s.exec.inFlight := Multiset.mem_add.mpr (.inr (Exec.handedOver_mem polite hp))
  exact Multiset.disjoint_left.mp hn.2.2 hin

theorem SlotsInv.answered {l : RobPtr → Slot} (h : s.SlotsInv l) (hreq : s.l1d.ReqInv)
    (hn : s.l1d.NoNop) (hp : p ∈ (s.l1d.answered (s.l1dIn i)).map Prod.fst) :
    p ∈ s.cacheSlots ∧ (s.l1dCtl i).nCoreMemRsp.robPtr = p ∧ ∀ r, (l p).Writes r ↔
      (s.execIn i).memRspDstValid = true ∧ (s.execIn i).memRspDstPtr = r := by
  unfold L1d.answered at hp
  split_ifs at hp with hv
  · obtain ⟨q, hq, ha⟩ := L1d.answer_held hreq hn hv
    rw [Multiset.map_singleton, Multiset.mem_singleton] at hp
    obtain rfl : p = q.robPtr := hp.trans ha.robPtr
    have hin := h.inRob _ (held_inFlight hq)
    have hx := h.window.slots _ hin
    refine ⟨held_cacheSlots hq, ha.robPtr, fun r => ⟨fun hw => ?_, fun ⟨hd, hr⟩ => ?_⟩⟩
    · obtain ⟨hd, hst, hop⟩ := (h.held q hq).load hx hw.1
      exact ⟨ha.load hd hst hop, ha.dstPtr.trans (((h.held q hq).writes_iff hx).mp hw).2⟩
    · exact ((h.held q hq).writes_iff hx).mpr ⟨ha.dst hd, ha.dstPtr.symm.trans hr⟩
  · exact absurd hp (Multiset.notMem_zero p)

theorem SlotsInv.accepted {l : RobPtr → Slot} (h : s.SlotsInv l)
    (hp : p ∈ s.exec.handedOver (s.execIn i)) : (s.execIn i).memReqAck = true ∧
      s.exec.memReq.robPtr = p ∧ s.core.InRob p ∧ (l p).Sent s.exec.memReq := by
  obtain ⟨ha, rfl⟩ := mem_single.mp hp
  have hv := (polite (s := s) (i := i)).reqAck ha
  rw [Exec.memReqValid, Bool.not_eq_true'] at hv
  have hhead : s.exec.memReq ∈ s.exec.rMemQ.view := ExecQueue.head_mem hv
  exact ⟨ha, rfl, h.inRob _ (sent_inFlight hhead), h.sent _ hhead⟩

theorem FlowInv.loads_step (h : s.FlowInv l) (hi : s.Inv) (hre : backMachine.Reach env s)
    (hr : s.l1d.NoFlushRace) (r : PrfPtr) : r ∈ (watchFlow l s i).operands.loads ↔
      ∃ p ∈ (s.step i).cacheSlots, ((watchFlow l s i).slots p).Writes r := by
  have hs := h.slotsInv
  have hreq := L1d.reach_reqInv (reach_l1d hre)
  have hn := L1d.reach_noNop (reach_l1d hre)
  have hkeep : ∀ {p}, s.core.InRob p → (watchFlow l s i).slots p = l.slots p := fun hin =>
    Core.watchSlots_of_inRob hi.occ.ptrs hin
  have hcache : ∀ {p}, p ∈ s.cacheSlots → s.core.InRob p := fun hp =>
    hs.inRob _ (Multiset.mem_of_le cacheSlots_le hp)
  have hnd : l.operands.loads.Nodup :=
    (Multiset.nodup_add.mp (Exec.operandInv_of_reach h.supplied).once).2.1
  have hmem : r ∈ (watchFlow l s i).operands.loads ↔
      (r ∈ l.operands.loads ∧
        ¬((s.execIn i).memRspDstValid = true ∧ (s.execIn i).memRspDstPtr = r)) ∨
      ((s.execIn i).memReqAck = true ∧ s.exec.memReq.dstValid = true ∧
        s.exec.memReq.dstPtr = r) := by
    show r ∈ Exec.nLoads l.operands.loads s.exec (s.execIn i) ↔ _
    rw [Exec.nLoads, Multiset.mem_add, mem_single, Bool.and_eq_true, and_assoc]
    cases (s.execIn i).memRspDstValid
    · simp
    · rw [if_pos rfl, hnd.mem_erase_iff, and_comm (a := r ≠ _), ne_comm]
      simp
  rw [hmem, h.loads]
  constructor
  · rintro (⟨⟨p, hp, hw⟩, hno⟩ | ⟨hack, hv, hd⟩)
    · refine ⟨p, (hi.cacheSlots_step hre hr).mpr ⟨.inl hp, fun ha => ?_⟩, ?_⟩
      · exact hno (((hs.answered hreq hn ha).2.2 r).mp hw)
      · rw [hkeep (hcache hp)]
        exact hw
    · have hp : s.exec.memReq.robPtr ∈ s.exec.handedOver (s.execIn i) := mem_single.mpr ⟨hack, rfl⟩
      obtain ⟨-, -, hin, hsent⟩ := hs.accepted hp
      refine ⟨_, (hi.cacheSlots_step hre hr).mpr ⟨.inr hp, fun ha => ?_⟩, ?_⟩
      · exact hi.accepted_fresh hp (hs.answered hreq hn ha).1
      · rw [hkeep hin]
        exact (hsent.writes_iff (hs.window.slots _ hin)).mpr ⟨hv, hd⟩
  · rintro ⟨p, hp, hw⟩
    obtain ⟨hp | hp, hno⟩ := (hi.cacheSlots_step hre hr).mp hp
    · rw [hkeep (hcache hp)] at hw
      refine .inl ⟨⟨p, hp, hw⟩, fun hans => ?_⟩
      -- the answer of another slot would have the same register
      have hv := L1d.valid_of_dstValid (s := s.l1d) (i := s.l1dIn i) hans.1
      have ha : (s.l1dCtl i).nCoreMemRsp.robPtr ∈
          (s.l1d.answered (s.l1dIn i)).map Prod.fst := by
        rw [L1d.answered, if_pos hv]
        exact Multiset.mem_singleton_self _
      obtain ⟨ha', -, hiff⟩ := hs.answered hreq hn ha
      have hw' := (hiff r).mpr hans
      have he := hs.window.dst_inj (hcache hp) (hcache ha') hw.1 hw'.1 (hw.2.trans hw'.2.symm)
      exact hno (he ▸ ha)
    · obtain ⟨hack, rfl, hin, hsent⟩ := hs.accepted hp
      rw [hkeep hin] at hw
      exact .inr ⟨hack, (hsent.writes_iff (hs.window.slots _ hin)).mp hw⟩

theorem Inv.inFlight_fall (hi : s.Inv) (hi' : (s.step i).Inv) (hre : backMachine.Reach env s)
    (hr : s.l1d.NoFlushRace) (hd : s.core.rDsDone = true)
    (hd' : (s.step i).core.rDsDone = false) : (s.step i).inFlight = 0 := by
  refine inFlight_none hre hr hd ?_
  have hnd : ¬Core.Drains (s.step i).core.rState := fun hx => by
    rw [hi'.occ.ds.drains hx] at hd'
    cases hd'
  have hnot : s.core.rState ≠ .drain := fun hs => by
    by_cases hx : (s.step i).core.rState = .drain
    · exact hnd (.inl hx)
    · exact hnd (.inr (leaves_drain hs hx).2.2)
  have hf : ¬s.Flushed := fun hf => hnot hf.1
  obtain (hs | hs) | hs := hi.occ.ds.up hd
  · exact absurd hs hnot
  · exact hi.tokens.inFlight_zero hf (hi.occ.inflight.rat hs)
  · exact hi.tokens.inFlight_zero hf (hi.occ.still (.inl hs))

/-- **One cycle keeps the invariant.** -/
theorem FlowInv.step (h : s.FlowInv l) {d : SerialLog} (hf : s.FaultFree d)
    (hre : backMachine.Reach env s) (hc : s.Regular i) :
    (s.step i).FlowInv (watchFlow l s i) := by
  have hi := hf.inv
  have hr := hi.noFlushRace (L1d.reach_reqInv (reach_l1d hre)) (hf.calm i).quiet
  have hi' := hi.step (i := i) hre (hf.calm i)
  have hop := Exec.operandInv_of_reach h.supplied
  have hslots := h.slotsInv.step hi hf.data hre (hf.calm i) hf.noWrite.2 hc.free hop.uops
  have hloads := h.loads_step (i := i) hi hre hr
  have hsup : Exec.operandExec.Reach Exec.InOrder
      ((s.step i).exec, (watchFlow l s i).operands) :=
    .step h.supplied (h.inOrder hi hf.data hre hc.free)
  refine ⟨hslots, hsup, hloads, fun hd' => ?_⟩
  have hleft : (watchFlow l s i).operands.left = if s.core.rDsDone then
      (s.step i).exec.writers (watchFlow l s i).operands.loads
    else l.operands.left - s.exec.written (s.execIn i) := rfl
  rw [hleft]
  cases hd : s.core.rDsDone
  · rw [if_neg Bool.false_ne_true, h.left hd]
    exact Multiset.zero_sub _
  · rw [if_pos rfl]
    exact hslots.writers_zero (fun r => (hloads r).mp) (hi.inFlight_fall hi' hre hr hd hd')

theorem flowInv_reset (h : backMachine.reset s) : s.FlowInv emptyFlow where
  slotsInv := slotsInv_reset h
  supplied := .reset ⟨h.2.1, rfl⟩
  loads r := by
    have hc : s.cacheSlots = 0 := by
      obtain ⟨-, -, p, hl⟩ := h
      rw [cacheSlots, hl, L1d.init_pending]
      rfl
    rw [hc]
    constructor
    · exact fun hr => absurd hr (Multiset.notMem_zero r)
    · rintro ⟨p, hp, -⟩
      exact absurd hp (Multiset.notMem_zero p)
  left _ := rfl

/-! ### Runs -/

/-- What holds in a regular run. -/
structure Flowing (s : Back) (l : FlowLog) : Prop where
  reach : backMachine.Reach Regular s
  faultFree : ∃ d, s.FaultFree d
  flow : s.FlowInv l

theorem Flowing.step (h : s.Flowing l) (hc : s.Regular i) :
    (s.step i).Flowing (watchFlow l s i) := by
  obtain ⟨d, hf⟩ := h.faultFree
  exact ⟨.step h.reach hc, ⟨_, hf.step h.reach hc.noFault⟩, h.flow.step hf h.reach hc⟩

theorem reach_flow {x : Back × FlowLog} (h : flowMachine.Reach RegularRun x) : x.1.Flowing x.2 := by
  induction h with
  | reset h0 =>
      obtain ⟨hs, hl⟩ := h0
      exact ⟨.reset hs, ⟨⟨Uop.zero, false⟩, faultFree_reset hs⟩, hl ▸ flowInv_reset hs⟩
  | step _ he ih => exact ih.step he

theorem Flowing.inOrder (h : s.Flowing l) (hc : s.Regular i) :
    Exec.InOrder (s.exec, l.operands) (s.execIn i) := by
  obtain ⟨d, hf⟩ := h.faultFree
  exact h.flow.inOrder hf.inv hf.data h.reach hc.free

/-- **The pipeline reads the right operands.**  In every run of the three modules from reset in
which no architectural fault is taken and every register handed out is free, the uops the core
pushes and the answers of the data cache come in the order the execution unit relies on; so for
every uop that starts on one of the integer ports and every memory uop whose address is computed,
what the muxes select for a source is 0 for register 0 and else the value last written to the
register, and nothing in the execution unit or the data cache is still to write it. -/
theorem pipeline_operands (h : flowMachine.Reach RegularRun (s, l)) :
    (∀ i, s.Regular i → Exec.InOrder (s.exec, l.operands) (s.execIn i)) ∧
    (s.exec.rStartInt = true →
      (s.exec.intUop.srcAValid = true →
        s.exec.Current l.operands s.exec.intUop.srcA s.exec.tSrcA) ∧
      (s.exec.intUop.srcBValid = true →
        s.exec.Current l.operands s.exec.intUop.srcB s.exec.tSrcB)) ∧
    (s.exec.rStartInt2 = true →
      (s.exec.intUop2.srcAValid = true →
        s.exec.Current l.operands s.exec.intUop2.srcA s.exec.tSrcA2) ∧
      (s.exec.intUop2.srcBValid = true →
        s.exec.Current l.operands s.exec.intUop2.srcB s.exec.tSrcB2)) ∧
    (s.exec.rMemReady = true → s.exec.memUq.srcAValid = true →
      s.exec.Current l.operands s.exec.memUq.srcA s.exec.tMemSrcA) := by
  have hx := reach_flow h
  have ho := Exec.operandInv_of_reach hx.flow.supplied
  refine ⟨fun i hc => hx.inOrder hc, fun hs => ⟨fun hv => ?_, fun hv => ?_⟩,
    fun hs => ⟨fun hv => ?_, fun hv => ?_⟩, fun hs hv => ?_⟩
  · exact ((ho.port1 hs).1.current hv).1
  · exact ((ho.port1 hs).2.current hv).1
  · exact ((ho.port2 hs).1.current hv).1
  · exact ((ho.port2 hs).2.current hv).1
  · exact ((ho.mem hs).current hv).2

/-! ### A run -/

instance (s : Back) (i : BackIn) : Decidable (s.Regular i) :=
  decidable_of_iff (s.core.rState ≠ .archFault ∧ s.core.AllocatesFree (s.coreIn i))
    ⟨fun h => ⟨h.1, h.2⟩, fun h => ⟨h.1, h.2⟩⟩

instance (x : Back × FlowLog) (i : BackIn) : Decidable (RegularRun x i) :=
  inferInstanceAs (Decidable (x.1.Regular i))

theorem asleep_operands (n : ℕ) {i : ExecIn} (hd : i.dsDone = false) (h1 : i.uqPush = false)
    (h2 : i.uqPushTwo = false) (ha : i.memReqAck = false) (hv : i.memRspDstValid = false)
    (b : Bool) :
    Exec.watchOperands { Exec.emptyOperands with fresh := b } (Exec.asleep n) i =
      { Exec.emptyOperands with fresh := true } := by
  have hdue : Exec.nDue (fun _ => false) (Exec.asleep n) i = fun _ => false := by
    funext r
    rw [Exec.nDue, Exec.pushes, hd, h1, h2]
    rfl
  have hregs : Exec.nRegs (fun _ => none) (Exec.asleep n) i = fun _ => none := by
    rw [Exec.nRegs, hv]
    cases n <;> rfl
  have hloads : Exec.nLoads 0 (Exec.asleep n) i = 0 := by
    rw [Exec.nLoads, ha, hv]
    rfl
  have hold : (if i.memDqClr then 0 else 0 - ((Exec.asleep n).tPopMemDq i).toNat) = 0 := by
    rw [Nat.zero_sub, ite_self]
  rw [Exec.watchOperands, hd]
  simp only [Exec.emptyOperands, hdue, hregs, hloads, hold, Bool.false_eq_true, if_false,
    Multiset.zero_sub]
  rfl

/-- The log of a machine that starts up. -/
def startFlow (s : Back) : FlowLog :=
  { emptyFlow with
    operands := { Exec.emptyOperands with fresh := s.exec.completeBundle1.complete } }

/-- A machine that starts up does nothing irregular, and its log stays empty. -/
theorem asleep_regular (n : ℕ) (a b : SetIdx) : (asleep n a b).Regular BackIn.idle ∧
    watchFlow (startFlow (asleep n a b)) (asleep n a b) BackIn.idle =
      startFlow ((asleep n a b).step BackIn.idle) := by
  have hr : (asleep n a b).core.rState = .flushForHalt := by cases n <;> rfl
  have ha : ((asleep n a b).core.ctl ((asleep n a b).coreIn BackIn.idle)).tAlloc = false := by
    rw [Core.ctl_tAlloc, hr]
  have ha2 : ((asleep n a b).core.ctl ((asleep n a b).coreIn BackIn.idle)).tAllocTwo = false :=
    Bool.eq_false_iff.mpr fun h2 => by
      rw [(Core.tAllocTwo_tAlloc h2).1] at ha
      cases ha
  refine ⟨⟨by rw [hr]; decide, fun h => ?_, fun h => ?_⟩, ?_⟩
  · rw [ha] at h
    cases h
  · rw [ha2] at h
    cases h
  · have hslots : Core.watchSlots emptyFlow.slots (asleep n a b).core
        ((asleep n a b).coreIn BackIn.idle) = emptyFlow.slots := by
      rw [Core.watchSlots, ha, ha2]
      rfl
    obtain ⟨-, hack, -, hrsp⟩ := L1d.walking_quiet a b ((asleep n a b).l1dIn BackIn.idle)
    have hops := asleep_operands n (i := (asleep n a b).execIn BackIn.idle) (by cases n <;> rfl)
      (by cases n <;> rfl) (by cases n <;> rfl) hack (congrArg MemRsp.dstValid hrsp)
      (asleep n a b).exec.completeBundle1.complete
    rw [step_asleep]
    exact congrArg₂ FlowLog.mk hslots hops

theorem reach_boot_flow : flowMachine.Reach RegularRun (boot, startFlow boot) := by
  refine reach_boot (M := flowMachine) (fun s => (s, startFlow s)) BackIn.idle
    (.reset ⟨reset_start, rfl⟩) ?_
  rintro s (rfl | ⟨n, a, b, rfl⟩)
  · exact ⟨⟨nofun, nofun, nofun⟩, rfl⟩
  · obtain ⟨hc, hs⟩ := asleep_regular n a b
    exact ⟨hc, congrArg (Prod.mk _) hs⟩

/-- `addi x1, x0, 5` and `add x2, x1, x1` are fetched together. -/
def addInputs : List BackIn :=
  BackIn.bootInputs ++ [{ BackIn.fetch 0 0x00500093 with
    insnTwo := ⟨0x00108133, 4, 8, false, 0⟩, insnValidTwo := true }] ++
    List.replicate 4 BackIn.idle

/-- The `add` has started on port 2. -/
def addStarted : Back × FlowLog := flowMachine.run (boot, startFlow boot) addInputs

/-- Both its operands are the 5 that the `addi` is just writing to the register. -/
theorem pipeline_operands_add : addStarted.1.exec.tSrcA2 = 5 ∧ addStarted.1.exec.tSrcB2 = 5 := by
  have h := (pipeline_operands (s := addStarted.1) (l := addStarted.2)
    (.run reach_boot_flow (by decide +kernel))).2.2.1 (by decide +kernel)
  exact ⟨(h.1 (by decide +kernel)).last 5 (by decide +kernel),
    (h.2 (by decide +kernel)).last 5 (by decide +kernel)⟩

end Back
end Rv32Core
