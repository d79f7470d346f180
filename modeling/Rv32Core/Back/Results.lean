import Rv32Core.Back.Delivery
import Rv32Core.Back.Supply

/-! # Every slot is given the effect of its instruction

A run is watched further with the last answer of the data cache to each slot.  Until the core
drains, an operation under way in a unit works on the values of its sources, a request was built
from the value of its base register, and an entry that is complete has an effect that its uop has
on the values of its sources.  These values stay where they are until the entry leaves the ROB: the
registers of a slot are in use, so nothing new is to write them. -/

namespace Rv32Core

open Clocked RingBuffer AgeMatrix

/-- The uops, the registers, and the last answer to each slot. -/
structure ResultLog where
  flow : FlowLog
  answers : RobPtr → MemRsp

/-! ### The entry of a slot -/

namespace Core

variable {s : Core} {i : CoreIn} {p : RobPtr}

/-- An entry in the ROB changes by the one report on it. -/
theorem entry_reported (hp : s.Ptrs) (hs : s.rState ≠ .rat) (hn : (reportedOn i).Nodup)
    (hin : s.InRob p) :
    (i.tCompleteValid1 = true ∧ i.tCompleteBundle1.robPtr = p ∧
      (s.step i).rRob p = completeEntry i.tCompleteBundle1 (s.rRob p)) ∨
    (i.tCompleteValid2 = true ∧ i.tCompleteBundle2.robPtr = p ∧
      (s.step i).rRob p = completeEntry i.tCompleteBundle2 (s.rRob p)) ∨
    (i.coreMemRspValid = true ∧ i.coreMemRsp.robPtr = p ∧
      (s.step i).rRob p = memEntry i.coreMemRsp (s.rRob p)) ∨
    (p ∉ reportedOn i ∧ (s.step i).rRob p = s.rRob p) := by
  have hc : (s.ctl i).tClrRob = false := by rw [ctl_tClrRob, decide_eq_false hs]
  have h1 : ¬((s.ctl i).tAlloc = true ∧ p = idx s.rRobTailPtr) := fun ⟨ha, he⟩ =>
    hp.tail_fresh ha (he ▸ hin)
  have h2 : ¬((s.ctl i).tAllocTwo = true ∧ p = idx s.rRobNextTailPtr) := fun ⟨ha, he⟩ =>
    hp.nextTail_fresh ha (he ▸ hin)
  have hrob : (s.step i).rRob p = s.nRob i p := rfl
  rw [reportedOn, Multiset.nodup_add, Multiset.nodup_add] at hn
  rw [hrob, mem_reportedOn, nRob, hc, if_neg Bool.false_ne_true]
  simp only [modifyIf_apply, writeIf_apply, if_neg h1, if_neg h2, eq_comm (b := p)]
  by_cases hc1 : i.tCompleteValid1 = true ∧ p = i.tCompleteBundle1.robPtr
  · have hc2 : ¬(i.tCompleteValid2 = true ∧ p = i.tCompleteBundle2.robPtr) := fun hc2 =>
      Multiset.disjoint_left.mp hn.1.2.2 (mem_single.mpr ⟨hc1.1, hc1.2.symm⟩)
        (mem_single.mpr ⟨hc2.1, hc2.2.symm⟩)
    have hc3 : ¬(i.coreMemRspValid = true ∧ p = i.coreMemRsp.robPtr) := fun hc3 =>
      Multiset.disjoint_left.mp hn.2.2
        (Multiset.mem_add.mpr (.inl (mem_single.mpr ⟨hc1.1, hc1.2.symm⟩)))
        (mem_single.mpr ⟨hc3.1, hc3.2.symm⟩)
    rw [if_neg hc3, if_neg hc2, if_pos hc1]
    exact .inl ⟨hc1.1, hc1.2, rfl⟩
  rw [if_neg hc1]
  by_cases hc2 : i.tCompleteValid2 = true ∧ p = i.tCompleteBundle2.robPtr
  · have hc3 : ¬(i.coreMemRspValid = true ∧ p = i.coreMemRsp.robPtr) := fun hc3 =>
      Multiset.disjoint_left.mp hn.2.2
        (Multiset.mem_add.mpr (.inr (mem_single.mpr ⟨hc2.1, hc2.2.symm⟩)))
        (mem_single.mpr ⟨hc3.1, hc3.2.symm⟩)
    rw [if_neg hc3, if_pos hc2]
    exact .inr (.inl ⟨hc2.1, hc2.2, rfl⟩)
  rw [if_neg hc2]
  by_cases hc3 : i.coreMemRspValid = true ∧ p = i.coreMemRsp.robPtr
  · rw [if_pos hc3]
    exact .inr (.inr (.inl ⟨hc3.1, hc3.2, rfl⟩))
  · rw [if_neg hc3]
    exact .inr (.inr (.inr ⟨by tauto, rfl⟩))

theorem entry_allocated (hp : s.Ptrs) (hrep : ∀ p ∈ reportedOn i, s.InRob p) :
    ((s.ctl i).tAlloc = true → (s.step i).rRob (idx s.rRobTailPtr) = s.tRobTail i ∧
      (s.step i).rRobComplete (idx s.rRobTailPtr) = s.tFoldUop) ∧
    ((s.ctl i).tAllocTwo = true → (s.step i).rRob (idx s.rRobNextTailPtr) = s.tRobNextTail i ∧
      (s.step i).rRobComplete (idx s.rRobNextTailPtr) = s.tFoldUop2) := by
  have hno : ∀ {q}, ¬s.InRob q → ¬((i.tCompleteValid1 = true ∧ q = i.tCompleteBundle1.robPtr) ∨
      (i.tCompleteValid2 = true ∧ q = i.tCompleteBundle2.robPtr) ∨
      (i.coreMemRspValid = true ∧ q = i.coreMemRsp.robPtr)) := fun {q} hq hr =>
    hq (hrep q (mem_reportedOn.mpr (by simpa only [eq_comm (b := q)] using hr)))
  have hrob : ∀ q, (s.step i).rRob q = s.nRob i q := fun _ => rfl
  have hcomp : ∀ q, (s.step i).rRobComplete q = s.nRobComplete i q := fun _ => rfl
  refine ⟨fun ha => ?_, fun ha => ?_⟩
  · have hs : s.rState ≠ .rat := fun hs => by
      rw [ctl_tAlloc, hs] at ha
      cases ha
    have hc : (s.ctl i).tClrRob = false := by rw [ctl_tClrRob, decide_eq_false hs]
    have hn := hno (hp.tail_fresh ha)
    simp only [not_or] at hn
    rw [hrob, hcomp, nRob, nRobComplete, hc, if_neg Bool.false_ne_true, if_neg Bool.false_ne_true]
    simp only [modifyIf_apply, writeIf_apply, if_neg hn.1, if_neg hn.2.1, if_neg hn.2.2]
    have h2 : ¬((s.ctl i).tAllocTwo = true ∧ idx s.rRobTailPtr = idx s.rRobNextTailPtr) :=
      fun h => hp.nextTail_ne h.2.symm
    rw [if_neg h2, if_neg h2, if_pos ⟨ha, trivial⟩, if_pos ⟨ha, trivial⟩]
    exact ⟨rfl, rfl⟩
  · have hs : s.rState ≠ .rat := by
      rw [(tAllocTwo_tAlloc ha).2.1]
      decide
    have hc : (s.ctl i).tClrRob = false := by rw [ctl_tClrRob, decide_eq_false hs]
    have hn := hno (hp.nextTail_fresh ha)
    simp only [not_or] at hn
    rw [hrob, hcomp, nRob, nRobComplete, hc, if_neg Bool.false_ne_true, if_neg Bool.false_ne_true]
    simp only [modifyIf_apply, writeIf_apply, if_neg hn.1, if_neg hn.2.1, if_neg hn.2.2]
    rw [if_pos ⟨ha, trivial⟩, if_pos ⟨ha, trivial⟩]
    exact ⟨rfl, rfl⟩

theorem complete_reported (hp : s.Ptrs) (hs : s.rState ≠ .rat) (hc : Completes i)
    (hin : s.InRob p) :
    (s.step i).rRobComplete p = true ↔ s.rRobComplete p = true ∨ p ∈ reportedOn i := by
  have hclr : (s.ctl i).tClrRob = false := by rw [ctl_tClrRob, decide_eq_false hs]
  have h1 : ¬((s.ctl i).tAlloc = true ∧ p = idx s.rRobTailPtr) := fun ⟨ha, he⟩ =>
    hp.tail_fresh ha (he ▸ hin)
  have h2 : ¬((s.ctl i).tAllocTwo = true ∧ p = idx s.rRobNextTailPtr) := fun ⟨ha, he⟩ =>
    hp.nextTail_fresh ha (he ▸ hin)
  have hcomp : (s.step i).rRobComplete p = s.nRobComplete i p := rfl
  rw [hcomp, mem_reportedOn, nRobComplete, hclr, if_neg Bool.false_ne_true]
  simp only [writeIf_apply, if_neg h1, if_neg h2, eq_comm (b := p)]
  split_ifs with h3 h4 h5
  · simp [h3]
  · simp [h4, hc.two h4.1]
  · simp [h5, hc.one h5.1]
  · tauto

end Core

namespace Back

variable {s : Back} {i : BackIn} {l : FlowLog} {p : RobPtr} {r : PrfPtr} {x : Slot} {a b v : Word}

/-! ### What a regular run gives a cycle -/

theorem Flowing.inv (h : s.Flowing l) : s.Inv := h.faultFree.choose_spec.inv

theorem Flowing.noFlushRace (h : s.Flowing l) : s.l1d.NoFlushRace :=
  h.inv.noFlushRace (L1d.reach_reqInv (reach_l1d h.reach))
    (h.faultFree.choose_spec.calm BackIn.idle).quiet

theorem Flowing.operands (h : s.Flowing l) : s.exec.OperandInv l.operands :=
  Exec.operandInv_of_reach h.flow.supplied

theorem Flowing.ports (h : s.Flowing l) : s.exec.PortInv :=
  Exec.portInv_of_reach (reach_exec h.reach)

theorem Flowing.moves (h : s.Flowing l) (hd : s.core.rDsDone = false) : s.Moves i :=
  h.inv.moves h.reach h.noFlushRace hd

theorem Flowing.execMoves (h : s.Flowing l) (hc : s.Regular i) :
    s.exec.Moves l.operands (s.execIn i) := by
  obtain ⟨q, hq⟩ := (reach_exec h.reach).exists_observed Exec.emptyLog Exec.watchQueues
  obtain ⟨age, ho⟩ := AluSched.ordered_of_reach (Exec.reach_sched (reach_exec h.reach))
  obtain ⟨age2, ho2⟩ := AluSched.ordered_of_reach (Exec.reach_sched2 (reach_exec h.reach))
  exact (h.inOrder hc).moves h.operands.once h.operands.uops (Exec.queuesInv_of_reach hq) h.ports
    ho ho2

theorem Flowing.slot (h : s.Flowing l) (hin : s.core.InRob p) :
    (watchFlow l s i).slots p = l.slots p := Core.watchSlots_of_inRob h.inv.occ.ptrs hin

theorem not_pushes (hc : s.Regular i) (hr : s.core.rPrfFree r = false) :
    Exec.pushes (s.execIn i) r = false := Bool.eq_false_iff.mpr fun hp => by
  rw [pushes_free hc.free hp] at hr
  cases hr

/-! ### The values of a slot -/

/-- The register has the value `v`, and nothing is still to write it. -/
def Has (s : Back) (l : FlowLog) (r : PrfPtr) (v : Word) : Prop := s.exec.Has l.operands.loads r v

theorem Flowing.has_step (h : s.Flowing l) (hc : s.Regular i) (hr : s.core.rPrfFree r = false)
    (hv : s.Has l r v) : (s.step i).Has (watchFlow l s i) r v :=
  (h.execMoves hc).has hv (not_pushes hc hr)

/-- A register written in this cycle. -/
theorem Flowing.has_written (h : s.Flowing l) (hc : s.Regular i)
    (hw : s.exec.writes (s.execIn i) r = true)
    (hv : Exec.nRegs l.operands.regs s.exec (s.execIn i) r = some v) :
    (s.step i).Has (watchFlow l s i) r v :=
  (h.execMoves hc).has_written h.ports h.operands.nonzero hw hv

/-- The sources of a slot have the values `a` and `b`.  The second source of a memory uop is its
store data, which goes another way. -/
structure Sources (s : Back) (l : FlowLog) (x : Slot) (a b : Word) : Prop where
  srcA : x.decoded.srcAValid = true → s.Has l x.renamed.srcA a
  srcB : x.decoded.isMem = false → x.decoded.srcBValid = true → s.Has l x.renamed.srcB b

/-- The slot has the effect `o`: it was folded, or executed on the values its sources still have,
and its destination has the result. -/
inductive Finished (s : Back) (l : FlowLog) (x : Slot) (c : MemRsp) : Effect → Prop
  | folded (hf : Core.folds x.decoded.op = true) : Finished s l x c (.initial x.decoded)
  | executed {o : Effect} (a b : Word) (hf : Core.folds x.decoded.op = false)
      (hr : x.decoded.Runs a b c o) (hs : s.Sources l x a b)
      (hd : x.decoded.dstValid = true → s.Has l x.renamed.dst o.data) : Finished s l x c o

theorem Flowing.sources_step (h : s.Flowing l) (hc : s.Regular i) (hin : s.core.InRob p)
    (hs : s.Sources l (l.slots p) a b) : (s.step i).Sources (watchFlow l s i) (l.slots p) a b where
  srcA hv := h.has_step hc
    (h.flow.slotsInv.window.src hin (Slot.mem_reads.mpr (.inl ⟨hv, rfl⟩))) (hs.srcA hv)
  srcB hm hv := h.has_step hc
    (h.flow.slotsInv.window.src hin (Slot.mem_reads.mpr (.inr ⟨hv, rfl⟩))) (hs.srcB hm hv)

theorem Flowing.finished_step (h : s.Flowing l) (hc : s.Regular i) (hin : s.core.InRob p)
    {c : MemRsp} {o : Effect} (hf : s.Finished l (l.slots p) c o) :
    (s.step i).Finished (watchFlow l s i) (l.slots p) c o := by
  cases hf with
  | folded hf => exact .folded hf
  | executed a b hf hr hs hd =>
      exact .executed a b hf hr (h.sources_step hc hin hs) fun hv =>
        h.has_step hc (h.flow.slotsInv.window.dst hin hv).1 (hd hv)

/-! ### The ports -/

theorem Sources.of_uop {u : Uop} (he : u = x.renamed) (hr : u.Renames x.decoded)
    (ha : u.srcAValid = true → s.Has l u.srcA a)
    (hb : u.isMem = false → u.srcBValid = true → s.Has l u.srcB b) : s.Sources l x a b := by
  obtain ⟨-, -, hm, hav, hbv, -⟩ := hr.kept
  rw [hav] at ha
  rw [hm, hbv] at hb
  exact ⟨fun hv => he ▸ ha hv, fun hm hv => he ▸ hb hm hv⟩

/-- A source that is settled keeps the value it is read with. -/
theorem has_of_operand {port : ReadPort} {valid : Bool}
    (ho : s.exec.Operand l.operands port valid r) (hv : valid = true) (hr : v = s.exec.value r) :
    s.Has l r v := ⟨hr.symm, ((ho.current hv).1).settled.1⟩

theorem Flowing.port_slot (h : s.Flowing l) {u : Uop} (hu : u ∈ s.exec.waiting + s.exec.onPorts) :
    s.core.InRob u.robPtr ∧ u = (l.slots u.robPtr).renamed ∧ u.Renames (l.slots u.robPtr).decoded ∧
      u.Pushable ∧ u.isInt = true := by
  have hin := h.flow.slotsInv.inRob _ (waiting_inFlight hu)
  have heq := h.flow.slotsInv.int _ hu
  have hr := (h.flow.slotsInv.window.slots _ hin).renames
  rw [← heq] at hr
  exact ⟨hin, heq, hr, h.operands.uops.int _ hu⟩

theorem port1_mem (hs : s.exec.rStartInt = true) :
    s.exec.intUop ∈ s.exec.waiting + s.exec.onPorts :=
  Multiset.mem_add.mpr (.inr (Multiset.mem_add.mpr (.inl (mem_single.mpr ⟨hs, rfl⟩))))

theorem port2_mem (hs : s.exec.rStartInt2 = true) :
    s.exec.intUop2 ∈ s.exec.waiting + s.exec.onPorts :=
  Multiset.mem_add.mpr (.inr (Multiset.mem_add.mpr (.inr (mem_single.mpr ⟨hs, rfl⟩))))

theorem Flowing.port1_sources (h : s.Flowing l) (hs : s.exec.rStartInt = true) :
    s.Sources l (l.slots s.exec.intUop.robPtr) s.exec.tSrcA s.exec.tSrcB := by
  obtain ⟨-, heq, hr, -⟩ := h.port_slot (port1_mem hs)
  have hv := Exec.readsValues_of_reach h.flow.supplied
  have ho := h.operands.port1 hs
  exact .of_uop heq hr (fun ha => has_of_operand ho.1 ha (hv.srcA hs ha))
    fun _ hb => has_of_operand ho.2 hb (hv.srcB hs hb)

theorem Flowing.port2_sources (h : s.Flowing l) (hs : s.exec.rStartInt2 = true) :
    s.Sources l (l.slots s.exec.intUop2.robPtr) s.exec.tSrcA2 s.exec.tSrcB2 := by
  obtain ⟨-, heq, hr, -⟩ := h.port_slot (port2_mem hs)
  have hv := Exec.readsValues_of_reach h.flow.supplied
  have ho := h.operands.port2 hs
  exact .of_uop heq hr (fun ha => has_of_operand ho.1 ha (hv.srcA2 hs ha))
    fun _ hb => has_of_operand ho.2 hb (hv.srcB2 hs hb)

theorem Flowing.mem_sources (h : s.Flowing l) (hs : s.exec.rMemReady = true) :
    s.Sources l (l.slots s.exec.memUq.robPtr) s.exec.tMemSrcA 0 ∧
      s.exec.tMemTail.BuiltFor (l.slots s.exec.memUq.robPtr).renamed s.exec.tMemSrcA := by
  have hm : s.exec.memUq ∈ s.exec.memWaiting :=
    Multiset.mem_add.mpr (.inr (mem_single.mpr ⟨hs, rfl⟩))
  have hin := h.flow.slotsInv.inRob _ (memWaiting_inFlight hm)
  have heq := h.flow.slotsInv.mem _ hm
  have hr := (h.flow.slotsInv.window.slots _ hin).renames
  rw [← heq] at hr
  have hv := Exec.readsValues_of_reach h.flow.supplied
  have ho := h.operands.mem hs
  have hmem := (h.operands.uops.mem _ hm).2
  refine ⟨.of_uop heq hr (fun ha => ⟨(hv.mem hs ha).symm, ((ho.current ha).2).settled.1⟩)
    fun hn => ?_, s.exec, heq, rfl, rfl⟩
  rw [hmem] at hn
  cases hn

/-- Port 2 is given cheap uops only, and every report completes its slot. -/
theorem reportsInv {env : Back → BackIn → Prop} (h : backMachine.Reach env s) :
    s.exec.ReportsInv := Exec.reportsInv_of_reach <|
  h.map (N := execMachine) Back.exec execIn (fun _ (h0 : backMachine.reset _) => h0.2.1)
    (fun _ _ _ => rfl) fun _ _ hr _ => ⟨polite, fun _ hu =>
      eitherPort_of_push (Core.dqDecoded_of_reach (reach_core hr)).2
        (Core.dqDecoded_of_reach (reach_core hr)).1 hu⟩

/-- An integer uop with a destination that is sent off writes its register, on port 1 or by a
unit. -/
theorem writes_of_dst {u : Uop} (hu : u.Pushable) (hi : u.isInt = true) (hd : u.dstValid = true) :
    u.op.writes = true ∧ OnPort1 u.op = true := by
  have hf := hu.executed
  obtain ⟨f, _, _, _, _, rfl⟩ := hu.decoded
  have hok : Decoded (decodeRiscv f).op = true := decoded_of_isInt f hi
  dsimp only at hf hd
  have hw : (decodeRiscv f).op.writes = true := by
    obtain ho | hv := decodeRiscv_dstFits f hi
    · rw [ho] at hf
      cases hf
    · exact hv.symm.trans hd
  refine ⟨hw, ?_⟩
  rw [Decoded, hf, Bool.false_or, Bool.or_eq_true] at hok
  refine hok.resolve_right fun ht => ?_
  revert ht hw
  cases (decodeRiscv f).op <;> intro ht hw <;> first | cases ht; done | cases hw

/-- **Port 1 gives a slot its effect.** -/
theorem Flowing.port1_done (h : s.Flowing l) (hc : s.Regular i) (c : MemRsp)
    (hs : s.exec.rStartInt = true) (hv : s.exec.alu.aluValid = true) :
    (s.step i).Finished (watchFlow l s i) (l.slots s.exec.intUop.robPtr) c
      (.port s.exec.alu) := by
  obtain ⟨hin, heq, hr, hp, hint⟩ := h.port_slot (port1_mem hs)
  obtain ⟨hop, hi, -, -, -, hdv⟩ := hr.kept
  have hu : s.exec.intUop.op.usesUnit = false := by
    rw [Exec.alu, Port1.aluValid_eq, Bool.not_eq_true'] at hv
    exact hv
  have halu : s.exec.alu = Port1.alu s.exec.counters (l.slots s.exec.intUop.robPtr).decoded
      s.exec.tSrcA s.exec.tSrcB := Port1.alu_renames hr
  refine .executed _ _ (hop ▸ hp.executed) ?_ (h.sources_step hc hin (h.port1_sources hs))
    fun hd => ?_
  · rw [halu]
    exact .port _ (hi ▸ hint) (hop ▸ hp.executed) (hop ▸ hu)
  · rw [← hdv] at hd
    obtain ⟨hw, hport⟩ := writes_of_dst hp hint hd
    have hwr : s.exec.wrInt = true :=
      Bool.and_eq_true _ _ |>.mpr ⟨hs, Port1.wrIntPrf_of_writes hw hu hport⟩
    rw [← congrArg Uop.dst heq]
    exact h.has_written hc (Exec.writes_iff.mpr (.inr (.inl ⟨hwr, rfl⟩)))
      ((Exec.nRegs_of_writes (h.execMoves hc).apart _).2.1 ⟨hwr, rfl⟩)

/-- **Port 2 gives a slot its effect.** -/
theorem Flowing.port2_done (h : s.Flowing l) (hc : s.Regular i) (c : MemRsp)
    (hs : s.exec.rStartInt2 = true) :
    (s.step i).Finished (watchFlow l s i) (l.slots s.exec.intUop2.robPtr) c
      s.exec.nCompleteBundle2.effect := by
  obtain ⟨hin, heq, hr, hp, hint⟩ := h.port_slot (port2_mem hs)
  obtain ⟨hop, hi, -, -, -, hdv⟩ := hr.kept
  have hrep := reportsInv h.reach
  have hboth : OnBothPorts s.exec.intUop2.op = true := hrep.either _ (port2_mem hs)
    (hrep.cheap _ (Multiset.mem_add.mpr (.inr (mem_single.mpr ⟨hs, rfl⟩))))
  have hu : s.exec.intUop2.op.usesUnit = false := by
    revert hboth
    cases s.exec.intUop2.op <;> intro hb <;> first | rfl | cases hb
  have halu : s.exec.alu2 = Port1.alu s.exec.counters s.exec.intUop2 s.exec.tSrcA2 s.exec.tSrcB2 :=
    (Port2.alu_eq_eval _ _ _ _ hboth).trans (Port1.alu_eq_eval _ _ _ _ hboth).symm
  have hbundle : s.exec.nCompleteBundle2.effect = .port s.exec.alu2 := by
    have hun : s.exec.alu2.unimpOp = false := Port2.unimpOp_of_onBothPorts hboth
    rw [Complete.effect, Exec.nCompleteBundle2, Effect.port, hun, Bool.or_false]
  rw [hbundle]
  refine .executed _ _ (hop ▸ hp.executed) ?_ (h.sources_step hc hin (h.port2_sources hs))
    fun hd => ?_
  · rw [halu, Port1.alu_renames hr]
    exact .port _ (hi ▸ hint) (hop ▸ hp.executed) (hop ▸ hu)
  · rw [← hdv] at hd
    obtain ⟨hw, hport⟩ := writes_of_dst hp hint hd
    have hwr : s.exec.wrInt2 = true := by
      rw [Exec.wrInt2, hs, halu]
      exact Port1.wrIntPrf_of_writes hw hu hport
    rw [← congrArg Uop.dst heq]
    exact h.has_written hc (Exec.writes_iff.mpr (.inr (.inr (.inl ⟨hwr, rfl⟩))))
      ((Exec.nRegs_of_writes (h.execMoves hc).apart _).2.2.1 ⟨hwr, rfl⟩)

/-! ### What is under way -/

/-- What is under way works on the values of its slot, the reports and the complete entries have
the effects of their uops, and the other entries are as they were allocated. -/
structure ResultInv (s : Back) (l : ResultLog) : Prop where
  mul : ∀ k, s.exec.mul.rComplete k = true → ∃ a b,
    s.exec.mul.Holds k (l.flow.slots (s.exec.mul.rRobPtr k)).decoded.op a b ∧
      s.Sources l.flow (l.flow.slots (s.exec.mul.rRobPtr k)) a b
  div : s.exec.div.rState ≠ .idle → ∃ a b,
    s.exec.div.Works (l.flow.slots s.exec.div.rRobPtr).decoded.op a b ∧
      s.Sources l.flow (l.flow.slots s.exec.div.rRobPtr) a b
  one : s.exec.completeValid1 = true → ∀ c, s.Finished l.flow
    (l.flow.slots s.exec.completeBundle1.robPtr) c s.exec.completeBundle1.effect
  two : s.exec.completeValid2 = true → ∀ c, s.Finished l.flow
    (l.flow.slots s.exec.completeBundle2.robPtr) c s.exec.completeBundle2.effect
  sent : ∀ q ∈ s.exec.rMemQ.view, ∃ a b, s.Sources l.flow (l.flow.slots q.robPtr) a b ∧
    q.BuiltFor (l.flow.slots q.robPtr).renamed a
  held : ∀ q, s.l1d.Holds q → ∃ a b, s.Sources l.flow (l.flow.slots q.robPtr) a b ∧
    q.BuiltFor (l.flow.slots q.robPtr).renamed a
  fresh : ∀ p, s.core.InRob p → s.core.rRobComplete p = false →
    (s.core.rRob p).effect = .initial (l.flow.slots p).decoded
  done : ∀ p, s.core.InRob p → s.core.rRobComplete p = true →
    s.Finished l.flow (l.flow.slots p) (l.answers p) (s.core.rRob p).effect

/-- The log after a cycle. -/
def watchResults (l : ResultLog) (s : Back) (i : BackIn) : ResultLog where
  flow := watchFlow l.flow s i
  answers := l.answers
    |> writeIf (s.l1dCtl i).nCoreMemRspValid (s.l1dCtl i).nCoreMemRsp.robPtr
        (s.l1dCtl i).nCoreMemRsp

variable {m : ResultLog}

theorem folds_of_unit {op : Opcode} (h : usesMul op = true ∨ usesDiv op = true) :
    Core.folds op = false := by
  cases op <;> first | rfl | exact absurd h (by decide)

theorem ResultInv.mul_done (hr : s.ResultInv m) (h : s.Flowing m.flow) (hc : s.Regular i)
    (c : MemRsp) (hm : s.exec.mul.complete = true) :
    (s.step i).Finished (watchFlow m.flow s i) (m.flow.slots s.exec.mul.robPtrOut) c
      (.unit (s.exec.mul.y.setWidth 32)) := by
  obtain ⟨a, b, hh, hsrc⟩ := hr.mul 3 hm
  have hin := h.flow.slotsInv.inRob _ (mul_inFlight hm)
  obtain ⟨hd, hdst⟩ := h.flow.slotsInv.mul 3 hm
  have hres := hh.result
  refine .executed a b ?_ ?_ (h.sources_step hc hin hsrc) fun _ => ?_
  · exact folds_of_unit (.inl hh.1)
  · rw [hres]
    exact .mul hh.1
  · have hptr : (m.flow.slots s.exec.mul.robPtrOut).renamed.dst = s.exec.mul.prfPtrOut := hdst
    rw [hptr]
    exact h.has_written hc (Exec.writes_iff.mpr (.inr (.inr (.inr (.inl ⟨hm, rfl⟩)))))
      ((Exec.nRegs_of_writes (h.execMoves hc).apart _).2.2.2.1 ⟨hm, rfl⟩)

theorem ResultInv.div_done (hr : s.ResultInv m) (h : s.Flowing m.flow) (hc : s.Regular i)
    (c : MemRsp) (hv : s.exec.div.complete = true) :
    (s.step i).Finished (watchFlow m.flow s i) (m.flow.slots s.exec.div.robPtrOut) c
      (.unit s.exec.div.result) := by
  have hst : s.exec.div.rState ≠ .idle := by
    rw [of_decide_eq_true hv]
    decide
  obtain ⟨a, b, hw, hsrc⟩ := hr.div hst
  have hin := h.flow.slotsInv.inRob _ (div_inFlight hst)
  obtain ⟨hd, hdst⟩ := h.flow.slotsInv.div hst
  have hres := hw.result hv
  refine .executed a b ?_ ?_ (h.sources_step hc hin hsrc) fun _ => ?_
  · exact folds_of_unit (.inr hw.1)
  · rw [hres]
    exact .div hw.1
  · have hptr : (m.flow.slots s.exec.div.robPtrOut).renamed.dst = s.exec.div.prfPtrOut := hdst
    rw [hptr]
    exact h.has_written hc (Exec.writes_iff.mpr (.inr (.inr (.inr (.inr ⟨hv, rfl⟩)))))
      ((Exec.nRegs_of_writes (h.execMoves hc).apart _).2.2.2.2 ⟨hv, rfl⟩)

/-! ### One cycle -/

theorem ResultInv.mul_step (hr : s.ResultInv m) (h : s.Flowing m.flow) (hc : s.Regular i)
    {k : Fin 4} (hk : (s.step i).exec.mul.rComplete k = true) : ∃ a b,
    (s.step i).exec.mul.Holds k
      ((watchFlow m.flow s i).slots ((s.step i).exec.mul.rRobPtr k)).decoded.op a b ∧
    (s.step i).Sources (watchFlow m.flow s i)
      ((watchFlow m.flow s i).slots ((s.step i).exec.mul.rRobPtr k)) a b := by
  have hcomp : (s.step i).exec.mul.rComplete k =
    if k = 0 then (s.exec.mulIn (s.execIn i)).go else s.exec.mul.rComplete (k - 1) := rfl
  have hrob : (s.step i).exec.mul.rRobPtr k =
    if k = 0 then s.exec.intUop.robPtr else s.exec.mul.rRobPtr (k - 1) := rfl
  rw [hrob]
  rw [hcomp] at hk
  by_cases h0 : k = 0
  · subst h0
    rw [if_pos rfl] at hk ⊢
    have hgo : (usesMul s.exec.intUop.op && (s.exec.rStartInt && !(s.execIn i).dsDone) &&
      s.exec.rStartInt) = true := hk
    rw [Bool.and_eq_true, Bool.and_eq_true] at hgo
    obtain ⟨hin, -, hren, -⟩ := h.port_slot (port1_mem hgo.2)
    rw [h.slot hin]
    refine ⟨_, _, ?_, h.sources_step hc hin (h.port1_sources hgo.2)⟩
    rw [← hren.kept.1]
    exact Exec.mul_start hgo.1.1
  · rw [if_neg h0] at hk ⊢
    obtain ⟨a, b, hh, hs⟩ := hr.mul _ hk
    have hin := h.flow.slotsInv.inRob _ (mul_inFlight hk)
    rw [h.slot hin]
    exact ⟨a, b, hh.step h0 _, h.sources_step hc hin hs⟩

theorem ResultInv.div_step (hr : s.ResultInv m) (h : s.Flowing m.flow) (hc : s.Regular i)
    (hk : (s.step i).exec.div.rState ≠ .idle) : ∃ a b,
    (s.step i).exec.div.Works
      ((watchFlow m.flow s i).slots (s.step i).exec.div.rRobPtr).decoded.op a b ∧
    (s.step i).Sources (watchFlow m.flow s i)
      ((watchFlow m.flow s i).slots (s.step i).exec.div.rRobPtr) a b := by
  have hd : (s.step i).exec.div = s.exec.div.step (s.exec.divIn (s.execIn i)) := rfl
  by_cases h0 : s.exec.div.rState = .idle
  · have hst : s.exec.tStartDiv32 (s.execIn i) = true := by
      by_contra hn
      have hn' : (s.exec.divIn (s.execIn i)).startDiv = false := Bool.eq_false_iff.mpr hn
      rw [hd, Divider.step, h0] at hk
      simp [hn'] at hk
    have hptr : (s.step i).exec.div.rRobPtr = s.exec.intUop.robPtr := by
      have hst' : (s.exec.divIn (s.execIn i)).startDiv = true := hst
      rw [hd, Divider.step, h0, hst']
      rfl
    have hgo : (usesDiv s.exec.intUop.op && (s.exec.rStartInt && !(s.execIn i).dsDone)) = true :=
      hst
    rw [Bool.and_eq_true, Bool.and_eq_true] at hgo
    obtain ⟨hin, -, hren, -⟩ := h.port_slot (port1_mem hgo.2.1)
    rw [hptr, h.slot hin]
    refine ⟨_, _, ?_, h.sources_step hc hin (h.port1_sources hgo.2.1)⟩
    rw [← hren.kept.1]
    exact Exec.div_start h0 hst
  · have hptr : (s.step i).exec.div.rRobPtr = s.exec.div.rRobPtr := by
      rw [hd, Divider.step]
      cases hs : s.exec.div.rState with
      | idle => exact absurd hs h0
      | divide | packOutput | waitForWb => rfl
    obtain ⟨a, b, hw, hs⟩ := hr.div h0
    have hin := h.flow.slotsInv.inRob _ (div_inFlight h0)
    rw [hptr, h.slot hin]
    exact ⟨a, b, hw.step (hd ▸ hk), h.sources_step hc hin hs⟩

theorem ResultInv.one_step (hr : s.ResultInv m) (h : s.Flowing m.flow) (hc : s.Regular i)
    (hv : (s.step i).exec.completeValid1 = true) (c : MemRsp) :
    (s.step i).Finished (watchFlow m.flow s i)
      ((watchFlow m.flow s i).slots (s.step i).exec.completeBundle1.robPtr) c
      (s.step i).exec.completeBundle1.effect := by
  have hv' : ((s.exec.rStartInt && s.exec.alu.aluValid) || s.exec.tMulComplete ||
    s.exec.tDivComplete) = true := hv
  have hb : (s.step i).exec.completeBundle1 = s.exec.nCompleteBundle1 := rfl
  rw [hb]
  unfold Exec.nCompleteBundle1
  cases hm : s.exec.tMulComplete
  · cases hd : s.exec.tDivComplete
    · rw [hm, hd, Bool.or_false, Bool.or_false, Bool.and_eq_true] at hv'
      have hin := (h.port_slot (port1_mem hv'.1)).1
      have hdone := h.port1_done hc c hv'.1 hv'.2
      rw [Bool.false_or, if_neg Bool.false_ne_true]
      show (s.step i).Finished _ ((watchFlow m.flow s i).slots s.exec.intUop.robPtr) c _
      rw [h.slot hin]
      exact hdone
    · have hst : s.exec.div.rState ≠ .idle := by
        rw [of_decide_eq_true hd]
        decide
      have hin := h.flow.slotsInv.inRob _ (div_inFlight hst)
      have hdone := hr.div_done h hc c hd
      rw [Bool.false_or, if_pos rfl]
      show (s.step i).Finished _ ((watchFlow m.flow s i).slots s.exec.div.rRobPtr) c _
      rw [h.slot hin]
      exact hdone
  · have hin := h.flow.slotsInv.inRob _ (mul_inFlight hm)
    have hdone := hr.mul_done h hc c hm
    rw [Bool.true_or, if_pos rfl]
    show (s.step i).Finished _ ((watchFlow m.flow s i).slots (s.exec.mul.rRobPtr 3)) c _
    rw [h.slot hin]
    exact hdone

theorem Flowing.two_step (h : s.Flowing l) (hc : s.Regular i)
    (hv : (s.step i).exec.completeValid2 = true) (c : MemRsp) :
    (s.step i).Finished (watchFlow l s i)
      ((watchFlow l s i).slots (s.step i).exec.completeBundle2.robPtr) c
      (s.step i).exec.completeBundle2.effect := by
  have hs : s.exec.rStartInt2 = true := hv
  have hslot := h.slot (i := i) (h.port_slot (port2_mem hs)).1
  have hdone := h.port2_done hc c hs
  rw [← hslot] at hdone
  exact hdone

theorem ResultInv.sent_step (hr : s.ResultInv m) (h : s.Flowing m.flow) (hc : s.Regular i)
    {q : MemReq} (hq : q ∈ (s.step i).exec.rMemQ.view) : ∃ a b,
    (s.step i).Sources (watchFlow m.flow s i) ((watchFlow m.flow s i).slots q.robPtr) a b ∧
      q.BuiltFor ((watchFlow m.flow s i).slots q.robPtr).renamed a := by
  obtain ⟨e, he⟩ := (reach_exec h.reach).exists_observed Exec.emptyLog Exec.watchQueues
  have hin : q ∈ (s.exec.rMemQ.view : Multiset MemReq) +
      single s.exec.rMemReady s.exec.tMemTail := by
    rw [← (Exec.queuesInv_of_reach he).memQ_step (i := s.execIn i) polite]
    exact Multiset.mem_add.mpr (.inl hq)
  obtain hin | hin := Multiset.mem_add.mp hin
  · obtain ⟨a, b, hs, hb⟩ := hr.sent q hin
    have hrob := h.flow.slotsInv.inRob _ (sent_inFlight hin)
    rw [h.slot hrob]
    exact ⟨a, b, h.sources_step hc hrob hs, hb⟩
  · obtain ⟨hready, rfl⟩ := mem_single.mp hin
    have hrob := (h.flow.slotsInv.tMemTail_sent h.operands.uops hready).1
    obtain ⟨hs, hb⟩ := h.mem_sources hready
    rw [Exec.tMemTail_robPtr, h.slot hrob]
    exact ⟨_, _, h.sources_step hc hrob hs, hb⟩

theorem ResultInv.held_step (hr : s.ResultInv m) (h : s.Flowing m.flow) (hc : s.Regular i)
    {q : MemReq} (hq : (s.step i).l1d.Holds q) : ∃ a b,
    (s.step i).Sources (watchFlow m.flow s i) ((watchFlow m.flow s i).slots q.robPtr) a b ∧
      q.BuiltFor ((watchFlow m.flow s i).slots q.robPtr).renamed a := by
  obtain hq | ⟨hack, rfl⟩ := L1d.holds_step (L1d.reach_reqInv (reach_l1d h.reach)) hq
  · obtain ⟨a, b, hs, hb⟩ := hr.held q hq
    have hrob := h.flow.slotsInv.inRob _ (held_inFlight hq)
    rw [h.slot hrob]
    exact ⟨a, b, h.sources_step hc hrob hs, hb⟩
  · have hv : s.exec.memReqValid = true := (L1d.accepts_spec (L1d.reqAck_accepts hack)).1
    rw [Exec.memReqValid, Bool.not_eq_true'] at hv
    have hhead : s.exec.memReq ∈ s.exec.rMemQ.view := ExecQueue.head_mem hv
    obtain ⟨a, b, hs, hb⟩ := hr.sent _ hhead
    have hrob := h.flow.slotsInv.inRob _ (sent_inFlight hhead)
    rw [show (s.l1dIn i).coreMemReq = s.exec.memReq from rfl, h.slot hrob]
    exact ⟨a, b, h.sources_step hc hrob hs, hb⟩

theorem Flowing.reported (h : s.Flowing l) (hd : s.core.rDsDone = false) :
    (Core.reportedOn (s.coreIn i)).Nodup ∧ ∀ p ∈ Core.reportedOn (s.coreIn i),
      s.core.InRob p ∧ s.core.rRobComplete p = false := by
  have hm := h.moves (i := i) hd
  have hn := hm.nodup
  rw [← hm.move] at hn
  refine ⟨(Multiset.nodup_add.mp hn).2.1, fun p hp => ?_⟩
  have hin := hm.reported p hp
  have hf := TokensInv.not_flushed hd h.inv.occ.ds
  exact ⟨hm.inRob p hin,
    h.inv.occ.inflight.incomplete p ((h.inv.tokens.exact hf p).mp hin)⟩

theorem initial_tRobTail (h : (s.coreCtl i).tAlloc = true) :
    (s.core.tRobTail (s.coreIn i)).effect = .initial s.core.tUop := by
  unfold Core.tRobTail
  rw [show (s.core.ctl (s.coreIn i)).tAlloc = true from h]
  simp [RobEntry.effect, Core.robEntryOf, Effect.initial]

theorem initial_tRobNextTail (h : (s.coreCtl i).tAllocTwo = true) :
    (s.core.tRobNextTail (s.coreIn i)).effect = .initial s.core.tUop2 := by
  unfold Core.tRobNextTail
  rw [show (s.core.ctl (s.coreIn i)).tAllocTwo = true from h]
  simp [RobEntry.effect, Core.robEntryOf, Effect.initial]

/-- The slots after a cycle: those that were there, and the ones allocated. -/
theorem Flowing.slot_cases (h : s.Flowing l) (hin : (s.step i).core.InRob p) :
    s.core.InRob p ∨
    ((s.coreCtl i).tAlloc = true ∧ p = idx s.core.rRobTailPtr ∧
      ((watchFlow l s i).slots p).decoded = s.core.tUop) ∨
    ((s.coreCtl i).tAllocTwo = true ∧ p = idx s.core.rRobNextTailPtr ∧
      ((watchFlow l s i).slots p).decoded = s.core.tUop2) := by
  have ho := h.inv.occ
  obtain hin | ⟨ha, rfl⟩ | ⟨ha, rfl⟩ := Core.inRob_of_step ho.ptrs ho.nLeaving_le hin
  · exact .inl hin
  · have hw : (watchFlow l s i).slots (idx s.core.rRobTailPtr) = _ :=
      Core.watchSlots_tail ho.ptrs ha
    exact .inr (.inl ⟨ha, rfl, by rw [hw]⟩)
  · have hw : (watchFlow l s i).slots (idx s.core.rRobNextTailPtr) = _ :=
      Core.watchSlots_nextTail ha
    exact .inr (.inr ⟨ha, rfl, by rw [hw]⟩)

theorem ResultInv.fresh_step (hr : s.ResultInv m) (h : s.Flowing m.flow)
    (hd : s.core.rDsDone = false) (hs : s.core.rState ≠ .rat) (hin : (s.step i).core.InRob p)
    (hlow : (s.step i).core.rRobComplete p = false) :
    ((s.step i).core.rRob p).effect = .initial ((watchFlow m.flow s i).slots p).decoded := by
  have hp := h.inv.occ.ptrs
  obtain ⟨hnd, hrep⟩ := h.reported (i := i) hd
  have hall := Core.entry_allocated (i := s.coreIn i) hp fun p hp => (hrep p hp).1
  obtain hold | ⟨ha, rfl, hdec⟩ | ⟨ha, rfl, hdec⟩ := h.slot_cases hin
  · have hcomp := (Core.complete_reported (i := s.coreIn i) hp hs (completes h.reach) hold).not
    rw [not_or] at hcomp
    have hc' := hcomp.mp (Bool.eq_false_iff.mp hlow)
    have hent : (s.step i).core.rRob p = s.core.rRob p := by
      obtain ⟨hv, rfl, -⟩ | ⟨hv, rfl, -⟩ | ⟨hv, rfl, -⟩ | ⟨-, he⟩ :=
        Core.entry_reported (i := s.coreIn i) hp hs hnd hold
      · exact absurd (Core.mem_reportedOn.mpr (.inl ⟨hv, rfl⟩)) hc'.2
      · exact absurd (Core.mem_reportedOn.mpr (.inr (.inl ⟨hv, rfl⟩))) hc'.2
      · exact absurd (Core.mem_reportedOn.mpr (.inr (.inr ⟨hv, rfl⟩))) hc'.2
      · exact he
    rw [hent, h.slot hold]
    exact hr.fresh p hold (Bool.eq_false_iff.mpr hc'.1)
  · rw [hdec]
    exact (congrArg RobEntry.effect (hall.1 ha).1).trans (initial_tRobTail ha)
  · rw [hdec]
    exact (congrArg RobEntry.effect (hall.2 ha).1).trans (initial_tRobNextTail ha)

theorem effect_completeEntry {e : RobEntry} {u : Uop} (h : e.effect = .initial u) (b : Complete) :
    (Core.completeEntry b e).effect = b.effect := by
  have hb : e.isBadAddr = false := congrArg Effect.isBadAddr h
  simp [RobEntry.effect, Core.completeEntry, Complete.effect, hb]

theorem effect_memEntry {e : RobEntry} {u : Uop} (h : e.effect = .initial u)
    (hf : Core.folds u.op = false) (c : MemRsp) : (Core.memEntry c e).effect = .answer u c := by
  have h1 : e.targetPc = u.pc + 4 := congrArg Effect.targetPc h
  have h2 : e.isIi = (Core.folds u.op && u.op == .ii) := congrArg Effect.isIi h
  have h3 : e.takeBr = (Core.folds u.op && u.op == .j) := congrArg Effect.takeBr h
  rw [hf, Bool.false_and] at h2 h3
  simp [RobEntry.effect, Core.memEntry, Effect.answer, h1, h2, h3]

/-- **The answer of the data cache gives a slot its effect.** -/
theorem ResultInv.mem_done (hr : s.ResultInv m) (h : s.Flowing m.flow) (hc : s.Regular i)
    (hv : (s.l1dCtl i).nCoreMemRspValid = true) :
    (s.step i).Finished (watchFlow m.flow s i) (m.flow.slots (s.l1dCtl i).nCoreMemRsp.robPtr)
      (s.l1dCtl i).nCoreMemRsp
      (.answer (m.flow.slots (s.l1dCtl i).nCoreMemRsp.robPtr).decoded (s.l1dCtl i).nCoreMemRsp) ∧
    Core.folds (m.flow.slots (s.l1dCtl i).nCoreMemRsp.robPtr).decoded.op = false := by
  obtain ⟨q, hq, ha⟩ := L1d.answer_held (L1d.reach_reqInv (reach_l1d h.reach))
    (L1d.reach_noNop (reach_l1d h.reach)) hv
  have hin := h.flow.slotsInv.inRob _ (held_inFlight hq)
  have hx := h.flow.slotsInv.window.slots _ hin
  have hsent := h.flow.slotsInv.held q hq
  obtain ⟨a, b, hs, hb⟩ := hr.held q hq
  have hrob : (s.l1dCtl i).nCoreMemRsp.robPtr = q.robPtr := ha.robPtr
  rw [hrob]
  refine ⟨.executed a b hsent.2.1 (.mem q _ hsent.1 hsent.2.1 hx.renames hb ha)
    (h.sources_step hc hin hs) fun hd => ?_, hsent.2.1⟩
  obtain ⟨hqd, hst, hop⟩ := hsent.load hx hd
  have hvd : (s.execIn i).memRspDstValid = true := ha.load hqd hst hop
  have hptr : (m.flow.slots q.robPtr).renamed.dst = (s.execIn i).memRspDstPtr :=
    hb.dstPtr.symm.trans ha.dstPtr.symm
  rw [hptr]
  exact h.has_written hc (Exec.writes_iff.mpr (.inl ⟨hvd, rfl⟩))
    ((Exec.nRegs_of_writes (h.execMoves hc).apart _).1 ⟨hvd, rfl⟩)

theorem ResultInv.done_step (hr : s.ResultInv m) (h : s.Flowing m.flow) (hc : s.Regular i)
    (hd : s.core.rDsDone = false) (hs : s.core.rState ≠ .rat) (hin : (s.step i).core.InRob p)
    (hcomp : (s.step i).core.rRobComplete p = true) :
    (s.step i).Finished (watchFlow m.flow s i) ((watchFlow m.flow s i).slots p)
      ((watchResults m s i).answers p) ((s.step i).core.rRob p).effect := by
  have hp := h.inv.occ.ptrs
  obtain ⟨hnd, hrep⟩ := h.reported (i := i) hd
  have hall := Core.entry_allocated (i := s.coreIn i) hp fun p hp => (hrep p hp).1
  obtain hold | ⟨ha, rfl, hdec⟩ | ⟨ha, rfl, hdec⟩ := h.slot_cases hin
  · rw [h.slot hold]
    obtain ⟨hv, rfl, he⟩ | ⟨hv, rfl, he⟩ | ⟨hv, rfl, he⟩ | ⟨hno, he⟩ :=
      Core.entry_reported (i := s.coreIn i) hp hs hnd hold
    · have hlow := (hrep _ (Core.mem_reportedOn.mpr (.inl ⟨hv, rfl⟩))).2
      rw [show (s.step i).core.rRob _ = _ from he,
        effect_completeEntry (hr.fresh _ hold hlow)]
      exact h.finished_step hc hold (hr.one hv _)
    · have hlow := (hrep _ (Core.mem_reportedOn.mpr (.inr (.inl ⟨hv, rfl⟩)))).2
      rw [show (s.step i).core.rRob _ = _ from he,
        effect_completeEntry (hr.fresh _ hold hlow)]
      exact h.finished_step hc hold (hr.two hv _)
    · have hlow := (hrep _ (Core.mem_reportedOn.mpr (.inr (.inr ⟨hv, rfl⟩)))).2
      obtain ⟨hdone, hf⟩ := hr.mem_done h hc hv
      rw [show (s.step i).core.rRob _ = _ from he, effect_memEntry (hr.fresh _ hold hlow) hf]
      have hans : (watchResults m s i).answers (s.l1dCtl i).nCoreMemRsp.robPtr =
          (s.l1dCtl i).nCoreMemRsp := by
        show writeIf _ _ _ _ _ = _
        rw [writeIf_apply, if_pos ⟨hv, rfl⟩]
      rw [show (s.coreIn i).coreMemRsp = (s.l1dCtl i).nCoreMemRsp from rfl, hans]
      exact hdone
    · have hans : (watchResults m s i).answers p = m.answers p := by
        show writeIf _ _ _ _ _ = _
        rw [writeIf_apply, if_neg]
        rintro ⟨hv, rfl⟩
        exact hno (Core.mem_reportedOn.mpr (.inr (.inr ⟨hv, rfl⟩)))
      rw [show (s.step i).core.rRob p = _ from he, hans]
      have hwas :=
        (Core.complete_reported (i := s.coreIn i) hp hs (completes h.reach) hold).mp hcomp
      exact h.finished_step hc hold (hr.done p hold (hwas.resolve_right hno))
  · have hf : Core.folds s.core.tUop.op = true := (hall.1 ha).2.symm.trans hcomp
    have he := (congrArg RobEntry.effect (hall.1 ha).1).trans (initial_tRobTail ha)
    rw [show ((s.step i).core.rRob _).effect = _ from he, ← hdec]
    exact .folded (hdec ▸ hf)
  · have hf : Core.folds s.core.tUop2.op = true := (hall.2 ha).2.symm.trans hcomp
    have he := (congrArg RobEntry.effect (hall.2 ha).1).trans (initial_tRobNextTail ha)
    rw [show ((s.step i).core.rRob _).effect = _ from he, ← hdec]
    exact .folded (hdec ▸ hf)

/-- **One cycle keeps the invariant** while the core does not drain. -/
theorem ResultInv.step (hr : s.ResultInv m) (h : s.Flowing m.flow) (hc : s.Regular i)
    (hd : s.core.rDsDone = false) : (s.step i).ResultInv (watchResults m s i) := by
  have hs : s.core.rState ≠ .rat := fun hs => by
    rw [h.inv.occ.ds.drains (.inr hs)] at hd
    cases hd
  exact {
    mul := fun k hk => hr.mul_step h hc hk
    div := fun hk => hr.div_step h hc hk
    one := fun hv c => hr.one_step h hc hv c
    two := fun hv c => h.two_step hc hv c
    sent := fun q hq => hr.sent_step h hc hq
    held := fun q hq => hr.held_step h hc hq
    fresh := fun p hin hlow => hr.fresh_step h hd hs hin hlow
    done := fun p hin hcomp => hr.done_step h hc hd hs hin hcomp }

theorem complete1_inFlight (hv : s.exec.completeValid1 = true) :
    s.exec.completeBundle1.robPtr ∈ s.inFlight :=
  Multiset.mem_of_le reports_le (Multiset.mem_add.mpr (.inl (mem_single.mpr ⟨hv, rfl⟩)))

theorem complete2_inFlight (hv : s.exec.completeValid2 = true) :
    s.exec.completeBundle2.robPtr ∈ s.inFlight :=
  Multiset.mem_of_le reports_le (Multiset.mem_add.mpr (.inr (mem_single.mpr ⟨hv, rfl⟩)))

theorem resultInv_empty (h0 : s.inFlight = 0) (hn : ∀ p, ¬s.core.InRob p) (m : ResultLog) :
    s.ResultInv m := by
  have hno : ∀ {p}, p ∉ s.inFlight := fun {p} hp => Multiset.notMem_zero p (h0 ▸ hp)
  exact {
    mul := fun k hk => absurd (mul_inFlight hk) hno
    div := fun hd => absurd (div_inFlight hd) hno
    one := fun hv => absurd (complete1_inFlight hv) hno
    two := fun hv => absurd (complete2_inFlight hv) hno
    sent := fun q hq => absurd (sent_inFlight hq) hno
    held := fun q hq => absurd (held_inFlight hq) hno
    fresh := fun p hp => absurd hp (hn p)
    done := fun p hp => absurd hp (hn p) }

/-! ### Runs -/

/-- What holds in a regular run: nothing is lost when the core drains, and what is waited for
alone is a serializing uop. -/
structure Working (s : Back) (m : ResultLog) : Prop where
  flowing : s.Flowing m.flow
  boot : s.core.rState = .flushForHalt → s.core.rDsDone = false
  results : s.core.rDsDone = false → s.ResultInv m
  serial : Core.Waits s.core.rState → ∀ p, s.core.InRob p →
    (m.flow.slots p).decoded.serializingOp = true

theorem Working.serial_step (h : s.Working m) (hw : Core.Waits (s.step i).core.rState)
    (hin : (s.step i).core.InRob p) :
    ((watchFlow m.flow s i).slots p).decoded.serializingOp = true := by
  obtain ⟨d, hf⟩ := h.flowing.faultFree
  have ho := h.flowing.inv.occ
  obtain ⟨hs, -, h2, -⟩ | ⟨hs, h0, -⟩ := Core.ctl_waits hw
  · obtain hin | ⟨-, -, hdec⟩ | ⟨ha, -⟩ := h.flowing.slot_cases hin
    · exact absurd hin (Core.not_inRob_of_zero (ho.none hs) p)
    · obtain ⟨-, hu, hz⟩ := hf.serial.waiting hs
      rw [hdec, hu]
      exact hz
    · rw [show (s.coreCtl i).tAllocTwo = false from h2] at ha
      cases ha
  · have hno : (s.core.ctl (s.coreIn i)).tAlloc = false := Bool.eq_false_iff.mpr fun ha => by
      rw [Core.nAllocated, if_pos ha] at h0
      split_ifs at h0
    obtain hin | ⟨ha, -⟩ | ⟨ha, -⟩ := h.flowing.slot_cases hin
    · rw [h.flowing.slot hin]
      exact h.serial hs p hin
    · rw [show (s.coreCtl i).tAlloc = false from hno] at ha
      cases ha
    · rw [(Core.tAllocTwo_tAlloc ha).1] at hno
      cases hno

theorem Working.step (h : s.Working m) (hc : s.Regular i) :
    (s.step i).Working (watchResults m s i) := by
  have hnext := h.flowing.step hc
  have hno := h.flowing.faultFree.choose_spec.noWrite.2
  refine ⟨hnext, Core.boot_step h.boot hno, fun hd' => ?_, fun hw p hin => h.serial_step hw hin⟩
  cases hd : s.core.rDsDone
  · exact (h.results hd).step h.flowing hc hd
  · have hs : s.core.rState = .rat := by
      by_contra hs
      have hlow := h.flowing.inv.occ.ds.low_of_step h.boot hs hd'
      rw [hd] at hlow
      cases hlow
    refine resultInv_empty ?_ (Core.not_inRob_of_zero (Core.robCount_rat hs)) _
    exact h.flowing.inv.inFlight_fall hnext.inv h.flowing.reach h.flowing.noFlushRace hd hd'

/-- The log before the first cycle. -/
def emptyResults : ResultLog := ⟨emptyFlow, fun _ => ⟨0, 0, 0, false, false, 0⟩⟩

theorem working_reset (h : backMachine.reset s) : s.Working emptyResults := by
  have hi := inv_reset h
  have hflow : s.Flowing emptyFlow := reach_flow (x := (s, emptyFlow)) (.reset ⟨h, rfl⟩)
  have h0 := inFlight_reset h
  obtain ⟨⟨rob, bob, dq, hc⟩, -⟩ := h
  have hn : ∀ p, ¬s.core.InRob p := Core.not_inRob_of_zero (by rw [hc]; exact occ_self _)
  exact ⟨hflow, fun _ => by rw [hc]; rfl, fun _ => resultInv_empty h0 hn _,
    fun _ p hp => absurd hp (hn p)⟩

/-- The composed machine with the log of the results. -/
def resultMachine : Machine (Back × ResultLog) BackIn :=
  backMachine.observed emptyResults watchResults

theorem reach_working {x : Back × ResultLog}
    (h : resultMachine.Reach (fun x i => x.1.Regular i) x) : x.1.Working x.2 := by
  induction h with
  | reset h0 =>
      obtain ⟨hs, hl⟩ := h0
      rw [hl]
      exact working_reset hs
  | step _ he ih => exact ih.step he

end Back
end Rv32Core
