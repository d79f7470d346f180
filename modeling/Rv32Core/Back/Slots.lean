import Rv32Core.Back.Semantics
import Rv32Core.Back.Serial
import Rv32Core.Core.Window

/-! # Every uop is the one of its slot

The uops that wait in the execution unit, the operations under way in the multiplier and the
divider, the requests sent to the data cache and those it holds, and the store data waited for all
belong to slots of the ROB, and have the registers these were renamed to.  While the registers
handed out are free, different slots in the ROB have different destinations, and no free register
is read or to be written by any of them. -/

namespace Rv32Core

open Clocked RingBuffer AgeMatrix

namespace Core

variable {s : Core} {l : RobPtr → Slot} {p q : RobPtr}

theorem instrAt_mem (h : s.InRob p) : instrAt l p (s.rRob p) ∈ instrs l s := by
  obtain ⟨n, hn, rfl⟩ := h
  unfold instrs slotView
  exact mem_contents.mpr ⟨n, hn, rfl⟩

theorem SlotOk.dstValid {x : Slot} {e : RobEntry} (h : SlotOk p x e) :
    x.renamed.dstValid = x.decoded.dstValid := by
  obtain ⟨a, b, d, r, hr⟩ := h.renames
  rw [hr]

theorem SlotOk.entry_dst {x : Slot} {e : RobEntry} (h : SlotOk p x e) :
    e.validDst = x.decoded.dstValid ∧ (x.decoded.dstValid = true →
      e.ldst = archReg x.decoded.dst ∧ e.pdst = x.renamed.dst) := by
  obtain ⟨old, he⟩ := h.entry
  have hv : e.validDst = x.decoded.dstValid := congrArg RobEntry.validDst he
  have hl : e.ldst = if true && x.decoded.dstValid then archReg x.decoded.dst else 0 :=
    congrArg RobEntry.ldst he
  have hp : e.pdst = if true && x.decoded.dstValid then x.renamed.dst else 0 :=
    congrArg RobEntry.pdst he
  refine ⟨hv, fun hd => ?_⟩
  rw [hl, hp, hd]
  exact ⟨rfl, rfl⟩

theorem SlotOk.pc {x : Slot} {e : RobEntry} (h : SlotOk p x e) : e.pc = x.decoded.pc := by
  obtain ⟨o, ho⟩ := h.entry
  exact congrArg RobEntry.pc ho

theorem SlotOk.writer {x : Slot} {e : RobEntry} (h : SlotOk p x e)
    (hd : x.decoded.dstValid = true) :
    writerOf e = some ⟨archReg x.decoded.dst, x.renamed.dst, e.oldPdst⟩ := by
  obtain ⟨hv, hr⟩ := h.entry_dst
  obtain ⟨hl, hp⟩ := hr hd
  rw [writerOf, hv, hd, if_pos rfl, hl, hp]

/-- The destination of a slot in the ROB is a register in use, not register 0 and not mapped by the
retired table. -/
theorem WindowInv.dst (h : s.WindowInv l) (hp : s.InRob p)
    (hd : (l p).decoded.dstValid = true) : s.rPrfFree (l p).renamed.dst = false ∧
      (∀ a, s.rRetireRat a ≠ (l p).renamed.dst) ∧ (l p).renamed.dst ≠ 0 := by
  have hw := (h.slots p hp).writer hd
  have hm : _ ∈ Rename.writers (instrs l s) := Rename.mem_writers.mpr ⟨_, instrAt_mem hp, hw⟩
  refine ⟨Bool.eq_false_iff.mpr (h.window.pdst_notMem_free hm), h.window.retireRat_ne hm, ?_⟩
  have h0 := h.window.retireRat_ne hm 0
  rw [h.pinned.retireRat] at h0
  exact h0.symm

theorem WindowInv.src (h : s.WindowInv l) (hp : s.InRob p) {x : ArchReg × PrfPtr}
    (hx : x ∈ (l p).reads) : s.rPrfFree x.2 = false :=
  Bool.eq_false_iff.mpr (h.window.reads_notMem_free (instrAt_mem hp) hx)

/-- Different slots in the ROB have different destinations. -/
theorem WindowInv.dst_inj (h : s.WindowInv l) (hp : s.InRob p) (hq : s.InRob q)
    (hdp : (l p).decoded.dstValid = true) (hdq : (l q).decoded.dstValid = true)
    (he : (l p).renamed.dst = (l q).renamed.dst) : p = q := by
  have hn := h.window.pdsts_nodup
  rw [Rename.writers, List.map_filterMap, instrs, slotView, contents, List.filterMap_map,
    List.Nodup, List.pairwise_filterMap, List.pairwise_iff_getElem] at hn
  have key : ∀ m n, m < n → m < s.robCount → n < s.robCount →
      (l (slot s.rRobHeadPtr m)).decoded.dstValid = true →
      (l (slot s.rRobHeadPtr n)).decoded.dstValid = true →
      (l (slot s.rRobHeadPtr m)).renamed.dst ≠ (l (slot s.rRobHeadPtr n)).renamed.dst := by
    intro m n hmn hm hn' hdm hdn
    have hw := (h.slots _ ⟨m, hm, rfl⟩).writer hdm
    have hw' := (h.slots _ ⟨n, hn', rfl⟩).writer hdn
    refine hn m n (by simpa [robCount] using hm) (by simpa [robCount] using hn') hmn _ ?_ _ ?_
    · simp [instrAt, hw]
    · simp [instrAt, hw']
  obtain ⟨m, hm, rfl⟩ := hp
  obtain ⟨n, hn', rfl⟩ := hq
  obtain hlt | rfl | hlt := Nat.lt_trichotomy m n
  · exact absurd he (key m n hlt hm hn' hdp hdq)
  · rfl
  · exact absurd he.symm (key n m hlt hn' hm hdq hdp)

end Core

/-- The slot has the destination `r`. -/
def Slot.Writes (x : Slot) (r : PrfPtr) : Prop := x.decoded.dstValid = true ∧ x.renamed.dst = r

/-- A request that a slot has sent. -/
def Slot.Sent (x : Slot) (q : MemReq) : Prop :=
  x.decoded.isMem = true ∧ Core.folds x.decoded.op = false ∧ ∃ a, q.BuiltFor x.renamed a

theorem Slot.Sent.writes {x : Slot} {q : MemReq} {e : RobEntry} {p : RobPtr} (h : x.Sent q)
    (hx : Core.SlotOk p x e) (hd : q.dstValid = true) : x.Writes q.dstPtr := by
  obtain ⟨hm, -, a, hb⟩ := h
  refine ⟨?_, hb.dstPtr.symm⟩
  obtain ⟨f, hf⟩ := hx.decoded
  obtain ⟨b, c, d, r, hren⟩ := hx.renames
  obtain ⟨e, he, -, rfl⟩ := hb
  have hsc : e.memUq.op ≠ .sc := by
    rw [he, hren]
    exact hf ▸ decodeRiscv_ne_sc f (hf ▸ hm)
  have hle := Exec.tMemTail_dsts hsc
  have hmem : e.tMemTail.dstPtr ∈ e.tMemTail.dsts := mem_single.mpr ⟨hd, rfl⟩
  have hv := (mem_single.mp (Multiset.mem_of_le hle hmem)).1
  rw [he, hx.dstValid] at hv
  exact hv

/-- A memory uop with a destination that is sent off is a load. -/
theorem decodeRiscv_load (f : InsnFetch) (hm : (decodeRiscv f).isMem = true)
    (hd : (decodeRiscv f).dstValid = true) (hf : Core.folds (decodeRiscv f).op = false) :
    (decodeRiscv f).op = .lb ∨ (decodeRiscv f).op = .lh ∨ (decodeRiscv f).op = .lw ∨
      (decodeRiscv f).op = .lbu ∨ (decodeRiscv f).op = .lhu := by
  have h : ∀ k ∈ UopKind.decoded, k.isMem = true → k.dstValid = true → Core.folds k.op = false →
      k.op = .lb ∨ k.op = .lh ∨ k.op = .lw ∨ k.op = .lbu ∨ k.op = .lhu := by decide
  exact h _ (decodeRiscv_kind f) hm hd hf

/-- The request of a slot with a destination is a load, or a load that leaves its line. -/
theorem Slot.Sent.load {x : Slot} {q : MemReq} {e : RobEntry} {p : RobPtr} (h : x.Sent q)
    (hx : Core.SlotOk p x e) (hd : x.decoded.dstValid = true) :
    q.dstValid = true ∧ q.isStore = false ∧ (isLoadOp q.op = true ∨ q.op = .nop) := by
  obtain ⟨hm, hf, a, e, he, -, rfl⟩ := h
  obtain ⟨f, hdec⟩ := hx.decoded
  obtain ⟨b, c, d, r, hren⟩ := hx.renames
  have hop : e.memUq.op = (decodeRiscv f).op := by rw [he, hren, hdec]
  have hv : e.memUq.dstValid = true := by rw [he, hx.dstValid, hd]
  rw [hdec] at hm hd hf
  unfold Exec.tMemTail
  obtain ho | ho | ho | ho | ho := decodeRiscv_load f hm hd hf <;> rw [hop, ho] <;>
    refine ⟨hv, rfl, ?_⟩ <;> dsimp only
  · exact .inl rfl
  · split_ifs <;> simp [isLoadOp]
  · split_ifs <;> simp [isLoadOp]
  · exact .inl rfl
  · exact .inl rfl

namespace Back

variable {s : Back} {i : BackIn} {env : Back → BackIn → Prop} {l : RobPtr → Slot}

/-- What is under way belongs to slots of the ROB and has their registers. -/
structure SlotsInv (s : Back) (l : RobPtr → Slot) : Prop where
  window : s.core.WindowInv l
  inRob : ∀ p ∈ s.inFlight, s.core.InRob p
  int : ∀ u ∈ s.exec.waiting + s.exec.onPorts, u = (l u.robPtr).renamed
  mem : ∀ u ∈ s.exec.memWaiting, u = (l u.robPtr).renamed
  mul : ∀ k, s.exec.mul.rComplete k = true →
    (l (s.exec.mul.rRobPtr k)).Writes (s.exec.mul.rGprPtr k)
  div : s.exec.div.rState ≠ .idle → (l s.exec.div.rRobPtr).Writes s.exec.div.rGprPrfPtr
  sent : ∀ q ∈ s.exec.rMemQ.view, (l q.robPtr).Sent q
  held : ∀ q, s.l1d.Holds q → (l q.robPtr).Sent q
  data : ∀ d ∈ s.exec.rMemDq.view,
    (l d.robPtr).decoded.srcBValid = true ∧ d.srcPtr = (l d.robPtr).renamed.srcB

/-! ### What is under way is in flight -/

theorem waiting_inFlight {u : Uop} (h : u ∈ s.exec.waiting + s.exec.onPorts) :
    u.robPtr ∈ s.inFlight := by
  refine Multiset.mem_of_le intSlots_le ?_
  rw [Exec.intSlots_eq]
  exact Multiset.mem_map_of_mem _ h

theorem sentSlots_le : s.exec.sentSlots ≤ s.inFlight := by
  rw [inFlight, Exec.inFlight, add_comm _ s.exec.sentSlots, add_assoc]
  exact Multiset.le_add_right _ _

theorem memWaiting_inFlight {u : Uop} (h : u ∈ s.exec.memWaiting) : u.robPtr ∈ s.inFlight := by
  obtain h | h := Multiset.mem_add.mp h
  · exact Multiset.mem_of_le memSlots_le (Multiset.mem_coe.mpr (List.mem_map_of_mem h))
  · obtain ⟨hr, rfl⟩ := mem_single.mp h
    exact Multiset.mem_of_le sentSlots_le (Multiset.mem_add.mpr (.inl (mem_single.mpr ⟨hr, rfl⟩)))

theorem mul_inFlight {k : Fin 4} (h : s.exec.mul.rComplete k = true) :
    s.exec.mul.rRobPtr k ∈ s.inFlight := by
  refine Multiset.mem_of_le unitSlots_le (Multiset.mem_add.mpr (.inl ?_))
  exact Multiset.mem_sum.mpr ⟨k, Finset.mem_univ k, mem_single.mpr ⟨h, rfl⟩⟩

theorem div_inFlight (h : s.exec.div.rState ≠ .idle) : s.exec.div.rRobPtr ∈ s.inFlight :=
  Multiset.mem_of_le unitSlots_le
    (Multiset.mem_add.mpr (.inr (mem_single.mpr ⟨decide_eq_true h, rfl⟩)))

theorem sent_inFlight {q : MemReq} (h : q ∈ s.exec.rMemQ.view) : q.robPtr ∈ s.inFlight :=
  Multiset.mem_of_le sentSlots_le
    (Multiset.mem_add.mpr (.inr (Multiset.mem_coe.mpr (List.mem_map_of_mem h))))

theorem held_cacheSlots {q : MemReq} (h : s.l1d.Holds q) : q.robPtr ∈ s.cacheSlots :=
  Multiset.mem_map_of_mem Prod.fst h.pending

theorem held_inFlight {q : MemReq} (h : s.l1d.Holds q) : q.robPtr ∈ s.inFlight :=
  Multiset.mem_of_le cacheSlots_le (held_cacheSlots h)

/-! ### What is pushed -/

theorem pushed_slot (hp : s.core.Ptrs) {u : Uop} (hu : u ∈ Exec.pushedUops (s.execIn i)) :
    u = (Core.watchSlots l s.core (s.coreIn i) u.robPtr).renamed := by
  obtain ⟨h, rfl⟩ | ⟨h, rfl⟩ := pushed_cases hu
  · have ha := Core.tPush_alloc.1 h
    rw [s.core.tAllocUop_robPtr _ ha, Core.watchSlots_tail hp ha]
  · have ha := Core.tPush_alloc.2 h
    rw [s.core.tAllocUop2_robPtr _ ha, Core.watchSlots_nextTail ha]

theorem pushed_dst (ha : s.core.AllocatesFree (s.coreIn i)) {u : Uop}
    (hu : u ∈ Exec.pushedUops (s.execIn i)) (hv : u.dstValid = true) :
    s.core.rPrfFree u.dst = true ∧ u.dst ≠ 0 := by
  obtain ⟨h, rfl⟩ | ⟨h, rfl⟩ := pushed_cases hu
  · have hal := Core.tPush_alloc.1 h
    rw [s.core.tAllocUop_dst _ hal hv]
    exact ha.1 hal hv
  · have hal := Core.tPush_alloc.2 h
    rw [s.core.tAllocUop2_dst _ hal hv]
    exact ha.2 hal hv

theorem pushed_pushable (hp : s.core.Ptrs) (hq : s.core.DqDecoded)
    (ha : s.core.AllocatesFree (s.coreIn i)) :
    ∀ u ∈ Exec.pushedUops (s.execIn i), u.Pushable := fun _ hu => by
  obtain ⟨hdec, hf⟩ := pushed_decoded hq hp.toDqPtrs hu
  exact ⟨hdec, hf, fun hv => (pushed_dst ha hu hv).2⟩

/-! ### One cycle -/

/-- What is under way belongs to slots of the ROB. -/
theorem SlotsInv.inRob_step (h : s.SlotsInv l) (hi : s.Inv) (hi' : (s.step i).Inv)
    (hre : backMachine.Reach env s) (hr : s.l1d.NoFlushRace) :
    ∀ p ∈ (s.step i).inFlight, (s.step i).core.InRob p := by
  intro p hp
  by_cases hf : (s.step i).Flushed
  · have hd : s.core.rDsDone = true := hf.2
    have hs : s.core.rState = .drain := by
      obtain (hs | hs) | hs := hi.occ.ds.up hd
      · exact hs
      · obtain hn | ⟨hn, -⟩ := rat_next (i := i) hs <;> rw [hf.1] at hn <;> cases hn
      · have hn := flushForHalt_next (i := i) hs
        rw [hf.1] at hn
        obtain hn | hn | hn := hn <;> cases hn
    have hin := h.inRob p (Multiset.mem_of_le
      ((Multiset.le_add_right _ _).trans (inFlight_drain (i := i) hre hr hd)) hp)
    have hl : s.core.nLeaving (s.coreIn i) = 0 := by
      have h1 : (s.core.ctl (s.coreIn i)).tRetire = false := by rw [Core.ctl_tRetire, hs]
      have h2 : (s.core.ctl (s.coreIn i)).tBumpRobHead = false := by rw [Core.ctl_tBumpRobHead, hs]
      rw [Core.nLeaving, h1, h2]
      rfl
    obtain ⟨n, hn, rfl⟩ := hin
    exact Core.inRob_step hi.occ.ptrs (by rw [hs]; decide) (by omega) (by omega) (by omega)
  · exact hi'.occ.inflight.inRob p ((hi'.tokens.exact hf p).mp hp)

theorem SlotsInv.port1_writes (h : s.SlotsInv l) (hu : s.exec.UopsOk)
    (hst : s.exec.rStartInt = true)
    (hw : usesMul s.exec.intUop.op = true ∨ usesDiv s.exec.intUop.op = true) :
    (l s.exec.intUop.robPtr).Writes s.exec.intUop.dst ∧ s.core.InRob s.exec.intUop.robPtr := by
  have hm : s.exec.intUop ∈ s.exec.waiting + s.exec.onPorts :=
    Multiset.mem_add.mpr (.inr (Multiset.mem_add.mpr (.inl (mem_single.mpr ⟨hst, rfl⟩))))
  have hin := h.inRob _ (waiting_inFlight hm)
  have heq := h.int _ hm
  obtain ⟨hp, hi⟩ := hu.int _ hm
  have hv := hp.dstValid hi (writes_of_unit hw)
  refine ⟨⟨?_, by rw [← heq]⟩, hin⟩
  rw [← (h.window.slots _ hin).dstValid, ← heq]
  exact hv

theorem SlotsInv.mul_step (h : s.SlotsInv l) (hu : s.exec.UopsOk) {k : Fin 4}
    (hk : (s.step i).exec.mul.rComplete k = true) :
    s.core.InRob ((s.step i).exec.mul.rRobPtr k) ∧
      (l ((s.step i).exec.mul.rRobPtr k)).Writes ((s.step i).exec.mul.rGprPtr k) := by
  have hc : (s.step i).exec.mul.rComplete k =
    if k = 0 then (s.exec.mulIn (s.execIn i)).go else s.exec.mul.rComplete (k - 1) := rfl
  have hr : (s.step i).exec.mul.rRobPtr k =
    if k = 0 then s.exec.intUop.robPtr else s.exec.mul.rRobPtr (k - 1) := rfl
  have hg : (s.step i).exec.mul.rGprPtr k =
    if k = 0 then s.exec.intUop.dst else s.exec.mul.rGprPtr (k - 1) := rfl
  rw [hr, hg]
  rw [hc] at hk
  split_ifs at hk ⊢ with h0
  · have hgo : (usesMul s.exec.intUop.op && (s.exec.rStartInt && !(s.execIn i).dsDone) &&
      s.exec.rStartInt) = true := hk
    rw [Bool.and_eq_true, Bool.and_eq_true] at hgo
    exact (h.port1_writes hu hgo.2 (.inl hgo.1.1)).symm
  · exact ⟨h.inRob _ (mul_inFlight hk), h.mul _ hk⟩

theorem SlotsInv.div_step (h : s.SlotsInv l) (hu : s.exec.UopsOk)
    (hk : (s.step i).exec.div.rState ≠ .idle) :
    s.core.InRob (s.step i).exec.div.rRobPtr ∧
      (l (s.step i).exec.div.rRobPtr).Writes (s.step i).exec.div.rGprPrfPtr := by
  have hd : (s.step i).exec.div = s.exec.div.step (s.exec.divIn (s.execIn i)) := rfl
  by_cases h0 : s.exec.div.rState = .idle
  · have hst : (s.exec.divIn (s.execIn i)).startDiv = true := by
      by_contra hn
      rw [hd, Divider.step, h0] at hk
      simp [hn] at hk
    have hgo : (usesDiv s.exec.intUop.op && (s.exec.rStartInt && !(s.execIn i).dsDone)) = true :=
      hst
    rw [Bool.and_eq_true, Bool.and_eq_true] at hgo
    have hptr : (s.step i).exec.div.rRobPtr = s.exec.intUop.robPtr ∧
        (s.step i).exec.div.rGprPrfPtr = s.exec.intUop.dst := by
      rw [hd, Divider.step, h0, hst]
      exact ⟨rfl, rfl⟩
    rw [hptr.1, hptr.2]
    exact (h.port1_writes hu hgo.2.1 (.inr hgo.1)).symm
  · have hptr : (s.step i).exec.div.rRobPtr = s.exec.div.rRobPtr ∧
        (s.step i).exec.div.rGprPrfPtr = s.exec.div.rGprPrfPtr := by
      rw [hd, Divider.step]
      cases hs : s.exec.div.rState with
      | idle => exact absurd hs h0
      | divide | packOutput | waitForWb => exact ⟨rfl, rfl⟩
    rw [hptr.1, hptr.2]
    exact ⟨h.inRob _ (div_inFlight h0), h.div h0⟩

theorem SlotsInv.tMemTail_sent (h : s.SlotsInv l) (hu : s.exec.UopsOk)
    (hr : s.exec.rMemReady = true) : s.core.InRob s.exec.memUq.robPtr ∧
      (l s.exec.memUq.robPtr).Sent s.exec.tMemTail := by
  have hm : s.exec.memUq ∈ s.exec.memWaiting :=
    Multiset.mem_add.mpr (.inr (mem_single.mpr ⟨hr, rfl⟩))
  have hin := h.inRob _ (memWaiting_inFlight hm)
  have heq := h.mem _ hm
  obtain ⟨hpush, hmem⟩ := hu.mem _ hm
  have hfold := hpush.executed
  obtain ⟨b, c, d, r, hren⟩ := (h.window.slots _ hin).renames
  rw [← heq] at hren
  rw [hren] at hmem hfold
  exact ⟨hin, hmem, hfold, s.exec.tMemSrcA, s.exec, heq, rfl, rfl⟩

theorem SlotsInv.step (h : s.SlotsInv l) (hi : s.Inv) (hdata : s.DataInv)
    (hre : backMachine.Reach env s) (hc : s.Calm i) (hw : s.core.rState ≠ .writeCause)
    (ha : s.core.AllocatesFree (s.coreIn i)) (hu : s.exec.UopsOk) :
    (s.step i).SlotsInv (Core.watchSlots l s.core (s.coreIn i)) := by
  have hp := hi.occ.ptrs
  have hq := (Core.dqDecoded_of_reach (reach_core hre)).2
  have hreq := L1d.reach_reqInv (reach_l1d hre)
  have hr := hi.noFlushRace hreq hc.quiet
  obtain ⟨q, hlog⟩ := (reach_exec hre).exists_observed Exec.emptyLog Exec.watchQueues
  have hqs := Exec.queuesInv_of_reach hlog
  obtain ⟨age, ho⟩ := AluSched.ordered_of_reach (Exec.reach_sched (reach_exec hre))
  obtain ⟨age2, ho2⟩ := AluSched.ordered_of_reach (Exec.reach_sched2 (reach_exec hre))
  have hkeep : ∀ {p}, s.core.InRob p → Core.watchSlots l s.core (s.coreIn i) p = l p := fun hin =>
    Core.watchSlots_of_inRob hp hin
  refine ⟨h.window.step hi.occ hq hw ha, h.inRob_step hi (hi.step hre hc) hre hr, fun u hm => ?_,
    fun u hm => ?_, fun k hk => ?_, fun hk => ?_, fun r hm => ?_, fun r hm => ?_, fun d hm => ?_⟩
  · obtain hm | hm := Multiset.mem_add.mp (Multiset.mem_of_le (hqs.waiting_le polite ho ho2) hm)
    · have hm' : u ∈ s.exec.waiting + s.exec.onPorts := Multiset.mem_add.mpr (.inl hm)
      rw [hkeep (h.inRob _ (waiting_inFlight hm'))]
      exact h.int u hm'
    · exact pushed_slot hp (Exec.accepted_sub hm).1
  · obtain hm | hm := Multiset.mem_add.mp (Multiset.mem_of_le (hqs.memWaiting_le polite) hm)
    · have hm' : u ∈ s.exec.memWaiting := Multiset.mem_add.mpr (.inl hm)
      rw [hkeep (h.inRob _ (memWaiting_inFlight hm'))]
      exact h.mem u hm'
    · exact pushed_slot hp (Exec.accepted_sub hm).1
  · obtain ⟨hin, hwr⟩ := h.mul_step hu hk
    rw [hkeep hin]
    exact hwr
  · obtain ⟨hin, hwr⟩ := h.div_step hu hk
    rw [hkeep hin]
    exact hwr
  · have hin : r ∈ (s.exec.rMemQ.view : Multiset MemReq) +
        single s.exec.rMemReady s.exec.tMemTail := by
      rw [← hqs.memQ_step (i := s.execIn i) polite]
      exact Multiset.mem_add.mpr (.inl hm)
    obtain hin | hin := Multiset.mem_add.mp hin
    · rw [hkeep (h.inRob _ (sent_inFlight hin))]
      exact h.sent r hin
    · obtain ⟨hready, rfl⟩ := mem_single.mp hin
      obtain ⟨hin, hsent⟩ := h.tMemTail_sent hu hready
      rw [Exec.tMemTail_robPtr, hkeep hin]
      exact hsent
  · obtain hm | ⟨hack, rfl⟩ := L1d.holds_step hreq hm
    · rw [hkeep (h.inRob _ (held_inFlight hm))]
      exact h.held r hm
    · have hv : s.exec.memReqValid = true := (L1d.accepts_spec (L1d.reqAck_accepts hack)).1
      rw [Exec.memReqValid, Bool.not_eq_true'] at hv
      have hhead : s.exec.memReq ∈ s.exec.rMemQ.view := ExecQueue.head_mem hv
      have hsent := h.sent _ hhead
      rw [show (s.l1dIn i).coreMemReq = s.exec.memReq from rfl,
        hkeep (h.inRob _ (sent_inFlight hhead))]
      exact hsent
  · by_cases hs : s.core.rState = .rat
    · have hclr : (s.execIn i).memDqClr = true := by rw [memDqClr_eq, decide_eq_true hs]
      have hv : (s.exec.step (s.execIn i)).rMemDq.view = [] := by
        unfold Exec.step
        rw [hclr]
        exact ExecQueue.IsReset.view ⟨rfl, rfl, rfl⟩
      have hm' : d ∈ (s.exec.step (s.execIn i)).rMemDq.view := hm
      rw [hv] at hm'
      cases hm'
    · have hclr : (s.execIn i).memDqClr = false := by rw [memDqClr_eq, decide_eq_false hs]
      have hm' : d ∈ (s.exec.step (s.execIn i)).rMemDq.view := hm
      rw [hqs.memDq_view_step polite hclr, List.mem_append] at hm'
      obtain hm' | hm' := hm'
      · have hmem := List.mem_of_mem_drop hm'
        have hin := (hdata.waits d.robPtr (Multiset.mem_add.mpr
          (.inl (Multiset.mem_coe.mpr (List.mem_map_of_mem hmem))))).1
        rw [hkeep hin]
        exact h.data d hmem
      · obtain ⟨u, hacc, rfl⟩ := List.mem_map.mp hm'
        obtain ⟨hpush, hhas⟩ := Exec.accepted_sub hacc
        have heq := pushed_slot (l := l) hp hpush
        have hv := (Bool.and_eq_true _ _ |>.mp hhas).2
        refine ⟨?_, by rw [show (Exec.toDq u).robPtr = u.robPtr from rfl, ← heq]; rfl⟩
        obtain ⟨h1, rfl⟩ | ⟨h2, rfl⟩ := pushed_cases hpush
        · have hal := Core.tPush_alloc.1 h1
          rw [show (Exec.toDq (s.core.tAllocUop (s.coreIn i))).robPtr =
            (s.core.tAllocUop (s.coreIn i)).robPtr from rfl, s.core.tAllocUop_robPtr _ hal,
            Core.watchSlots_tail hp hal]
          exact hv
        · have hal := Core.tPush_alloc.2 h2
          rw [show (Exec.toDq (s.core.tAllocUop2 (s.coreIn i))).robPtr =
            (s.core.tAllocUop2 (s.coreIn i)).robPtr from rfl, s.core.tAllocUop2_robPtr _ hal,
            Core.watchSlots_nextTail hal]
          exact hv

theorem slotsInv_reset (h : backMachine.reset s) : s.SlotsInv l := by
  have hi := inv_reset h
  have h0 := inFlight_reset h
  obtain ⟨⟨rob, bob, dq, hc⟩, he, -⟩ := h
  have hno : ∀ {p}, p ∉ s.inFlight := fun {p} hp => Multiset.notMem_zero p (h0 ▸ hp)
  refine ⟨hc ▸ Core.init_windowInv rob bob dq, fun p hp => absurd hp hno,
    fun u hu => absurd (waiting_inFlight hu) hno, fun u hu => absurd (memWaiting_inFlight hu) hno,
    fun k hk => absurd (mul_inFlight hk) hno, fun hd => absurd (div_inFlight hd) hno,
    fun q hq => absurd (sent_inFlight hq) hno, fun q hq => absurd (held_inFlight hq) hno,
    fun d hd => ?_⟩
  rw [he.rMemDq.view] at hd
  cases hd

end Back
end Rv32Core
