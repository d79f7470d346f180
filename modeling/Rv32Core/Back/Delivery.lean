import Rv32Core.Back.Serial
import Rv32Core.Checker.Results
import Rv32Core.Exec.SecondPort

/-! # Every completion is delivered

An entry of the ROB that is not complete is in flight, and so one of the tokens; one whose store
data is not complete has its slot in the store data queue.  Two things break this.  The decoder
makes a store of every width a memory uop with two sources, an illegal one too; this is folded, so
that nothing is sent off, but its store data bit starts low.  And a fault that is taken while
younger instructions are in flight drops these from the queues and keeps them in the ROB. -/

namespace Rv32Core

open Clocked RingBuffer

/-- A store of a width that does not exist. -/
def Uop.IllegalStore (u : Uop) : Prop := u.isStore = true ∧ u.op = .ii

instance (u : Uop) : Decidable u.IllegalStore := inferInstanceAs (Decidable (_ ∧ _))

/-! ### What is folded and what is sent off -/

/-- A folded uop that waits for store data is an illegal store. -/
def Uop.FoldsWell (u : Uop) : Prop :=
  Core.folds u.op = true → Exec.hasData u = true → u.IllegalStore

theorem decodeRiscv_foldsWell (f : InsnFetch) : (decodeRiscv f).FoldsWell := by
  have h : ∀ k ∈ UopKind.decoded, Core.folds k.op = true → (k.isMem && k.srcBValid) = true →
      k.isStore = true ∧ k.op = .ii := by decide
  exact h _ (decodeRiscv_kind f)

namespace Core

variable {s : Core} {i : CoreIn}

/-- A uop that waits for store data is sent off, unless it is an illegal store. -/
theorem sendsData (hq : s.DqDecoded) (h : (s.ctl i).tAlloc = true) (hl : ¬s.tUop.IllegalStore)
    (hd : Exec.hasData s.tUop = true) : s.tPush1 i = true := by
  obtain ⟨f, hf⟩ := hq _ (tUop_mem h)
  rw [tPush1, h, Bool.true_and, Bool.not_eq_true']
  refine Bool.eq_false_iff.mpr fun hfold => hl ?_
  rw [hf] at hd ⊢
  exact decodeRiscv_foldsWell f (by rwa [tFoldUop, hf] at hfold) hd

theorem sendsData2 (hp : s.DqPtrs) (hq : s.DqDecoded) (h : (s.ctl i).tAllocTwo = true)
    (hl : ¬s.tUop2.IllegalStore) (hd : Exec.hasData s.tUop2 = true) : s.tPush2 i = true := by
  obtain ⟨f, hf⟩ := hq _ (tUop2_mem hp h)
  rw [tPush2, h, Bool.true_and, Bool.not_eq_true']
  refine Bool.eq_false_iff.mpr fun hfold => hl ?_
  rw [hf] at hd ⊢
  exact decodeRiscv_foldsWell f (by rwa [tFoldUop2, hf] at hfold) hd

/-- Every report completes its slot. -/
structure Completes (i : CoreIn) : Prop where
  one : i.tCompleteValid1 = true → i.tCompleteBundle1.complete = true
  two : i.tCompleteValid2 = true → i.tCompleteBundle2.complete = true

theorem incomplete_step (hs : s.rState ≠ .rat) (hc : Completes i) {p : RobPtr}
    (h : (s.step i).rRobComplete p = false) : p ∉ reportedOn i ∧
      (((s.ctl i).tAllocTwo = true ∧ p = idx s.rRobNextTailPtr ∧ s.tFoldUop2 = false) ∨
        ((s.ctl i).tAlloc = true ∧ p = idx s.rRobTailPtr ∧ s.tFoldUop = false) ∨
        (¬((s.ctl i).tAlloc = true ∧ p = idx s.rRobTailPtr) ∧
          ¬((s.ctl i).tAllocTwo = true ∧ p = idx s.rRobNextTailPtr) ∧
          s.rRobComplete p = false)) := by
  have hclr : (s.ctl i).tClrRob = false := by rw [ctl_tClrRob, decide_eq_false hs]
  change s.nRobComplete i p = false at h
  rw [nRobComplete, hclr, if_neg Bool.false_ne_true] at h
  simp only [writeIf_apply] at h
  rw [mem_reportedOn]
  split_ifs at h with h3 h2 h1 ha2 ha
  · rw [hc.two h2.1] at h
    cases h
  · rw [hc.one h1.1] at h
    cases h
  all_goals
    refine ⟨?_, ?_⟩
    · rintro (⟨hv, rfl⟩ | ⟨hv, rfl⟩ | ⟨hv, rfl⟩)
      · exact h1 ⟨hv, rfl⟩
      · exact h2 ⟨hv, rfl⟩
      · exact h3 ⟨hv, rfl⟩
  · exact .inl ⟨ha2.1, ha2.2, h⟩
  · exact .inr (.inl ⟨ha.1, ha.2, h⟩)
  · exact .inr (.inr ⟨ha, ha2, h⟩)

end Core

namespace Back

variable {s : Back} {i : BackIn} {env : Back → BackIn → Prop} {l : SerialLog}

/-! ### The reports -/

theorem eitherPort_of_push {u : Uop} (hq : s.core.DqDecoded) (hp : s.core.DqPtrs)
    (h : u ∈ Exec.accepted Uop.isInt (s.execIn i)) : u.EitherPort := by
  obtain ⟨⟨f, _, _, _, _, rfl⟩, hf⟩ := pushed_decoded hq hp (Exec.accepted_sub h).1
  exact fun hc => onBothPorts_of_cheap f hc hf

/-- **Reports complete**, in every run. -/
theorem completes (h : backMachine.Reach env s) : Core.Completes (s.coreIn i) := by
  have hx : s.exec.ReportsInv := Exec.reportsInv_of_reach <|
    h.map (N := execMachine) Back.exec execIn (fun _ (h0 : backMachine.reset _) => h0.2.1)
      (fun _ _ _ => rfl) fun x i hr _ => ⟨polite, fun u hu =>
        eitherPort_of_push (Core.dqDecoded_of_reach (reach_core hr)).2
          (Core.dqDecoded_of_reach (reach_core hr)).1 hu⟩
  exact ⟨hx.one, hx.two⟩

/-! ### What is waited for -/

/-- What is not complete is in flight, until a drain; what waits for store data is in the queue. -/
structure PendingInv (s : Back) : Prop where
  inflight : ¬Core.Drains s.core.rState → ∀ p, s.core.InRob p → s.core.rRobComplete p = false →
    s.core.rRobInflight p = true
  data : ∀ p, s.core.InRob p → s.core.rRobSdComplete p = false → p ∈ s.exec.dataSlots

theorem PendingInv.inflight_step (h : s.PendingInv) (ho : s.core.Occupied)
    (hc : Core.Completes (s.coreIn i)) (hn : ¬Core.Drains (s.step i).core.rState) {p : RobPtr}
    (hp : (s.step i).core.InRob p) (hlow : (s.step i).core.rRobComplete p = false) :
    (s.step i).core.rRobInflight p = true := by
  have hrat : s.core.rState ≠ .rat := fun hs =>
    Core.not_inRob_of_zero (Core.robCount_rat hs) p hp
  have hdrain : s.core.rState ≠ .drain := fun hs => by
    by_cases hx : (s.step i).core.rState = .drain
    · exact hn (.inl hx)
    · exact hn (.inr (leaves_drain hs hx).2.2)
  have hnd : ¬Core.Drains s.core.rState := fun hs => hs.elim hdrain hrat
  obtain ⟨hrep, hcases⟩ := Core.incomplete_step (i := s.coreIn i) hrat hc hlow
  have hold := Core.inRob_of_step ho.ptrs ho.nLeaving_le hp
  cases hd : s.core.rDsDone
  · refine (Core.inflight_low hd p).mpr ?_
    rcases hcases with ⟨h2, rfl, hf⟩ | ⟨h1, rfl, hf⟩ | ⟨h1, h2, hlow⟩
    · refine .inr (Core.mem_sentOff.mpr (.inr ⟨?_, rfl⟩))
      rw [Core.tPush2, h2, hf]
      rfl
    · refine .inr (Core.mem_sentOff.mpr (.inl ⟨?_, rfl⟩))
      rw [Core.tPush1, h1, hf]
      rfl
    · have hin := hold.resolve_right fun hx => hx.elim h1 h2
      exact .inl ⟨h.inflight hnd p hin hlow, hrep⟩
  · -- the core halts after a fault: nothing was in flight when it began to
    have hs := (ho.ds.up hd).resolve_left hnd
    have hno : ∀ h1 : (s.core.ctl (s.coreIn i)).tAlloc = true, False := fun h1 => by
      rw [ho.ds.of_alloc h1] at hd
      cases hd
    have hno2 : ∀ h2 : (s.core.ctl (s.coreIn i)).tAllocTwo = true, False := fun h2 =>
      hno (Core.tAllocTwo_tAlloc h2).1
    have hin := hold.resolve_right fun hx => hx.elim (fun hx => hno hx.1) fun hx => hno2 hx.1
    rcases hcases with ⟨h2, -⟩ | ⟨h1, -⟩ | ⟨-, -, hlow⟩
    · exact (hno2 h2).elim
    · exact (hno h1).elim
    · have hf := h.inflight hnd p hin hlow
      rw [ho.still (.inl hs) p] at hf
      cases hf

/-- What a cycle needs of the run for every completion to be delivered: no illegal store is
allocated, nothing is in flight when WRITE_CAUSE drops a faulting instruction, and the uop of a
monitor call finds a free register. -/
structure Clean (s : Back) (i : BackIn) : Prop where
  legal : (s.coreCtl i).tAlloc = true → ¬s.core.tUop.IllegalStore
  legal2 : (s.coreCtl i).tAllocTwo = true → ¬s.core.tUop2.IllegalStore
  quiet : s.core.rState = .writeCause → ∀ p, s.core.rRobInflight p = false
  free : s.core.rState = .allocForMonitor → isZero s.core.rPrfFree = false

instance (s : Back) (i : BackIn) : Decidable (s.Clean i) :=
  decidable_of_iff (((s.coreCtl i).tAlloc = true → ¬s.core.tUop.IllegalStore) ∧
      ((s.coreCtl i).tAllocTwo = true → ¬s.core.tUop2.IllegalStore) ∧
      (s.core.rState = .writeCause → ∀ p, s.core.rRobInflight p = false) ∧
      (s.core.rState = .allocForMonitor → isZero s.core.rPrfFree = false))
    ⟨fun h => ⟨h.1, h.2.1, h.2.2.1, h.2.2.2⟩, fun h => ⟨h.1, h.2, h.3, h.4⟩⟩

theorem PendingInv.data_step (h : s.PendingInv) (ho : s.core.Occupied)
    (hre : backMachine.Reach env s) (hc : s.Clean i) {p : RobPtr} (hp : (s.step i).core.InRob p)
    (hlow : (s.step i).core.rRobSdComplete p = false) : p ∈ (s.step i).exec.dataSlots := by
  have hrat : s.core.rState ≠ .rat := fun hs =>
    Core.not_inRob_of_zero (Core.robCount_rat hs) p hp
  obtain ⟨hdp, hdq⟩ := Core.dqDecoded_of_reach (reach_core hre)
  obtain ⟨l, hl⟩ := (reach_exec hre).exists_observed Exec.emptyLog Exec.watchQueues
  have hmove := (Exec.queuesInv_of_reach hl).dataSlots_step (i := s.execIn i) polite
    (by rw [memDqClr_eq, decide_eq_false hrat])
  rw [pushedData_eq] at hmove
  have hold := Core.inRob_of_step ho.ptrs ho.nLeaving_le hp
  change (s.core.step (s.coreIn i)).rRobSdComplete p = false at hlow
  rw [Core.sdComplete_step hrat] at hlow
  have hin : p ∈ s.exec.dataSlots + s.core.sentData (s.coreIn i) ∧
      p ∉ single s.exec.coreStoreDataPtrValid s.exec.coreStoreDataPtr := by
    split_ifs at hlow with h0 h2 h1
    all_goals
      refine ⟨Multiset.mem_add.mpr ?_, fun hx => h0 ⟨(mem_single.mp hx).1, (mem_single.mp hx).2.symm⟩⟩
    · rw [Bool.not_eq_false'] at hlow
      have hpush := Core.sendsData2 hdp hdq h2.1 (hc.legal2 h2.1) hlow
      exact .inr (Core.mem_sentData.mpr (.inr ⟨hpush, hlow, h2.2.symm⟩))
    · rw [Bool.not_eq_false'] at hlow
      have hpush := Core.sendsData hdq h1.1 (hc.legal h1.1) hlow
      exact .inr (Core.mem_sentData.mpr (.inl ⟨hpush, hlow, h1.2.symm⟩))
    · exact .inl (h.data p (hold.resolve_right fun hx => hx.elim h1 h2) hlow)
  rw [← hmove] at hin
  exact (Multiset.mem_add.mp hin.1).resolve_right hin.2

/-- What a run without the two slips maintains. -/
structure DeliveryInv (s : Back) (l : SerialLog) : Prop where
  inv : s.Inv
  data : s.DataInv
  serial : s.core.SerialInv l
  pending : s.PendingInv

theorem DeliveryInv.step (h : s.DeliveryInv l) (hre : backMachine.Reach env s) (hc : s.Clean i) :
    (s.step i).DeliveryInv (watchSerial l s i) := by
  have ho := h.inv.occ
  have hcalm : s.Calm i := by
    refine ⟨hc.quiet, fun hs => ?_⟩
    have h0 := ho.none (by rw [hs]; simp [Core.Serial])
    exact h.serial.alloc ho hs (isZero_eq_false_iff.mp (hc.free hs)) (h.inv.uqFull h.data h0)
  have hr := h.inv.noFlushRace (L1d.reach_reqInv (reach_l1d hre)) hcalm.quiet
  refine ⟨h.inv.step hre hcalm, h.data.step ho hre,
    h.serial.step ho (h.inv.answers hre hr) hcalm.monitor, ?_, ?_⟩
  · exact fun hn p hp hlow => h.pending.inflight_step ho (completes hre) hn hp hlow
  · exact fun p hp hlow => h.pending.data_step ho hre hc hp hlow

theorem deliveryInv_reset (h : backMachine.reset s) : s.DeliveryInv l := by
  have hf : s.FaultFree l := faultFree_reset h
  have h0 : s.core.robCount = 0 := by
    obtain ⟨⟨rob, bob, dq, hc⟩, -⟩ := h
    rw [hc]
    exact occ_self _
  have hno := Core.not_inRob_of_zero h0
  exact ⟨hf.inv, hf.data, hf.serial, fun _ p hp => absurd hp (hno p), fun p hp => absurd hp (hno p)⟩

/-- While `r_ds_done` is low, an entry of the ROB that is not complete is with the execution unit or
the data cache, and one whose store data is not complete is in the store data queue. -/
def Delivered (s : Back) : Prop := s.core.rDsDone = false → ∀ p, s.core.InRob p →
  (s.core.rRobComplete p = false → p ∈ s.inFlight) ∧
    (s.core.rRobSdComplete p = false → p ∈ s.exec.dataSlots)

/-- **No entry of the ROB waits for nothing**, in every run that allocates no illegal store, takes
no fault while younger instructions are in flight, and never runs out of registers before a monitor
call. -/
theorem completions_delivered (h : backMachine.Reach Clean s) : s.Delivered := by
  have hall : ∀ {x : Back}, backMachine.Reach Clean x → ∃ l, x.DeliveryInv l := by
    intro x hx
    induction hx with
    | reset h0 => exact ⟨⟨Uop.zero, false⟩, deliveryInv_reset h0⟩
    | step hr hc ih =>
        obtain ⟨l, hl⟩ := ih
        exact ⟨_, hl.step hr hc⟩
  obtain ⟨l, hi⟩ := hall h
  intro hd p hp
  have hf := TokensInv.not_flushed hd hi.inv.occ.ds
  have hnd : ¬Core.Drains s.core.rState := fun hs => by
    rw [hi.inv.occ.ds.drains hs] at hd
    cases hd
  exact ⟨fun hlow => (hi.inv.tokens.exact hf p).mpr (hi.pending.inflight hnd p hp hlow),
    hi.pending.data p hp⟩

theorem reach_boot_clean : backMachine.Reach Clean boot := by
  refine reach_boot (M := backMachine) id BackIn.idle (.reset reset_start) ?_
  rintro s (rfl | ⟨n, a, b, rfl⟩)
  · exact ⟨⟨nofun, nofun, nofun, nofun⟩, rfl⟩
  · have hr : (asleep n a b).core.rState = .flushForHalt := by cases n <;> rfl
    have ha : ((asleep n a b).coreCtl BackIn.idle).tAlloc = false := by
      rw [coreCtl, Core.ctl_tAlloc, hr]
    have hclean : (asleep n a b).Clean BackIn.idle := by
      refine ⟨fun h => ?_, fun h => ?_, fun h => ?_, fun h => ?_⟩
      · rw [ha] at h
        cases h
      · rw [coreCtl, (Core.tAllocTwo_tAlloc h).1] at ha
        cases ha
      · rw [hr] at h
        cases h
      · rw [hr] at h
        cases h
    exact ⟨hclean, rfl⟩

/-- After start-up the instruction `w` is fetched at address 0 and allocated. -/
def oneInsn (w : Word) : List BackIn :=
  BackIn.bootInputs ++ [BackIn.fetch 0 w, BackIn.idle]

/-- `sw x1, 0(x0)`. -/
theorem completions_delivered_sw :
    (0 : RobPtr) ∈ (backMachine.run boot (oneInsn 0x00102023)).inFlight ∧
      0 ∈ (backMachine.run boot (oneInsn 0x00102023)).exec.dataSlots :=
  have hallowed : backMachine.Allowed Clean boot (oneInsn 0x00102023) := by decide +kernel
  have h := completions_delivered (reach_boot_clean.run hallowed) (by decide +kernel) 0
    ⟨0, by decide +kernel, by decide +kernel⟩
  ⟨h.1 (by decide +kernel), h.2 (by decide +kernel)⟩

/-- A store of width 7 waits for data that nobody sends. -/
theorem illegal_store_waits :
    ¬∀ s, backMachine.Reach (fun _ _ => True) s → s.Delivered := by
  intro h
  have hb : backMachine.Reach (fun _ _ => True) boot := reach_boot_clean.mono fun _ _ _ => trivial
  have hd := h _ (hb.run (.of_forall (fun _ _ => trivial) boot (oneInsn 0x00007023)))
  have hin := (hd (by decide +kernel) 0 ⟨0, by decide +kernel, by decide +kernel⟩).2
    (by decide +kernel)
  revert hin
  decide +kernel

end Back
end Rv32Core
