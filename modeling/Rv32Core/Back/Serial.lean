import Rv32Core.Back.Invariant
import Rv32Core.Back.StoreData
import Rv32Core.Core.Serial

/-! # Serializing instructions run alone

In a run without an architectural fault an empty ROB means empty queues in the execution unit, and
some free register; so the uop of a monitor call is always allocated, and a serializing uop is the
only entry of the ROB until it has completed. -/

namespace Rv32Core

open Clocked RingBuffer

namespace Back

variable {s : Back} {i : BackIn} {env : Back → BackIn → Prop} {l : SerialLog}

/-- With an empty ROB nothing waits in the queues of the execution unit. -/
theorem Inv.queues_empty (h : s.Inv) (hd : s.DataInv) (h0 : s.core.robCount = 0) :
    s.exec.intSlots = 0 ∧ s.exec.memSlots = 0 ∧ s.exec.dataSlots = 0 := by
  have hno := Core.not_inRob_of_zero h0
  have hdata : s.exec.dataSlots = 0 :=
    Multiset.eq_zero_of_forall_notMem fun p hp => hno p (hd.waits p hp).1
  by_cases hf : s.Flushed
  · obtain ⟨hint, hmem, -⟩ := h.tokens.queues hf
    exact ⟨hint, hmem, hdata⟩
  · have hz : s.inFlight = 0 := h.tokens.inFlight_zero hf fun p =>
      Bool.eq_false_iff.mpr fun hp => hno p (h.occ.inflight.inRob p hp)
    exact ⟨Multiset.le_zero.mp (hz ▸ intSlots_le), Multiset.le_zero.mp (hz ▸ memSlots_le), hdata⟩

theorem Inv.room (h : s.Inv) (hd : s.DataInv) (h0 : s.core.robCount = 0) :
    s.exec.rUq.full = false ∧ s.exec.rMemUq.full = false ∧ s.exec.rMemDq.full = false := by
  obtain ⟨hint, hmem, hdata⟩ := h.queues_empty hd h0
  exact Exec.not_full hint hmem hdata

theorem Inv.uqFull (h : s.Inv) (hd : s.DataInv) (h0 : s.core.robCount = 0) :
    s.exec.uqFull = false := by
  obtain ⟨h1, h2, h3⟩ := h.room hd h0
  rw [Exec.uqFull, h1, h2, h3]
  rfl

/-- What a run without an architectural fault maintains. -/
structure FaultFree (s : Back) (l : SerialLog) : Prop where
  inv : s.Inv
  data : s.DataInv
  cover : s.core.CoverInv
  serial : s.core.SerialInv l
  noWrite : s.core.rState ≠ .writeEpc ∧ s.core.rState ≠ .writeCause

theorem FaultFree.alloc (h : s.FaultFree l) (hs : s.core.rState = .allocForMonitor) (i : BackIn) :
    (s.coreCtl i).tAlloc = true := by
  have h0 := h.inv.occ.none (by rw [hs]; simp [Core.Serial])
  exact h.serial.alloc h.inv.occ hs (h.cover.exists_free h0) (h.inv.uqFull h.data h0)

theorem FaultFree.calm (h : s.FaultFree l) (i : BackIn) : s.Calm i where
  quiet hs := absurd hs h.noWrite.2
  monitor hs := h.alloc hs i

/-- The log of the serializing uop, of the composed machine. -/
def watchSerial (l : SerialLog) (s : Back) (i : BackIn) : SerialLog :=
  Core.watchSerial l s.core (s.coreIn i)

theorem FaultFree.step (h : s.FaultFree l) (hre : backMachine.Reach env s)
    (hf : s.core.rState ≠ .archFault) : (s.step i).FaultFree (watchSerial l s i) := by
  have hc := h.calm i
  have hr := h.inv.noFlushRace (L1d.reach_reqInv (reach_l1d hre)) hc.quiet
  have ho := h.inv.occ
  refine ⟨h.inv.step hre hc, h.data.step ho hre,
    h.cover.step ho.ptrs h.noWrite.2 ho.retires,
    h.serial.step ho (h.inv.answers hre hr) hc.monitor, ?_⟩
  have hw : ¬((s.coreCtl i).nState = .writeEpc ∨ (s.coreCtl i).nState = .writeCause) := fun hw =>
    (Core.ctl_faulting hw).elim hf h.noWrite.1
  exact not_or.mp hw

theorem faultFree_reset (h : backMachine.reset s) : s.FaultFree l := by
  have hinv := inv_reset h
  obtain ⟨⟨rob, bob, dq, hc⟩, he, -⟩ := h
  have h0 := Exec.dataSlots_reset he
  refine ⟨hinv, ⟨h0 ▸ Multiset.nodup_zero, fun p hp => ?_, fun hx => ?_⟩,
    hc ▸ Core.init_coverInv rob bob dq, hc ▸ Core.init_serialInv rob bob dq l, ?_⟩
  · rw [h0] at hp
    exact absurd hp (Multiset.notMem_zero p)
  · rw [hc] at hx
    rcases hx with hx | hx | hx <;> cases hx
  · rw [hc]
    exact ⟨nofun, nofun⟩

/-- The composed machine with the log of the serializing uop. -/
def serialMachine : Machine (Back × SerialLog) BackIn :=
  backMachine.observed ⟨Uop.zero, false⟩ watchSerial

/-- Runs without an architectural fault. -/
def NoFault (x : Back × SerialLog) (_ : BackIn) : Prop := x.1.core.rState ≠ .archFault

instance (x : Back × SerialLog) (i : BackIn) : Decidable (NoFault x i) :=
  inferInstanceAs (Decidable (_ ≠ _))

theorem reach_faultFree (h : serialMachine.Reach NoFault (s, l)) : s.FaultFree l := by
  have hall : ∀ {x : Back × SerialLog}, serialMachine.Reach NoFault x →
      backMachine.Reach (fun s _ => s.core.rState ≠ .archFault) x.1 ∧ x.1.FaultFree x.2 := by
    intro x hx
    induction hx with
    | reset h0 => exact ⟨.reset h0.1, faultFree_reset h0.1⟩
    | step _ he ih => exact ⟨.step ih.1 he, ih.2.step ih.1 he⟩
  exact (hall h).2

/-- **Serializing instructions run alone.**  In every run from reset without an architectural fault:
in the two states that wait for a serializing uop the ROB holds exactly one entry, that of the uop
which ACTIVE found at the head of the decode queue, and a raised completion bit was raised since
this uop was allocated; in ALLOC_FOR_MONITOR the uop is allocated whatever the inputs; whenever the
ROB is empty the integer, memory and store data uop queues are not full and some physical register
is free; and from ACTIVE until it is allocated the serializing uop is at the head of the decode
queue. -/
theorem serializing_alone (h : serialMachine.Reach NoFault (s, l)) :
    (Core.Waits s.core.rState → l.uop.serializingOp = true ∧
      (∃ p o, Core.robView RobEntry.static s.core = [(Core.robEntryOf l.uop true p o).static]) ∧
      (s.core.rRobComplete (idx s.core.rRobHeadPtr) = true → l.done = true)) ∧
    (s.core.rState = .allocForMonitor → ∀ i, (s.coreCtl i).tAlloc = true) ∧
    (s.core.tRobEmpty = true → s.exec.rUq.full = false ∧ s.exec.rMemUq.full = false ∧
      s.exec.rMemDq.full = false ∧ ∃ p, s.core.rPrfFree p = true) ∧
    (Core.Serial s.core.rState → s.core.tDqEmpty = false ∧ s.core.tUop = l.uop ∧
      l.uop.serializingOp = true) := by
  have hi := reach_faultFree h
  refine ⟨fun hw => ⟨(hi.serial.alone hw).1, (hi.serial.alone hw).2, hi.serial.fresh hw⟩,
    fun hs i => hi.alloc hs i, fun he => ?_, hi.serial.waiting⟩
  have h0 := Core.robCount_eq_zero.mpr he
  obtain ⟨h1, h2, h3⟩ := hi.inv.room hi.data h0
  exact ⟨h1, h2, h3, hi.cover.exists_free h0⟩

theorem reach_boot_serial : serialMachine.Reach NoFault (boot, ⟨Uop.zero, false⟩) := by
  refine reach_boot (M := serialMachine) (fun s => (s, ⟨Uop.zero, false⟩)) BackIn.idle
    (.reset ⟨reset_start, rfl⟩) ?_
  rintro s (rfl | ⟨n, a, b, rfl⟩)
  · exact ⟨nofun, rfl⟩
  · have hr : (asleep n a b).core.rState = .flushForHalt := by cases n <;> rfl
    have hp : Core.reportsOn ((asleep n a b).coreIn BackIn.idle)
        (idx (asleep n a b).core.rRobHeadPtr) = false := by
      obtain ⟨h1, -⟩ := L1d.walking_quiet a b ((asleep n a b).l1dIn BackIn.idle)
      have hv : ((asleep n a b).coreIn BackIn.idle).coreMemRspValid = false := h1
      rw [Core.reportsOn, hv]
      cases n <;> rfl
    have ha : ((asleep n a b).core.ctl ((asleep n a b).coreIn BackIn.idle)).tAlloc = false := by
      rw [Core.ctl_tAlloc, hr]
    refine ⟨by rw [NoFault, hr]; decide, congrArg (Prod.mk _) ?_⟩
    rw [watchSerial, Core.watchSerial, hr, if_neg (by decide), ha, hp]
    rfl

/-- `rdinstret x1` at address 0 is fetched, seen and allocated. -/
def rdinstretInputs : List BackIn :=
  BackIn.bootInputs ++ [BackIn.fetch 0 0xC02020F3, BackIn.idle, BackIn.idle]

theorem serializing_alone_rdinstret :
    (serialMachine.run (boot, ⟨Uop.zero, false⟩) rdinstretInputs).1.core.rState =
        .waitForSerializeAndRestart ∧
      ∃ p o, Core.robView RobEntry.static
          (serialMachine.run (boot, ⟨Uop.zero, false⟩) rdinstretInputs).1.core =
        [(Core.robEntryOf (serialMachine.run (boot, ⟨Uop.zero, false⟩) rdinstretInputs).2.uop true p
          o).static] :=
  have hs : (serialMachine.run (boot, ⟨Uop.zero, false⟩) rdinstretInputs).1.core.rState =
      .waitForSerializeAndRestart := by decide +kernel
  ⟨hs, ((serializing_alone (.run reach_boot_serial (by decide +kernel))).1 (.inl hs)).2.1⟩

end Back
end Rv32Core
