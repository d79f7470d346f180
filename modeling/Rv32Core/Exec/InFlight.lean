import Mathlib.Algebra.BigOperators.Fin
import Rv32Core.Exec.WaitBits

/-! # The uops in flight

The execution unit owes the core one report on every uop it has taken, an answer of the data
cache included.  The slots of these uops are tokens: a cycle moves a token from the queues to a
port, from a port to the multiplier, to the divider or to a report, from the memory uop queue to
the request queue, and drops those a flush finds in the queues. -/

namespace Rv32Core

open Clocked RingBuffer AgeMatrix

/-! ### The multiplier and the divider -/

/-- The slots of the multiplications under way. -/
def Mul.slots (m : Mul) : Multiset RobPtr := ∑ j, single (m.rComplete j) (m.rRobPtr j)

theorem Mul.slots_step (m : Mul) (i : MulIn) :
    (m.step i).slots + single m.complete m.robPtrOut = m.slots + single i.go i.robPtrIn :=
  sum_shift ..

/-- The slot of the division under way. -/
def Divider.slots (d : Divider 5) : Multiset RobPtr := single (decide (d.rState ≠ .idle)) d.rRobPtr

theorem Divider.slots_step {d : Divider 5} {i : DivIn 5} (h : i.startDiv = true → d.rState = .idle) :
    (d.step i).slots + single d.complete d.robPtrOut = d.slots + single i.startDiv i.robPtrIn :=
  single_step h (fun hs => (step_tags_idle hs).1) fun hs => (step_tags_busy hs).1

namespace Exec

variable {s : Exec} {i : ExecIn} {l : ExecLog}

/-! ### Tokens -/

/-- The slots of the operations under way in the multiplier and the divider. -/
def unitSlots (s : Exec) : Multiset RobPtr := s.mul.slots + s.div.slots

/-- The slots reported on in this cycle. -/
def reports (s : Exec) : Multiset RobPtr :=
  single s.completeValid1 s.completeBundle1.robPtr +
    single s.completeValid2 s.completeBundle2.robPtr

/-- The slots of the memory uops on their way to the data cache. -/
def sentSlots (s : Exec) : Multiset RobPtr :=
  single s.rMemReady s.memUq.robPtr + (s.rMemQ.view.map MemReq.robPtr : List RobPtr)

/-- The slots of all uops the execution unit holds. -/
def inFlight (s : Exec) : Multiset RobPtr :=
  s.intSlots + s.memSlots + s.unitSlots + s.reports + s.sentSlots

/-- The slot of the request the data cache takes in this cycle. -/
def handedOver (s : Exec) (i : ExecIn) : Multiset RobPtr := single i.memReqAck s.memReq.robPtr

/-- The slots pushed in this cycle. -/
def pushedIn (i : ExecIn) : Multiset RobPtr := pushedSlots Uop.isInt i + pushedSlots Uop.isMem i

/-- The slots of the uops on the ports. -/
def portSlots (s : Exec) : Multiset RobPtr :=
  single s.rStartInt s.intUop.robPtr + single s.rStartInt2 s.intUop2.robPtr

theorem intSlots_portSlots (s : Exec) :
    s.intSlots = s.waiting.map Uop.robPtr + s.portSlots := by
  rw [intSlots_eq, Multiset.map_add, map_onPorts]
  rfl

/-! ### The ports -/

/-- A multiplication or division on port 1 that a flush finds there is not started. -/
def lostAtPort (s : Exec) (i : ExecIn) : Multiset RobPtr :=
  single (s.rStartInt && (usesMul s.intUop.op || usesDiv s.intUop.op) && i.dsDone) s.intUop.robPtr

theorem PortInv.reports_step (h : s.PortInv) : (s.step i).reports =
    single s.mul.complete s.mul.robPtrOut + single s.div.complete s.div.robPtrOut +
      single (s.rStartInt && s.alu.aluValid) s.intUop.robPtr +
      single s.rStartInt2 s.intUop2.robPtr := by
  have hv : (s.step i).completeValid1 =
      ((s.rStartInt && s.alu.aluValid) || s.mul.complete || s.div.complete) := rfl
  have hb : (s.step i).completeBundle1.robPtr = s.nCompleteBundle1.robPtr := rfl
  have h2 : single (s.step i).completeValid2 (s.step i).completeBundle2.robPtr =
      single s.rStartInt2 s.intUop2.robPtr := rfl
  have h1 : single (s.step i).completeValid1 (s.step i).completeBundle1.robPtr =
      single s.mul.complete s.mul.robPtrOut + single s.div.complete s.div.robPtrOut +
        single (s.rStartInt && s.alu.aluValid) s.intUop.robPtr := by
    rw [hv, hb]
    unfold nCompleteBundle1 tMulComplete tDivComplete
    cases hm : s.mul.complete
    · cases hd : s.div.complete
      · simp
      · have ha : (s.rStartInt && s.alu.aluValid) = false := Bool.eq_false_iff.mpr fun ha => by
          rw [Bool.and_eq_true] at ha
          have hn : s.div.complete = false := (h.alu_alone ha.1 ha.2).2
          rw [hd] at hn
          cases hn
        simp [ha]
    · have hd : s.div.complete = false := h.mul_not_div hm
      have ha : (s.rStartInt && s.alu.aluValid) = false := Bool.eq_false_iff.mpr fun ha => by
        rw [Bool.and_eq_true] at ha
        have hn : s.mul.complete = false := (h.alu_alone ha.1 ha.2).1
        rw [hm] at hn
        cases hn
      simp [hd, ha]
  rw [reports, h1, h2]

/-- What port 1 has is reported next, or handed to the multiplier or to the divider. -/
theorem port1_split (s : Exec) (i : ExecIn) : single s.rStartInt s.intUop.robPtr =
    single (s.rStartInt && s.alu.aluValid) s.intUop.robPtr +
      single (s.mulIn i).go s.intUop.robPtr + single (s.divIn i).startDiv s.intUop.robPtr +
      s.lostAtPort i := by
  have ha : s.alu.aluValid = !(usesMul s.intUop.op || usesDiv s.intUop.op) :=
    Port1.aluValid_eq s.counters s.intUop s.tSrcA s.tSrcB
  have hg : (s.mulIn i).go = (usesMul s.intUop.op && (s.rStartInt && !i.dsDone) && s.rStartInt) := rfl
  have hd : (s.divIn i).startDiv = (usesDiv s.intUop.op && (s.rStartInt && !i.dsDone)) := rfl
  unfold lostAtPort
  rw [ha, hg, hd]
  cases hm : usesMul s.intUop.op
  · cases usesDiv s.intUop.op <;> cases s.rStartInt <;> cases i.dsDone <;> simp
  · rw [usesDiv_of_usesMul hm]
    cases s.rStartInt <;> cases i.dsDone <;> simp

/-- **The units move on**: what is on the ports comes in, what completes is reported. -/
theorem PortInv.units_step (h : s.PortInv) :
    (s.step i).unitSlots + (s.step i).reports + s.lostAtPort i = s.unitSlots + s.portSlots := by
  have hm := s.mul.slots_step (s.mulIn i)
  have hd := Divider.slots_step (d := s.div) (i := s.divIn i) h.idle_of_start
  have hmi : (s.mulIn i).robPtrIn = s.intUop.robPtr := rfl
  have hdi : (s.divIn i).robPtrIn = s.intUop.robPtr := rfl
  rw [hmi] at hm
  rw [hdi] at hd
  have hnew : (s.step i).unitSlots = (s.mul.step (s.mulIn i)).slots + (s.div.step (s.divIn i)).slots :=
    rfl
  rw [hnew, h.reports_step, portSlots, port1_split s i, unitSlots]
  calc _ = ((s.mul.step (s.mulIn i)).slots + single s.mul.complete s.mul.robPtrOut) +
        ((s.div.step (s.divIn i)).slots + single s.div.complete s.div.robPtrOut) +
        (single (s.rStartInt && s.alu.aluValid) s.intUop.robPtr +
          single s.rStartInt2 s.intUop2.robPtr + s.lostAtPort i) := by abel
    _ = _ := by
        rw [hm, hd]
        abel

theorem PortInv.mem_units_step (h : s.PortInv) {p : RobPtr} (hp : p ∈ (s.step i).unitSlots) :
    p ∈ s.unitSlots ∨ s.rStartInt = true ∧ i.dsDone = false ∧ s.intUop.robPtr = p := by
  have hm := s.mul.slots_step (s.mulIn i)
  have hd := Divider.slots_step (d := s.div) (i := s.divIn i) h.idle_of_start
  have hgo : (s.mulIn i).go = true → s.rStartInt = true ∧ i.dsDone = false := fun hg => by
    have hg' : (usesMul s.intUop.op && (s.rStartInt && !i.dsDone) && s.rStartInt) = true := hg
    simp only [Bool.and_eq_true, Bool.not_eq_true'] at hg'
    exact hg'.1.2
  have hst : (s.divIn i).startDiv = true → s.rStartInt = true ∧ i.dsDone = false := fun hg => by
    have hg' : (usesDiv s.intUop.op && (s.rStartInt && !i.dsDone)) = true := hg
    simp only [Bool.and_eq_true, Bool.not_eq_true'] at hg'
    exact hg'.2
  have hsplit : p ∈ (s.mul.step (s.mulIn i)).slots ∨ p ∈ (s.div.step (s.divIn i)).slots :=
    Multiset.mem_add.mp hp
  rcases hsplit with hp | hp
  · have hin : p ∈ s.mul.slots + single (s.mulIn i).go (s.mulIn i).robPtrIn := by
      rw [← hm]
      exact Multiset.mem_add.mpr (.inl hp)
    rcases Multiset.mem_add.mp hin with hin | hin
    · exact .inl (Multiset.mem_add.mpr (.inl hin))
    · obtain ⟨hg, he⟩ := mem_single.mp hin
      exact .inr ⟨(hgo hg).1, (hgo hg).2, he⟩
  · have hin : p ∈ s.div.slots + single (s.divIn i).startDiv (s.divIn i).robPtrIn := by
      rw [← hd]
      exact Multiset.mem_add.mpr (.inl hp)
    rcases Multiset.mem_add.mp hin with hin | hin
    · exact .inl (Multiset.mem_add.mpr (.inr hin))
    · obtain ⟨hg, he⟩ := mem_single.mp hin
      exact .inr ⟨(hst hg).1, (hst hg).2, he⟩

theorem PortInv.mem_reports_step (h : s.PortInv) (h0 : s.intSlots = 0) {p : RobPtr}
    (hp : p ∈ (s.step i).reports) : p ∈ s.unitSlots := by
  have hport : s.portSlots = 0 := by
    rw [intSlots_portSlots] at h0
    refine Multiset.card_eq_zero.mp ?_
    have hc := congrArg Multiset.card h0
    rw [Multiset.card_add, Multiset.card_zero] at hc
    omega
  have hu := h.units_step (i := i)
  rw [hport, add_zero] at hu
  rw [← hu]
  exact Multiset.mem_add.mpr (.inl (Multiset.mem_add.mpr (.inr hp)))

/-! ### The memory requests -/

/-- **Requests move on**: the uop popped comes in, the request taken goes out. -/
theorem QueuesInv.sentSlots_step (h : s.QueuesInv l) (he : s.Polite i) :
    (s.step i).sentSlots + s.handedOver i = s.sentSlots + single (s.tPopMemUq i) s.tMemUq.robPtr := by
  have hq := congrArg (Multiset.map MemReq.robPtr) (h.memQ_step he)
  rw [Multiset.map_add, Multiset.map_add, map_single, map_single, tMemTail_robPtr] at hq
  have hack : single i.memReqAck s.memReq.robPtr = s.handedOver i := rfl
  rw [hack] at hq
  have hready : single (s.step i).rMemReady (s.step i).memUq.robPtr =
      single (s.tPopMemUq i) s.tMemUq.robPtr := rfl
  unfold sentSlots
  rw [hready]
  simp only [Multiset.map_coe] at hq
  calc _ = single (s.tPopMemUq i) s.tMemUq.robPtr +
        (((s.step i).rMemQ.view.map MemReq.robPtr : List RobPtr) + s.handedOver i) := by abel
    _ = _ := by
        rw [hq]
        abel

theorem handedOver_mem (he : s.Polite i) {p : RobPtr} (hp : p ∈ s.handedOver i) :
    p ∈ s.sentSlots := by
  obtain ⟨ha, rfl⟩ := mem_single.mp hp
  have hv := he.reqAck ha
  rw [memReqValid, Bool.not_eq_true'] at hv
  have hhead : s.memReq ∈ s.rMemQ.view := ExecQueue.head_mem hv
  exact Multiset.mem_add.mpr (.inr (List.mem_map_of_mem hhead))

/-! ### One cycle -/

/-- **Tokens move**: the uops pushed come in; those reported on and those the data cache takes go
out. -/
theorem QueuesInv.inFlight_step (h : s.QueuesInv l) (hp : s.PortInv) (he : s.Polite i)
    {age age2 : SchedIdx → ℕ} (ho : Ordered s.sched.rValid s.sched.rMatrix age)
    (ho2 : Ordered s.sched2.rValid s.sched2.rMatrix age2) (hd : i.dsDone = false) :
    (s.step i).inFlight + s.reports + s.handedOver i = s.inFlight + pushedIn i := by
  have hint := h.intSlots_step he ho ho2 hd
  have hmem := h.memSlots_step he hd
  have hunit := hp.units_step (i := i)
  have hsent := h.sentSlots_step he
  have hlost : s.lostAtPort i = 0 := by
    rw [lostAtPort, hd, Bool.and_false]
    rfl
  rw [hlost, add_zero] at hunit
  change _ + single _ _ + single _ _ = _ at hint
  change _ + single _ _ = _ at hmem
  unfold inFlight pushedIn
  ext r
  have h1 := congrArg (Multiset.count r) hint
  have h2 := congrArg (Multiset.count r) hmem
  have h3 := congrArg (Multiset.count r) hunit
  have h4 := congrArg (Multiset.count r) hsent
  unfold portSlots at h3
  simp only [Multiset.count_add] at h1 h2 h3 h4 ⊢
  omega

/-- A flush drops tokens and makes up none. -/
theorem QueuesInv.inFlight_flush (h : s.QueuesInv l) (hp : s.PortInv) (he : s.Polite i)
    (hd : i.dsDone = true) :
    (s.step i).inFlight + s.reports + s.handedOver i ≤ s.inFlight := by
  obtain ⟨hint, hmem⟩ := slots_flushed (s := s) hd
  have hunit := hp.units_step (i := i)
  have hsent := h.sentSlots_step he
  have hpop : s.tPopMemUq i = false := by
    rw [tPopMemUq, hd, Bool.not_true, Bool.and_false]
  rw [hpop, single_false, add_zero] at hsent
  unfold inFlight
  rw [hint, hmem, intSlots_portSlots s, Multiset.le_iff_count]
  intro r
  have h3 := congrArg (Multiset.count r) hunit
  have h4 := congrArg (Multiset.count r) hsent
  simp only [Multiset.count_add, Multiset.count_zero] at h3 h4 ⊢
  omega

theorem inFlight_reset (h : s.IsReset) : s.inFlight = 0 := by
  obtain ⟨-, hi, hm⟩ := exact_reset h
  have hmul : s.mul.slots = 0 := by
    unfold Mul.slots
    rw [h.mulComplete]
    exact Finset.sum_const_zero
  have hdiv : s.div.slots = 0 := by
    rw [h.div]
    rfl
  unfold inFlight unitSlots reports sentSlots
  rw [hi, hm, hmul, hdiv, h.completeValid1, h.completeValid2, h.rMemReady, h.rMemQ.view]
  rfl

end Exec
end Rv32Core
