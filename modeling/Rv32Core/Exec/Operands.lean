import Rv32Core.Exec.Writers
import Rv32Core.Exec.StoreData

/-! # Every uop reads the right operands

A run is watched with the value last written to each register, the registers that are owed, and
the registers that uops of before the last flush are still to write.  A register nobody owes is
settled: its value is the one in the register file.  Ready bits, the inflight bits and the delayed
wakeups of the two units all mean that a source is settled or is written in this very cycle by an
integer port or the memory, and then one forwarding register has its value.

The uops pushed name destinations that no unfinished uop names, and sources that no flushed uop is
still to write. -/

namespace Rv32Core

open Clocked RingBuffer AgeMatrix

/-- A register the uop reads. -/
def Uop.Reads (u : Uop) (r : PrfPtr) : Prop :=
  (u.srcAValid = true ∧ u.srcA = r) ∨ (u.srcBValid = true ∧ u.srcB = r)

/-- What a run of the execution unit has done: the registers that accepted loads are to write, the
registers with a producer pushed that has not written yet, those that uops of before the last flush
are still to write, the number of stores pushed before the last flush whose data is not yet read,
whether the store data read last is of a later one, and the value last written to each register. -/
structure OperandLog where
  loads : Multiset PrfPtr
  due : PrfPtr → Bool
  left : Multiset PrfPtr
  old : ℕ
  fresh : Bool
  regs : PrfPtr → Option Word

namespace Exec

variable {s : Exec} {i : ExecIn} {l : OperandLog} {q : ExecLog} {r : PrfPtr}

/-- The values last written after a cycle. -/
def nRegs (regs : PrfPtr → Option Word) (s : Exec) (i : ExecIn) : PrfPtr → Option Word :=
  regs
    |> writeIf s.wrInt s.intUop.dst (some s.alu.result)
    |> writeIf s.wrInt2 s.intUop2.dst (some s.alu2.result)
    |> writeIf s.tMulComplete s.mul.prfPtrOut (some (s.mul.y.setWidth 32))
    |> writeIf s.tDivComplete s.div.prfPtrOut (some s.div.result)
    |> writeIf i.memRspDstValid i.memRspDstPtr (some i.memRspLoadData)

/-- The log after a cycle. -/
def watchOperands (l : OperandLog) (s : Exec) (i : ExecIn) : OperandLog where
  loads := nLoads l.loads s i
  due := nDue l.due s i
  left := if i.dsDone then (s.step i).writers (nLoads l.loads s i) else l.left - s.written i
  old :=
    if i.dsDone then (s.step i).rMemDq.view.length
    else if i.memDqClr then 0 else l.old - (s.tPopMemDq i).toNat
  fresh := l.old == 0
  regs := nRegs l.regs s i

/-- The log before the first cycle. -/
def emptyOperands : OperandLog := ⟨0, fun _ => false, 0, 0, false, fun _ => none⟩

/-- The execution unit with the log of its registers. -/
def operandExec : Machine (Exec × OperandLog) ExecIn :=
  execMachine.observed emptyOperands watchOperands

/-- A register that a waiting uop or store data still reads, stores of before the last `n` ones
apart. -/
def Reads (s : Exec) (n : ℕ) (r : PrfPtr) : Prop :=
  (∃ u ∈ s.waiting, u.Reads r) ∨ (∃ u ∈ s.rMemUq.view, u.Reads r) ∨
    ∃ d ∈ s.rMemDq.view.drop n, d.srcPtr = r

/-- The uops of a program, renamed, arrive in order: a destination pushed is not the source or the
destination of an unfinished uop, nor that of the other uop of its pair; a source is not a register
that a flushed uop is still to write; and the data cache answers each load once. -/
structure InOrder (x : Exec × OperandLog) (i : ExecIn) : Prop where
  polite : x.1.Polite i
  pushable : ∀ u ∈ pushedUops i, u.Pushable
  fresh : ∀ r, pushes i r = true → r ∉ x.1.writers x.2.loads ∧ ¬x.1.Reads 0 r
  pair : i.uqPush = true → i.uqPushTwo = true → i.uqUop.dstValid = true →
    i.uqUopTwo.dstValid = true → i.uqUop.dst ≠ i.uqUopTwo.dst
  sources : ∀ u ∈ pushedUops i, ∀ r, u.Reads r → r ∉ x.2.left
  answers : i.memRspDstValid = true → i.memRspDstPtr ∈ x.2.loads

/-! ### Who is to write, over a cycle -/

/-- Nobody owes the register. -/
def Settled (s : Exec) (l : OperandLog) (r : PrfPtr) : Prop :=
  r ∉ s.writers l.loads ∧ l.due r = false

/-- What a cycle does to the registers that are to be written. -/
structure Moves (s : Exec) (l : OperandLog) (i : ExecIn) : Prop where
  was : ∀ r ∈ s.written i, r ∈ s.writers l.loads
  gone : ∀ r ∈ s.written i, r ∉ (s.step i).writers (nLoads l.loads s i)
  source : ∀ r ∈ (s.step i).writers (nLoads l.loads s i),
    r ∈ s.writers l.loads ∨ pushes i r = true
  apart : (s.written i).Nodup
  once : ((s.step i).writers (nLoads l.loads s i)).Nodup

theorem pushedDsts_nodup (he : InOrder (s, l) i) : (pushedDsts i).Nodup := by
  rw [pushedDsts_eq he.pushable, Multiset.nodup_add]
  refine ⟨by cases i.uqPush && i.uqUop.dstValid <;> simp,
    by cases i.uqPushTwo && i.uqUopTwo.dstValid <;> simp, Multiset.disjoint_left.mpr ?_⟩
  intro r h1 h2
  rw [mem_single, Bool.and_eq_true] at h1 h2
  exact he.pair h1.1.1 h2.1.1 h1.1.2 h2.1.2 (h1.2.trans h2.2.symm)

theorem written_le (h : s.UopsOk) (hq : s.QueuesInv q) (he : s.Polite i) (hp : PortInv s)
    {age age2 : SchedIdx → ℕ} (ho : Ordered s.sched.rValid s.sched.rMatrix age)
    (ho2 : Ordered s.sched2.rValid s.sched2.rMatrix age2) {loads : Multiset PrfPtr}
    (hload : i.memRspDstValid = true → i.memRspDstPtr ∈ loads) :
    s.written i ≤ s.writers loads := by
  have he' : s.Polite { i with uqPush := false, uqPushTwo := false } :=
    ⟨nofun, nofun, he.reqAck, he.dataAck⟩
  have hw := writers_step h hq he' hp ho ho2 hload
  have h0 : pushedDsts { i with uqPush := false, uqPushTwo := false } = 0 := by
    rw [pushedDsts, bind_accepted, bind_accepted]
    rfl
  rw [h0, add_zero] at hw
  exact le_of_add_le_right hw

theorem InOrder.moves (he : InOrder (s, l) i) (hnd : (s.writers l.loads).Nodup) (h : s.UopsOk)
    (hq : s.QueuesInv q) (hp : PortInv s) {age age2 : SchedIdx → ℕ}
    (ho : Ordered s.sched.rValid s.sched.rMatrix age)
    (ho2 : Ordered s.sched2.rValid s.sched2.rMatrix age2) : Moves s l i := by
  have hstep := writers_step h hq he.polite hp ho ho2 he.answers
  have hle := written_le h hq he.polite hp ho ho2 he.answers
  have hall : (s.writers l.loads + pushedDsts i).Nodup := by
    rw [Multiset.nodup_add]
    refine ⟨hnd, pushedDsts_nodup he, Multiset.disjoint_left.mpr fun {r} hw hpush => ?_⟩
    exact (he.fresh r ((mem_pushedDsts he.pushable).mp hpush)).1 hw
  have hnew := Multiset.nodup_of_le hstep hall
  rw [Multiset.nodup_add] at hnew
  refine ⟨fun r hr => Multiset.mem_of_le hle hr, fun r hr hw => ?_, fun r hr => ?_, hnew.2.1,
    hnew.1⟩
  · exact Multiset.disjoint_left.mp hnew.2.2 hw hr
  · have hm := Multiset.mem_of_le ((Multiset.le_add_right _ _).trans hstep) hr
    rw [Multiset.mem_add, mem_pushedDsts he.pushable] at hm
    exact hm

theorem nDue_eq_false {due : PrfPtr → Bool} (hp : pushes i r = false)
    (h : due r = false ∨ s.writes i r = true) : nDue due s i r = false := by
  unfold nDue
  rw [hp, Bool.false_or]
  obtain h | h := h <;> rw [h] <;> simp

theorem Moves.settled (hm : Moves s l i) (h : s.Settled l r) (hp : pushes i r = false) :
    (s.step i).Settled (watchOperands l s i) r ∧ s.writes i r = false := by
  refine ⟨⟨fun hw => ?_, nDue_eq_false hp (.inl h.2)⟩, Bool.eq_false_iff.mpr fun hw => ?_⟩
  · obtain hw | hpush := hm.source r hw
    · exact h.1 hw
    · rw [hp] at hpush
      cases hpush
  · exact h.1 (hm.was r (mem_written.mpr hw))

theorem Moves.written (hm : Moves s l i) (hw : s.writes i r = true) (hp : pushes i r = false) :
    (s.step i).Settled (watchOperands l s i) r :=
  ⟨hm.gone r (mem_written.mpr hw), nDue_eq_false hp (.inr hw)⟩

theorem writes_of_wakesNow (h : s.wakesNow i r = true) : s.writes i r = true := by
  rw [writes, h]
  rfl

theorem Moves.awake (hm : Moves s l i) (h : s.Settled l r ∨ s.wakesNow i r = true)
    (hp : pushes i r = false) : (s.step i).Settled (watchOperands l s i) r := by
  obtain h | h := h
  · exact (hm.settled h hp).1
  · exact hm.written (writes_of_wakesNow h) hp

/-! ### The value of a register -/

/-- The value last written to a register whose producers have all written. -/
structure Current (s : Exec) (l : OperandLog) (r : PrfPtr) (v : Word) : Prop where
  zero : r = 0 → v = 0
  last : ∀ w, l.regs r = some w → v = w
  settled : s.Settled l r

/-- What a read port selects for a register, in either order of the forwarding registers. -/
def Selects (s : Exec) (p : ReadPort) (v : Word) : Prop := s.intSrc p = v ∧ s.memSrc p = v

theorem not_writes (h : s.writes i r = false) :
    ¬(i.memRspDstValid = true ∧ r = i.memRspDstPtr) ∧ ¬(s.wrInt = true ∧ r = s.intUop.dst) ∧
      ¬(s.wrInt2 = true ∧ r = s.intUop2.dst) ∧
      ¬(s.tMulComplete = true ∧ r = s.mul.prfPtrOut) ∧
      ¬(s.tDivComplete = true ∧ r = s.div.prfPtrOut) := by
  have hn := mt writes_iff.mpr (Bool.eq_false_iff.mp h)
  simp only [not_or] at hn
  exact hn

/-- Write port 0 carries the multiplier, the divider or the integer operation. -/
theorem wen0_iff (r : PrfPtr) : (s.wen0 = true ∧ r = s.wrptr0) ↔
    (s.tMulComplete = true ∧ r = s.mul.prfPtrOut) ∨
      (s.tMulComplete = false ∧ s.tDivComplete = true ∧ r = s.div.prfPtrOut) ∨
      (s.tMulComplete = false ∧ s.tDivComplete = false ∧ s.wrInt = true ∧ r = s.intUop.dst) := by
  unfold wen0 wrptr0
  cases s.tMulComplete <;> cases s.tDivComplete <;> cases s.wrInt <;> simp

theorem unwritten (h : s.writes i r = false) (regs : PrfPtr → Option Word) :
    (s.step i).rRam r = s.rRam r ∧ nRegs regs s i r = regs r ∧
      (s.step i).Selects (s.readPort i r) (if r = 0 then 0 else s.rRam r) := by
  obtain ⟨hmem, hint, hint2, hmul, hdiv⟩ := not_writes h
  have h0 : ¬(s.wen0 = true ∧ r = s.wrptr0) := by
    rw [wen0_iff]
    rintro (hc | hc | hc)
    · exact hmul hc
    · exact hdiv hc.2
    · exact hint hc.2.2
  refine ⟨?_, ?_, ?_⟩
  · show writeIf _ _ _ (writeIf _ _ _ (writeIf _ _ _ _)) r = _
    rw [writeIf_apply, if_neg hint2, writeIf_apply, if_neg hmem, writeIf_apply, if_neg h0]
  · unfold nRegs
    rw [writeIf_apply, if_neg hmem, writeIf_apply, if_neg hdiv, writeIf_apply, if_neg hmul,
      writeIf_apply, if_neg hint2, writeIf_apply, if_neg hint]
  · have hf1 : (s.readPort i r).rFwdInt = false := by simpa [readPort] using hint
    have hf2 : (s.readPort i r).rFwdInt2 = false := by simpa [readPort] using hint2
    have hf3 : (s.readPort i r).rFwdMem = false := by simpa [readPort] using hmem
    unfold Selects intSrc memSrc
    rw [hf1, hf2, hf3]
    exact ⟨rfl, rfl⟩

theorem count_single (r : PrfPtr) (b : Bool) (x : PrfPtr) :
    (single b x).count r = if b = true ∧ r = x then 1 else 0 := by
  cases b <;> simp [Multiset.count_singleton]

theorem wakesNow_iff : s.wakesNow i r = true ↔ (i.memRspDstValid = true ∧ r = i.memRspDstPtr) ∨
    (s.wrInt2 = true ∧ r = s.intUop2.dst) ∨ (s.wrInt = true ∧ r = s.intUop.dst) := by
  unfold wakesNow
  simp only [Bool.or_eq_true, Bool.and_eq_true, beq_iff_eq, or_assoc, eq_comm (b := r)]

/-- A register is written by one of the five producers. -/
theorem one_writer (ha : (s.written i).Nodup) (r : PrfPtr) :
    ((i.memRspDstValid = true ∧ r = i.memRspDstPtr) → ¬(s.wrInt = true ∧ r = s.intUop.dst)) ∧
    ((s.wrInt2 = true ∧ r = s.intUop2.dst) → ¬(s.wrInt = true ∧ r = s.intUop.dst) ∧
      ¬(i.memRspDstValid = true ∧ r = i.memRspDstPtr)) ∧
    ((s.tMulComplete = true ∧ r = s.mul.prfPtrOut) →
      ¬(i.memRspDstValid = true ∧ r = i.memRspDstPtr) ∧
      ¬(s.wrInt2 = true ∧ r = s.intUop2.dst) ∧ ¬(s.wrInt = true ∧ r = s.intUop.dst)) ∧
    ((s.tDivComplete = true ∧ r = s.div.prfPtrOut) →
      ¬(i.memRspDstValid = true ∧ r = i.memRspDstPtr) ∧
      ¬(s.wrInt2 = true ∧ r = s.intUop2.dst) ∧ ¬(s.wrInt = true ∧ r = s.intUop.dst) ∧
      ¬(s.tMulComplete = true ∧ r = s.mul.prfPtrOut)) := by
  have hc := Multiset.nodup_iff_count_le_one.mp ha r
  unfold written at hc
  simp only [Multiset.count_add, count_single] at hc
  split_ifs at hc <;> grind

/-- The value written to a register reaches the register file, and a forwarding register when an
integer port or the memory writes it. -/
theorem written_value (hp : PortInv s) (ha : (s.written i).Nodup) (h : s.writes i r = true)
    (regs : PrfPtr → Option Word) :
    ∃ v, nRegs regs s i r = some v ∧ (s.step i).rRam r = v ∧
      (s.wakesNow i r = true → (s.step i).Selects (s.readPort i r) v) := by
  obtain ⟨hone, htwo, hthree, hfour⟩ := one_writer ha r
  have hram : (s.step i).rRam r = if s.wrInt2 = true ∧ r = s.intUop2.dst then s.alu2.result
      else if i.memRspDstValid = true ∧ r = i.memRspDstPtr then i.memRspLoadData
      else if s.wen0 = true ∧ r = s.wrptr0 then s.wr0 else s.rRam r := by
    show writeIf _ _ _ (writeIf _ _ _ (writeIf _ _ _ _)) r = _
    rw [writeIf_apply, writeIf_apply, writeIf_apply]
  have hregs : nRegs regs s i r = if i.memRspDstValid = true ∧ r = i.memRspDstPtr then
        some i.memRspLoadData
      else if s.tDivComplete = true ∧ r = s.div.prfPtrOut then some s.div.result
      else if s.tMulComplete = true ∧ r = s.mul.prfPtrOut then some (s.mul.y.setWidth 32)
      else if s.wrInt2 = true ∧ r = s.intUop2.dst then some s.alu2.result
      else if s.wrInt = true ∧ r = s.intUop.dst then some s.alu.result else regs r := by
    unfold nRegs
    rw [writeIf_apply, writeIf_apply, writeIf_apply, writeIf_apply, writeIf_apply]
  have hfwd : (s.readPort i r).rFwdInt = decide (s.wrInt = true ∧ r = s.intUop.dst) ∧
      (s.readPort i r).rFwdInt2 = decide (s.wrInt2 = true ∧ r = s.intUop2.dst) ∧
      (s.readPort i r).rFwdMem = decide (i.memRspDstValid = true ∧ r = i.memRspDstPtr) := by
    refine ⟨?_, ?_, ?_⟩ <;> simp [readPort, Bool.decide_and, beq_eq_decide]
  rw [hram, hregs]
  unfold Selects intSrc memSrc
  rw [hfwd.1, hfwd.2.1, hfwd.2.2]
  obtain hmem | hint | hint2 | hmul | hdiv := writes_iff.mp h
  · have hint := hone hmem
    have hint2 := fun hc => (htwo hc).2 hmem
    refine ⟨i.memRspLoadData, if_pos hmem, ?_, fun _ => ?_⟩
    · rw [if_neg hint2, if_pos hmem]
    · rw [decide_eq_true hmem, decide_eq_false hint, decide_eq_false hint2]
      exact ⟨rfl, rfl⟩
  · have hmem := fun hc => hone hc hint
    have hint2 := fun hc => (htwo hc).1 hint
    obtain ⟨hs, hv⟩ := aluValid_of_wrInt hint.1
    obtain ⟨hm, hd⟩ := hp.alu_alone hs hv
    have hw0 : s.wr0 = s.alu.result := by rw [wr0, hm, hd]; rfl
    refine ⟨s.alu.result, ?_, ?_, fun _ => ?_⟩
    · rw [if_neg hmem, hd, hm, if_neg fun hc => Bool.false_ne_true hc.1,
        if_neg fun hc => Bool.false_ne_true hc.1, if_neg hint2, if_pos hint]
    · rw [if_neg hint2, if_neg hmem, if_pos (wen0_iff r |>.mpr (.inr (.inr ⟨hm, hd, hint⟩))), hw0]
    · rw [decide_eq_true hint, decide_eq_false hmem, decide_eq_false hint2]
      exact ⟨rfl, rfl⟩
  · obtain ⟨hint, hmem⟩ := htwo hint2
    have hmul := fun hc => (hthree hc).2.1 hint2
    have hdiv := fun hc => (hfour hc).2.1 hint2
    refine ⟨s.alu2.result, ?_, if_pos hint2, fun _ => ?_⟩
    · rw [if_neg hmem, if_neg hdiv, if_neg hmul, if_pos hint2]
    · rw [decide_eq_true hint2, decide_eq_false hmem, decide_eq_false hint]
      exact ⟨rfl, rfl⟩
  · obtain ⟨hmem, hint2, hint⟩ := hthree hmul
    have hdiv := fun hc => (hfour hc).2.2.2 hmul
    have hw0 : s.wr0 = s.mul.y.setWidth 32 := if_pos hmul.1
    refine ⟨s.mul.y.setWidth 32, ?_, ?_, fun hn => ?_⟩
    · rw [if_neg hmem, if_neg hdiv, if_pos hmul]
    · rw [if_neg hint2, if_neg hmem, if_pos (wen0_iff r |>.mpr (.inl hmul)), hw0]
    · obtain hc | hc | hc := wakesNow_iff.mp hn
      · exact absurd hc hmem
      · exact absurd hc hint2
      · exact absurd hc hint
  · obtain ⟨hmem, hint2, hint, -⟩ := hfour hdiv
    have hm : s.tMulComplete = false := Bool.eq_false_iff.mpr fun hm =>
      Bool.false_ne_true ((hp.mul_not_div hm).symm.trans hdiv.1)
    have hw0 : s.wr0 = s.div.result := by rw [wr0, hm, hdiv.1]; rfl
    refine ⟨s.div.result, ?_, ?_, fun hn => ?_⟩
    · rw [if_neg hmem, if_pos hdiv]
    · rw [if_neg hint2, if_neg hmem, if_pos (wen0_iff r |>.mpr (.inr (.inl ⟨hm, hdiv⟩))), hw0]
    · obtain hc | hc | hc := wakesNow_iff.mp hn
      · exact absurd hc hmem
      · exact absurd hc hint2
      · exact absurd hc hint

/-- **A settled register reads as the value last written**, also when it is written in the cycle of
the read by an integer port or the memory. -/
theorem Moves.current (hm : Moves s l i) (hp : PortInv s)
    (hreg : ∀ r v, l.regs r = some v → s.rRam r = v) (h0 : 0 ∉ s.writers l.loads)
    (hz : l.regs 0 = none) (h : s.Settled l r ∨ s.wakesNow i r = true)
    (hpush : pushes i r = false) : ∃ v, (s.step i).Selects (s.readPort i r) v ∧
      (s.step i).Current (watchOperands l s i) r v := by
  have hset := hm.awake h hpush
  cases hw : s.writes i r
  · obtain ⟨-, hregs, hsel⟩ := unwritten hw l.regs
    refine ⟨_, hsel, fun hr => if_pos hr, fun w hl => ?_, hset⟩
    have hl' : l.regs r = some w := hregs ▸ hl
    rw [if_neg fun hr => by rw [hr, hz] at hl'; cases hl']
    exact hreg r w hl'
  · obtain ⟨v, hv, -, hsel⟩ := written_value hp hm.apart hw l.regs
    have hnow : s.wakesNow i r = true := h.resolve_left fun hs => by
      rw [(hm.settled hs hpush).2] at hw
      cases hw
    refine ⟨v, hsel hnow, fun hr => ?_, fun w hl => ?_, hset⟩
    · exact absurd (hm.was r (mem_written.mpr hw)) (hr ▸ h0)
    · have hl' : nRegs l.regs s i r = some w := hl
      rw [hv] at hl'
      exact Option.some.inj hl'

/-! ### The uops that still read -/

theorem QueuesInv.uq_mem (h : s.QueuesInv q) : (s.tPopUq i = true → s.uq ∈ s.rUq.view) ∧
    (s.tPopUq2 i = true → s.uq2 ∈ s.rUq.view) := by
  have htake := (h.uq_pops i).2
  have hsub : ∀ u, u ∈ [s.uq, s.uq2].take (s.uqPops i) → u ∈ s.rUq.view := fun u hu =>
    List.mem_of_mem_take (htake ▸ hu)
  refine ⟨fun hp => hsub _ ?_, fun hp => hsub _ ?_⟩
  · unfold uqPops
    cases s.tPopUq2 i <;> simp [hp]
  · unfold uqPops
    simp [hp]

theorem Reads.zero {n : ℕ} (h : s.Reads n r) : s.Reads 0 r := by
  obtain h | h | ⟨d, hd, hr⟩ := h
  · exact .inl h
  · exact .inr (.inl h)
  · exact .inr (.inr ⟨d, List.mem_of_mem_drop hd, hr⟩)

theorem reads_step (hq : s.QueuesInv q) (he : s.Polite i) {age age2 : SchedIdx → ℕ}
    (ho : Ordered s.sched.rValid s.sched.rMatrix age)
    (ho2 : Ordered s.sched2.rValid s.sched2.rMatrix age2)
    (h : (s.step i).Reads (watchOperands l s i).old r) :
    i.dsDone = false ∧ (s.Reads l.old r ∨ ∃ u ∈ pushedUops i, u.Reads r) := by
  have hold : (watchOperands l s i).old = if i.dsDone then (s.step i).rMemDq.view.length
    else if i.memDqClr then 0 else l.old - (s.tPopMemDq i).toNat := rfl
  cases hd : i.dsDone
  · rw [hd, if_neg Bool.false_ne_true] at hold
    refine ⟨rfl, ?_⟩
    obtain ⟨u, hu, hr⟩ | ⟨u, hu, hr⟩ | ⟨d, hmem, hr⟩ := h
    · have hu' : u ∈ s.waiting + (accepted Uop.isInt i : List Uop) := by
        rw [← hq.waiting_step he ho ho2 hd]
        exact Multiset.mem_add.mpr (.inl hu)
      obtain hu | hu := Multiset.mem_add.mp hu'
      · exact .inl (.inl ⟨u, hu, hr⟩)
      · exact .inr ⟨u, (accepted_sub hu).1, hr⟩
    · rw [hq.memUq_view_step he hd, List.mem_append] at hu
      obtain hu | hu := hu
      · exact .inl (.inr (.inl ⟨u, List.mem_of_mem_drop hu, hr⟩))
      · exact .inr ⟨u, (accepted_sub hu).1, hr⟩
    · cases hc : i.memDqClr
      · rw [hc, if_neg Bool.false_ne_true] at hold
        rw [hold, hq.memDq_view_step he hc, List.drop_append, List.mem_append,
          List.drop_drop] at hmem
        obtain hmem | hmem := hmem
        · have hle : l.old ≤ (s.tPopMemDq i).toNat + (l.old - (s.tPopMemDq i).toNat) := by omega
          obtain ⟨k, hk⟩ := Nat.exists_eq_add_of_le hle
          rw [hk, ← List.drop_drop] at hmem
          exact .inl (.inr (.inr ⟨d, List.mem_of_mem_drop hmem, hr⟩))
        · obtain ⟨u, hu, rfl⟩ := List.mem_map.mp (List.mem_of_mem_drop hmem)
          obtain ⟨hp, hdata⟩ := accepted_sub hu
          exact .inr ⟨u, hp, .inr ⟨(Bool.and_eq_true _ _ |>.mp hdata).2, hr⟩⟩
      · have hv : (s.step i).rMemDq.view = [] := by
          unfold Exec.step
          rw [hc]
          exact ExecQueue.IsReset.view ⟨rfl, rfl, rfl⟩
        rw [hv, List.drop_nil] at hmem
        cases hmem
  · rw [hd, if_pos rfl] at hold
    obtain ⟨hw, -, hu, -⟩ := waiting_flush (s := s) hd
    obtain ⟨u, hmem, -⟩ | ⟨u, hmem, -⟩ | ⟨d, hmem, -⟩ := h
    · rw [hw] at hmem
      exact absurd hmem (Multiset.notMem_zero u)
    · rw [hu] at hmem
      cases hmem
    · rw [hold, List.drop_length] at hmem
      cases hmem

/-! ### The invariant -/

instance (u : Uop) (r : PrfPtr) : Decidable (u.Reads r) := inferInstanceAs (Decidable (_ ∨ _))

instance (s : Exec) (n : ℕ) (r : PrfPtr) : Decidable (s.Reads n r) :=
  letI : Decidable (∃ u ∈ s.waiting, u.Reads r) := Multiset.decidableExistsMultiset
  inferInstanceAs (Decidable ((∃ u ∈ s.waiting, u.Reads r) ∨ (∃ u ∈ s.rMemUq.view, u.Reads r) ∨
    ∃ d ∈ s.rMemDq.view.drop n, d.srcPtr = r))

/-- The operand of a source on a read port. -/
def Operand (s : Exec) (l : OperandLog) (p : ReadPort) (valid : Bool) (r : PrfPtr) : Prop :=
  valid = true → ∃ v, s.Selects p v ∧ s.Current l r v

/-- Who is to write a register is known, the inflight and ready bits know it too, and the read
ports have the values of what starts. -/
structure OperandInv (s : Exec) (l : OperandLog) : Prop where
  uops : s.UopsOk
  once : (s.writers l.loads).Nodup
  nonzero : 0 ∉ s.writers l.loads
  owed : ∀ r ∈ s.writers l.loads, l.due r = true ∨ r ∈ l.left
  inflight : ∀ r, l.due r = true → s.rPrfInflight r = true
  source : ∀ r, s.Reads l.old r → r ∉ l.left
  mulDone : s.rMulComplete = true → s.Settled l s.rMulPrfPtr
  divDone : s.rDivComplete = true → s.Settled l s.rDivPrfPtr
  srcARdy : s.sched.Sound s.sched.rSrcARdy Uop.srcAValid Uop.srcA (s.Settled l)
  srcBRdy : s.sched.Sound s.sched.rSrcBRdy Uop.srcBValid Uop.srcB (s.Settled l)
  srcARdy2 : s.sched2.Sound s.sched2.rSrcARdy Uop.srcAValid Uop.srcA (s.Settled l)
  srcBRdy2 : s.sched2.Sound s.sched2.rSrcBRdy Uop.srcBValid Uop.srcB (s.Settled l)
  regs : ∀ r v, l.regs r = some v → s.rRam r = v
  zero : l.regs 0 = none
  port1 : s.rStartInt = true → s.Operand l s.srcA s.intUop.srcAValid s.intUop.srcA ∧
    s.Operand l s.srcB s.intUop.srcBValid s.intUop.srcB
  port2 : s.rStartInt2 = true → s.Operand l s.srcA2 s.intUop2.srcAValid s.intUop2.srcA ∧
    s.Operand l s.srcB2 s.intUop2.srcBValid s.intUop2.srcB
  mem : s.rMemReady = true → s.Operand l s.memSrcA s.memUq.srcAValid s.memUq.srcA
  data : s.rDqReady = true → l.fresh = true → s.Operand l s.memSrcB true s.memDq.srcPtr

theorem InOrder.not_pushed (he : InOrder (s, l) i) {n : ℕ} (h : s.Reads n r) :
    pushes i r = false :=
  Bool.eq_false_iff.mpr fun hp => (he.fresh r hp).2 h.zero

theorem InOrder.not_pushed_of_owed (he : InOrder (s, l) i) (h : r ∈ s.writers l.loads) :
    pushes i r = false :=
  Bool.eq_false_iff.mpr fun hp => (he.fresh r hp).1 h

theorem InOrder.ne_zero (he : InOrder (s, l) i) (h : pushes i r = true) : r ≠ 0 := by
  unfold pushes at h
  simp only [Bool.or_eq_true, Bool.and_eq_true, beq_iff_eq] at h
  obtain ⟨⟨hp, hv⟩, rfl⟩ | ⟨⟨hp, hv⟩, rfl⟩ := h
  · exact (he.pushable _ (by simp [pushedUops, hp])).dst hv
  · exact (he.pushable _ (by simp [pushedUops, hp])).dst hv

theorem OperandInv.settled_of_idle (h : s.OperandInv l) (hr : s.Reads l.old r)
    (hf : s.rPrfInflight r = false) : s.Settled l r := by
  have hdue : l.due r = false := Bool.eq_false_iff.mpr fun hd => by
    rw [h.inflight r hd] at hf
    cases hf
  refine ⟨fun hw => ?_, hdue⟩
  obtain hd | hl := h.owed r hw
  · rw [hd] at hdue
    cases hdue
  · exact h.source r hr hl

/-- A source that wakes its entry is settled or heard of in this cycle. -/
theorem OperandInv.of_wakes (h : s.OperandInv l) (hw : s.wakes i r = true) :
    s.Settled l r ∨ s.wakesNow i r = true := by
  obtain hn | ⟨hm, rfl⟩ | ⟨hd, rfl⟩ := wakes_iff.mp hw
  · exact .inr hn
  · exact .inl (h.mulDone hm)
  · exact .inl (h.divDone hd)

theorem OperandInv.of_allocRdy (h : s.OperandInv l) {valid : Bool} (hv : valid = true)
    (hr : s.Reads l.old r) (ha : s.allocRdy i valid r = true) :
    s.Settled l r ∨ s.wakesNow i r = true := by
  rw [allocRdy, if_pos hv, hv, Bool.true_and, Bool.or_eq_true, Bool.not_eq_true'] at ha
  exact ha.imp_left (h.settled_of_idle hr)

theorem OperandInv.operand (h : s.OperandInv l) (hm : Moves s l i) (he : InOrder (s, l) i)
    (hp : PortInv s) {valid : Bool} (hr : valid = true → s.Reads l.old r)
    (hs : valid = true → s.Settled l r ∨ s.wakesNow i r = true) :
    (s.step i).Operand (watchOperands l s i) (s.readPort i r) valid r := fun hv =>
  hm.current hp h.regs h.nonzero h.zero (hs hv) (he.not_pushed (hr hv))

section Scheduler

variable {sch : AluSched} {si : SchedIn} {age : SchedIdx → ℕ} {valid : Uop → Bool}
  {src : Uop → PrfPtr} {rdy : SchedIdx → Bool}

theorem OperandInv.sound_step (h : s.OperandInv l) (hm : Moves s l i) (he : InOrder (s, l) i)
    (ho : Ordered sch.rValid sch.rMatrix age) (hoff : sch.Offers si)
    (hsrc : ∀ u, valid u = true → u.Reads (src u)) (hheld : ∀ u ∈ sch.held, u ∈ s.waiting)
    (hpop : si.pop = true → si.uop ∈ s.waiting)
    (hr : sch.Sound rdy valid src (s.Settled l)) :
    (sch.step si).Sound (sch.nSrcRdy si (s.allocRdy i (valid si.uop) (src si.uop))
      (fun j => valid (sch.rUops j) && s.wakes i (src (sch.rUops j))) rdy) valid src
      ((s.step i).Settled (watchOperands l s i)) := by
  refine hr.step ho hoff (fun j hj hv hmatch => ?_) fun hp hv ha => ?_
  · have hread : s.Reads l.old (src (sch.rUops j)) :=
      .inl ⟨_, hheld _ (AluSched.mem_held.mpr ⟨j, hj, rfl⟩), hsrc _ hv⟩
    refine hm.awake ?_ (he.not_pushed hread)
    obtain hw | hset := hmatch
    · exact h.of_wakes (Bool.and_eq_true _ _ |>.mp hw).2
    · exact .inl hset
  · have hread : s.Reads l.old (src si.uop) := .inl ⟨_, hpop hp, hsrc _ hv⟩
    exact hm.awake (h.of_allocRdy hv hread ha) (he.not_pushed hread)

theorem OperandInv.picked (h : s.OperandInv l) (ho : Ordered sch.rValid sch.rMatrix age)
    (hany : sch.anyRdy si = true) (hheld : ∀ u ∈ sch.held, u ∈ s.waiting)
    (hA : ∀ j, si.srcAMatch j = ((sch.rUops j).srcAValid && s.wakes i (sch.rUops j).srcA))
    (hB : ∀ j, si.srcBMatch j = ((sch.rUops j).srcBValid && s.wakes i (sch.rUops j).srcB))
    (hrA : sch.Sound sch.rSrcARdy Uop.srcAValid Uop.srcA (s.Settled l))
    (hrB : sch.Sound sch.rSrcBRdy Uop.srcBValid Uop.srcB (s.Settled l)) :
    sch.picked si ∈ s.waiting ∧
      ((sch.picked si).srcAValid = true →
        s.Settled l (sch.picked si).srcA ∨ s.wakesNow i (sch.picked si).srcA = true) ∧
      ((sch.picked si).srcBValid = true →
        s.Settled l (sch.picked si).srcB ∨ s.wakesNow i (sch.picked si).srcB = true) := by
  have hrdy := AluSched.selectPtr_ready ho hany
  have hv := AluSched.entryRdy_valid hrdy
  unfold AluSched.entryRdy at hrdy
  split_ifs at hrdy
  rw [hA, hB, Bool.and_eq_true, Bool.or_eq_true, Bool.or_eq_true] at hrdy
  refine ⟨hheld _ (AluSched.mem_held.mpr ⟨_, hv, rfl⟩), fun hva => ?_, fun hvb => ?_⟩
  · obtain hw | hr := hrdy.1
    · exact h.of_wakes (Bool.and_eq_true _ _ |>.mp hw).2
    · exact .inl (hrA _ hv hva hr)
  · obtain hw | hr := hrdy.2
    · exact h.of_wakes (Bool.and_eq_true _ _ |>.mp hw).2
    · exact .inl (hrB _ hv hvb hr)

end Scheduler

theorem UopsOk.step (h : s.UopsOk) (hq : s.QueuesInv q) (he : InOrder (s, l) i)
    {age age2 : SchedIdx → ℕ} (ho : Ordered s.sched.rValid s.sched.rMatrix age)
    (ho2 : Ordered s.sched2.rValid s.sched2.rMatrix age2) : (s.step i).UopsOk := by
  refine ⟨fun u hu => ?_, fun u hu => ?_⟩
  · have hm := Multiset.mem_of_le (hq.waiting_le he.polite ho ho2) hu
    obtain hm | hm := Multiset.mem_add.mp hm
    · exact h.int u (Multiset.mem_add.mpr (.inl hm))
    · obtain ⟨hp, hi⟩ := accepted_sub hm
      exact ⟨he.pushable u hp, hi⟩
  · have hm := Multiset.mem_of_le (hq.memWaiting_le he.polite) hu
    obtain hm | hm := Multiset.mem_add.mp hm
    · exact h.mem u (Multiset.mem_add.mpr (.inl hm))
    · obtain ⟨hp, hi⟩ := accepted_sub hm
      exact ⟨he.pushable u hp, hi⟩

/-! ### One step -/

theorem OperandInv.step_owed (h : s.OperandInv l) (hm : Moves s l i) :
    ∀ r ∈ (s.step i).writers (nLoads l.loads s i),
      nDue l.due s i r = true ∨ r ∈ (watchOperands l s i).left := by
  intro r hr
  have hleft : (watchOperands l s i).left =
    if i.dsDone then (s.step i).writers (nLoads l.loads s i) else l.left - s.written i := rfl
  cases hd : i.dsDone
  · have hnot : r ∉ s.written i := fun hw => hm.gone r hw hr
    have hw : s.writes i r = false := Bool.eq_false_iff.mpr fun hw => hnot (mem_written.mpr hw)
    rw [hleft, hd, if_neg Bool.false_ne_true, nDue, hd, hw]
    obtain hold | hpush := hm.source r hr
    · obtain hdue | hl := h.owed r hold
      · exact .inl (by rw [hdue]; simp)
      · refine .inr (Multiset.count_pos.mp ?_)
        rw [Multiset.count_sub, Multiset.count_eq_zero_of_notMem hnot, Nat.sub_zero]
        exact Multiset.count_pos.mpr hl
    · exact .inl (by rw [hpush]; rfl)
  · rw [hleft, hd, if_pos rfl]
    exact .inr hr

theorem OperandInv.step_inflight (h : s.OperandInv l) (hm : Moves s l i) (he : InOrder (s, l) i)
    (hp : PortInv s) : ∀ r, nDue l.due s i r = true → (s.step i).rPrfInflight r = true := by
  intro r hr
  rw [nDue, Bool.and_eq_true, Bool.or_eq_true, Bool.and_eq_true, Bool.not_eq_true',
    Bool.not_eq_true'] at hr
  obtain ⟨hd, hr⟩ := hr
  rw [Exec.step_inflight, hd, Bool.not_false, Bool.true_and, hp.nPrfInflight_iff]
  obtain hpush | ⟨hdue, hw⟩ := hr
  · refine ⟨.inl hpush, Bool.eq_false_iff.mpr fun hw => ?_⟩
    exact (he.fresh r hpush).1 (hm.was r (mem_written.mpr hw))
  · exact ⟨.inr (h.inflight r hdue), hw⟩

theorem OperandInv.step_regs (h : s.OperandInv l) (hm : Moves s l i) (hp : PortInv s) :
    (∀ r v, nRegs l.regs s i r = some v → (s.step i).rRam r = v) ∧ nRegs l.regs s i 0 = none := by
  refine ⟨fun r v hv => ?_, ?_⟩
  · cases hw : s.writes i r
    · obtain ⟨hram, hregs, -⟩ := unwritten hw l.regs
      rw [hram]
      exact h.regs r v (hregs ▸ hv)
    · obtain ⟨w, hw', hram, -⟩ := written_value hp hm.apart hw l.regs
      rw [hram]
      exact Option.some.inj (hw'.symm.trans hv)
  · have hw : s.writes i 0 = false := Bool.eq_false_iff.mpr fun hw =>
      h.nonzero (hm.was 0 (mem_written.mpr hw))
    exact (unwritten hw l.regs).2.1.trans h.zero

/-- A unit that writes in this cycle wakes its readers in the next, when its register is settled. -/
theorem Moves.unit_done (hm : Moves s l i) (he : InOrder (s, l) i) (hw : s.writes i r = true) :
    (s.step i).Settled (watchOperands l s i) r :=
  hm.written hw (he.not_pushed_of_owed (hm.was r (mem_written.mpr hw)))

theorem OperandInv.step_source (h : s.OperandInv l) (hq : s.QueuesInv q) (he : InOrder (s, l) i)
    {age age2 : SchedIdx → ℕ} (ho : Ordered s.sched.rValid s.sched.rMatrix age)
    (ho2 : Ordered s.sched2.rValid s.sched2.rMatrix age2) :
    ∀ r, (s.step i).Reads (watchOperands l s i).old r → r ∉ (watchOperands l s i).left := by
  intro r hr
  obtain ⟨hd, hr⟩ := reads_step hq he.polite ho ho2 hr
  have hleft : (watchOperands l s i).left =
    if i.dsDone then (s.step i).writers (nLoads l.loads s i) else l.left - s.written i := rfl
  have hnot : r ∉ l.left := by
    obtain hr | ⟨u, hu, hr⟩ := hr
    · exact h.source r hr
    · exact he.sources u hu r hr
  rw [hleft, hd, if_neg Bool.false_ne_true]
  exact fun hc => hnot (Multiset.mem_of_le (Multiset.sub_le_self _ _) hc)

theorem OperandInv.step_mem (h : s.OperandInv l) (hm : Moves s l i) (he : InOrder (s, l) i)
    (hp : PortInv s) (hpop : s.tPopMemUq i = true) : (s.step i).Operand (watchOperands l s i)
      (s.readPort i s.tMemUq.srcA) s.tMemUq.srcAValid s.tMemUq.srcA := by
  have hread : s.tMemUq.srcAValid = true → s.Reads l.old s.tMemUq.srcA := fun hv =>
    .inr (.inl ⟨_, ExecQueue.head_mem (tPopMemUq_spec hpop).1, .inl ⟨hv, rfl⟩⟩)
  refine h.operand hm he hp hread fun hv => ?_
  unfold tPopMemUq memSrcAReady at hpop
  rw [if_pos hv, Bool.and_eq_true, Bool.and_eq_true, Bool.or_eq_true, Bool.not_eq_true'] at hpop
  exact hpop.1.2.imp_left (h.settled_of_idle (hread hv))

theorem OperandInv.step_data (h : s.OperandInv l) (hm : Moves s l i) (he : InOrder (s, l) i)
    (hp : PortInv s) (hpop : s.tPopMemDq i = true) (hold : (l.old == 0) = true) :
    (s.step i).Operand (watchOperands l s i) (s.readPort i s.tMemDq.srcPtr) true
      s.tMemDq.srcPtr := by
  have hread : s.Reads l.old s.tMemDq.srcPtr := by
    rw [beq_iff_eq.mp hold]
    exact .inr (.inr ⟨_, ExecQueue.head_mem (tPopMemDq_spec hpop).1, rfl⟩)
  refine h.operand hm he hp (fun _ => hread) fun _ => ?_
  unfold tPopMemDq dqReady at hpop
  rw [Bool.and_eq_true, Bool.and_eq_true, Bool.or_eq_true, Bool.not_eq_true'] at hpop
  exact hpop.1.2.imp_left (h.settled_of_idle hread)

/-- **One cycle keeps the invariant.** -/
theorem OperandInv.step (h : s.OperandInv l) (hq : s.QueuesInv q) (hp : PortInv s)
    (he : InOrder (s, l) i) {age age2 : SchedIdx → ℕ}
    (ho : Ordered s.sched.rValid s.sched.rMatrix age)
    (ho2 : Ordered s.sched2.rValid s.sched2.rMatrix age2) :
    (s.step i).OperandInv (watchOperands l s i) := by
  have hm := he.moves h.once h.uops hq hp ho ho2
  have hheld : ∀ u ∈ s.sched.held, u ∈ s.waiting := fun u hu =>
    Multiset.mem_add.mpr (.inl (Multiset.mem_add.mpr (.inr hu)))
  have hheld2 : ∀ u ∈ s.sched2.held, u ∈ s.waiting := fun u hu =>
    Multiset.mem_add.mpr (.inr hu)
  have hpop : s.tPopUq i = true → s.uq ∈ s.waiting := fun hu =>
    Multiset.mem_add.mpr (.inl (Multiset.mem_add.mpr (.inl (hq.uq_mem.1 hu))))
  have hpop2 : s.tPopUq2 i = true → s.uq2 ∈ s.waiting := fun hu =>
    Multiset.mem_add.mpr (.inl (Multiset.mem_add.mpr (.inl (hq.uq_mem.2 hu))))
  have hA : ∀ u : Uop, u.srcAValid = true → u.Reads u.srcA := fun u hv => .inl ⟨hv, rfl⟩
  have hB : ∀ u : Uop, u.srcBValid = true → u.Reads u.srcB := fun u hv => .inr ⟨hv, rfl⟩
  have hoff := offers_schedIn s i
  have hoff2 := offers_schedIn2 s i
  have hregs := h.step_regs hm hp
  exact {
    uops := h.uops.step hq he ho ho2
    once := hm.once
    nonzero := fun hw => (hm.source 0 hw).elim h.nonzero fun hpush => he.ne_zero hpush rfl
    owed := h.step_owed hm
    inflight := h.step_inflight hm he hp
    source := h.step_source hq he ho ho2
    mulDone := fun hc => hm.unit_done he (writes_iff.mpr (.inr (.inr (.inr (.inl ⟨hc, rfl⟩)))))
    divDone := fun hc => hm.unit_done he (writes_iff.mpr (.inr (.inr (.inr (.inr ⟨hc, rfl⟩)))))
    srcARdy := h.sound_step hm he ho hoff hA hheld hpop h.srcARdy
    srcBRdy := h.sound_step hm he ho hoff hB hheld hpop h.srcBRdy
    srcARdy2 := h.sound_step hm he ho2 hoff2 hA hheld2 hpop2 h.srcARdy2
    srcBRdy2 := h.sound_step hm he ho2 hoff2 hB hheld2 hpop2 h.srcBRdy2
    regs := hregs.1
    zero := hregs.2
    port1 := fun hs => by
      obtain ⟨hu, ha, hb⟩ := h.picked ho (start_of_step hs).1 hheld (fun _ => rfl) (fun _ => rfl)
        h.srcARdy h.srcBRdy
      exact ⟨h.operand hm he hp (fun hv => .inl ⟨_, hu, hA _ hv⟩) ha,
        h.operand hm he hp (fun hv => .inl ⟨_, hu, hB _ hv⟩) hb⟩
    port2 := fun hs => by
      obtain ⟨hu, ha, hb⟩ := h.picked ho2 (Bool.and_eq_true _ _ |>.mp hs).1 hheld2 (fun _ => rfl)
        (fun _ => rfl) h.srcARdy2 h.srcBRdy2
      exact ⟨h.operand hm he hp (fun hv => .inl ⟨_, hu, hA _ hv⟩) ha,
        h.operand hm he hp (fun hv => .inl ⟨_, hu, hB _ hv⟩) hb⟩
    mem := fun hpop => h.step_mem hm he hp hpop
    data := fun hpop hold => h.step_data hm he hp hpop hold }

theorem writers_reset (h : s.IsReset) : s.writers 0 = 0 := by
  obtain ⟨hw, hports, hm⟩ := waiting_reset h
  have hmul : s.mul.dsts = 0 := by
    unfold Mul.dsts
    rw [h.mulComplete]
    exact Finset.sum_const_zero
  have hdiv : s.div.dsts = 0 := by
    unfold Divider.dsts
    rw [h.div]
    rfl
  have hmem : s.memWaiting = 0 := by
    rw [memWaiting, hm, h.rMemReady]
    rfl
  rw [writers, hw, hports, hmul, hdiv, hmem, h.rMemQ.view]
  rfl

theorem sound_reset {sch : AluSched} (h : schedMachine.reset sch) (rdy : SchedIdx → Bool)
    (valid : Uop → Bool) (src : Uop → PrfPtr) (C : PrfPtr → Prop) : sch.Sound rdy valid src C := by
  obtain ⟨uops, rfl⟩ := h
  intro j hj
  cases hj

theorem operandInv_reset (h : s.IsReset) : s.OperandInv emptyOperands := by
  obtain ⟨hw, hports, hm⟩ := waiting_reset h
  have h0 : s.writers emptyOperands.loads = 0 := writers_reset h
  exact {
    uops := by
      refine ⟨fun u hu => ?_, fun u hu => ?_⟩
      · rw [hw, hports] at hu
        exact absurd hu (Multiset.notMem_zero u)
      · rw [memWaiting, hm, h.rMemReady] at hu
        exact absurd hu (Multiset.notMem_zero u)
    once := h0 ▸ Multiset.nodup_zero
    nonzero := h0 ▸ Multiset.notMem_zero 0
    owed := fun r hr => absurd (h0 ▸ hr) (Multiset.notMem_zero r)
    inflight := nofun
    source := fun r _ => Multiset.notMem_zero r
    mulDone := fun hc => by rw [h.rMulComplete] at hc; cases hc
    divDone := fun hc => by rw [h.rDivComplete] at hc; cases hc
    srcARdy := sound_reset h.sched _ _ _ _
    srcBRdy := sound_reset h.sched _ _ _ _
    srcARdy2 := sound_reset h.sched2 _ _ _ _
    srcBRdy2 := sound_reset h.sched2 _ _ _ _
    regs := nofun
    zero := rfl
    port1 := fun hs => by rw [h.rStartInt] at hs; cases hs
    port2 := fun hs => by rw [h.rStartInt2] at hs; cases hs
    mem := fun hs => by rw [h.rMemReady] at hs; cases hs
    data := fun hs => by rw [h.rDqReady] at hs; cases hs }

/-! ### Runs -/

theorem reach_operands {x : Exec × OperandLog} (h : operandExec.Reach InOrder x) :
    execMachine.Reach Polite x.1 :=
  h.map (N := execMachine) Prod.fst (fun _ i => i)
    (fun _ (h0 : operandExec.reset _) => h0.1) (fun _ _ _ => rfl) fun _ _ _ he => he.polite

theorem operandInv_of_reach {x : Exec × OperandLog} (h : operandExec.Reach InOrder x) :
    x.1.OperandInv x.2 := by
  induction h with
  | reset h0 =>
      obtain ⟨hs, hl⟩ := h0
      rw [hl]
      exact operandInv_reset hs
  | @step x i hr he ih =>
      have hx := reach_operands hr
      obtain ⟨q, hq⟩ := hx.exists_observed emptyLog watchQueues
      obtain ⟨age, ho⟩ := AluSched.ordered_of_reach (reach_sched hx)
      obtain ⟨age2, ho2⟩ := AluSched.ordered_of_reach (reach_sched2 hx)
      exact ih.step (queuesInv_of_reach hq) (portInv_of_reach hx) he ho ho2

/-- An operand is the value the muxes select. -/
theorem Operand.current {p : ReadPort} {valid : Bool} (h : s.Operand l p valid r)
    (hv : valid = true) : s.Current l r (s.intSrc p) ∧ s.Current l r (s.memSrc p) := by
  obtain ⟨v, hs, hc⟩ := h hv
  rw [hs.1, hs.2]
  exact ⟨hc, hc⟩

theorem InOrder.idle (x : Exec × OperandLog) : InOrder x .idle where
  polite := ⟨nofun, nofun, nofun, nofun⟩
  pushable := fun _ hu => absurd hu List.not_mem_nil
  fresh := fun _ hp => Bool.noConfusion hp
  pair := fun hp => Bool.noConfusion hp
  sources := fun _ hu => absurd hu List.not_mem_nil
  answers := fun ha => Bool.noConfusion ha

theorem InOrder.push {x : Exec × OperandLog} {u : Uop} (hf : x.1.uqFull = false)
    (hp : u.Pushable) (hd : u.dst ∉ x.1.writers x.2.loads ∧ ¬x.1.Reads 0 u.dst)
    (hl : x.2.left = 0) : InOrder x (.push u) where
  polite := ⟨fun _ => hf, nofun, nofun, nofun⟩
  pushable := fun v hv => by
    obtain rfl := List.mem_singleton.mp hv
    exact hp
  fresh := fun r hr => by
    have hr' : (true && u.dstValid && u.dst == r || false) = true := hr
    simp only [Bool.true_and, Bool.or_false, Bool.and_eq_true, beq_iff_eq] at hr'
    obtain ⟨-, rfl⟩ := hr'
    exact hd
  pair := fun _ hp => Bool.noConfusion hp
  sources := fun _ _ r _ => hl ▸ Multiset.notMem_zero r
  answers := fun ha => Bool.noConfusion ha

end Exec
end Rv32Core
