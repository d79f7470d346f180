import Mathlib.Algebra.BigOperators.Fin
import Rv32Core.Checker.Words
import Rv32Core.Exec.Tokens
import Rv32Core.Exec.Wakeup

/-! # The registers still to be written

A uop with a destination owes a write from the cycle it is pushed until one of the write ports
delivers it: in the queues and schedulers, in the stages of the multiplier, in the divider, and
while its request travels to the L1 data cache and back.  `writers` is the multiset of these
registers.  In a cycle no register joins it but those pushed, and the ones written leave it
(`writers_step`); a flush takes out those of the uops it drops. -/

namespace Rv32Core

open Clocked RingBuffer AgeMatrix

/-! ### Which operations write -/

/-- The integer operations with a destination. -/
def Opcode.writes : Opcode → Bool
  | .beq | .bne | .blt | .bge | .bltu | .bgeu | .j | .jr | .ret | .brk | .monitor | .nop => false
  | _ => true

/-- **An integer uop has a destination exactly when its operation writes**, illegal ones apart. -/
theorem decodeRiscv_dstFits (f : InsnFetch) (h : (decodeRiscv f).isInt = true) :
    (decodeRiscv f).op = .ii ∨ (decodeRiscv f).dstValid = (decodeRiscv f).op.writes := by
  have hk : ∀ k ∈ UopKind.decoded, k.isInt = true → k.op = .ii ∨ k.dstValid = k.op.writes := by
    decide
  exact hk _ (decodeRiscv_kind f) h

theorem decodeRiscv_ne_sc (f : InsnFetch) (h : (decodeRiscv f).isMem = true) :
    (decodeRiscv f).op ≠ .sc := by
  have hk : ∀ k ∈ UopKind.decoded, k.isMem = true → k.op ≠ .sc := by decide
  exact hk _ (decodeRiscv_kind f) h

theorem writes_of_wrIntPrf (c : Counters) (u : Uop) (a b : Word)
    (h : (Port1.alu c u a b).wrIntPrf = true ∨ (Port2.alu c u a b).wrIntPrf = true) :
    u.op.writes = true := by
  unfold Port1.alu Port2.alu at h
  cases ho : u.op <;> rw [ho] at h <;>
    first | rfl | exact absurd h (by simp [Alu.default, Alu.branch, Alu.jump])

theorem writes_of_unit {op : Opcode} (h : usesMul op = true ∨ usesDiv op = true) :
    op.writes = true := by
  cases op <;> first | rfl | exact absurd h (by decide)

/-! ### The uops that are pushed -/

/-- A uop as the core pushes it: decoded and renamed, not folded, and its destination is not
register 0. -/
structure Uop.Pushable (u : Uop) : Prop where
  decoded : ∃ f, u.Renames (decodeRiscv f)
  executed : Core.folds u.op = false
  dst : u.dstValid = true → u.dst ≠ 0

theorem Uop.Pushable.dstValid {u : Uop} (h : u.Pushable) (hi : u.isInt = true)
    (hw : u.op.writes = true) : u.dstValid = true := by
  obtain ⟨f, _, _, _, _, rfl⟩ := h.decoded
  have hf := h.executed
  obtain ho | hv := decodeRiscv_dstFits f hi
  · dsimp only at hf
    rw [ho] at hf
    cases hf
  · exact hv.trans hw

theorem Uop.Pushable.oneQueue {u : Uop} (h : u.Pushable) : u.isInt = !u.isMem := by
  have he := h.executed
  obtain ⟨f, _, _, _, _, rfl⟩ := h.decoded
  exact Core.oneQueue_decoded f he

theorem Uop.Pushable.ne_sc {u : Uop} (h : u.Pushable) (hm : u.isMem = true) : u.op ≠ .sc := by
  obtain ⟨f, _, _, _, _, rfl⟩ := h.decoded
  exact decodeRiscv_ne_sc f hm

/-! ### The registers on their way -/

/-- The register a uop is to write. -/
def Uop.dsts (u : Uop) : Multiset PrfPtr := single u.dstValid u.dst

/-- The register the answer to a request is to write. -/
def MemReq.dsts (q : MemReq) : Multiset PrfPtr := single q.dstValid q.dstPtr

/-- The registers the stages of the multiplier are to write. -/
def Mul.dsts (m : Mul) : Multiset PrfPtr := ∑ k, single (m.rComplete k) (m.rGprPtr k)

/-- The register the divider is to write. -/
def Divider.dsts (d : Divider 5) : Multiset PrfPtr :=
  single (decide (d.rState ≠ .idle)) d.rGprPrfPtr

theorem Mul.dsts_step (m : Mul) (i : MulIn) :
    (m.step i).dsts + single m.complete m.prfPtrOut = m.dsts + single i.go i.prfPtrIn :=
  sum_shift ..

theorem Divider.dsts_step {d : Divider 5} {i : DivIn 5} (h : i.startDiv = true → d.rState = .idle) :
    (d.step i).dsts + single d.complete d.prfPtrOut = d.dsts + single i.startDiv i.prfPtrIn :=
  single_step h (fun hs => (step_tags_idle hs).2) fun hs => (step_tags_busy hs).2

namespace Exec

variable {s : Exec} {i : ExecIn} {l : ExecLog}

/-- The memory uops that wait or whose address is computed in this cycle. -/
def memWaiting (s : Exec) : Multiset Uop :=
  (s.rMemUq.view : Multiset Uop) + single s.rMemReady s.memUq

/-- The registers that are still to be written; `loads` are those of the requests the L1 data cache
has accepted and not answered. -/
def writers (s : Exec) (loads : Multiset PrfPtr) : Multiset PrfPtr :=
  (s.waiting + s.onPorts).bind Uop.dsts + s.mul.dsts + s.div.dsts + s.memWaiting.bind Uop.dsts +
    (s.rMemQ.view : Multiset MemReq).bind MemReq.dsts + loads

/-- The registers written in this cycle, once for each write. -/
def written (s : Exec) (i : ExecIn) : Multiset PrfPtr :=
  single s.wrInt s.intUop.dst + single s.wrInt2 s.intUop2.dst +
    single s.tMulComplete s.mul.prfPtrOut + single s.tDivComplete s.div.prfPtrOut +
    single i.memRspDstValid i.memRspDstPtr

theorem mem_written {r : PrfPtr} : r ∈ s.written i ↔ s.writes i r = true := by
  rw [writes_iff, written]
  simp only [Multiset.mem_add, mem_single, eq_comm (a := r)]
  tauto

/-- The requests accepted and not answered after a cycle. -/
def nLoads (loads : Multiset PrfPtr) (s : Exec) (i : ExecIn) : Multiset PrfPtr :=
  (if i.memRspDstValid then loads.erase i.memRspDstPtr else loads) +
    single (i.memReqAck && s.memReq.dstValid) s.memReq.dstPtr

/-- What waits in the execution unit is what the core pushes. -/
structure UopsOk (s : Exec) : Prop where
  int : ∀ u ∈ s.waiting + s.onPorts, u.Pushable ∧ u.isInt = true
  mem : ∀ u ∈ s.memWaiting, u.Pushable ∧ u.isMem = true

/-! ### One step -/

/-- What the uop on port 1 is to write is written in this cycle, or handed to a unit. -/
theorem UopsOk.port1 (h : s.UopsOk) : single s.wrInt s.intUop.dst +
    single (s.mulIn i).go (s.mulIn i).prfPtrIn + single (s.divIn i).startDiv (s.divIn i).prfPtrIn ≤
      (single s.rStartInt s.intUop).bind Uop.dsts := by
  have hgo : (s.mulIn i).go = (s.tStartMul i && s.rStartInt) := rfl
  have hdiv : (s.divIn i).startDiv = s.tStartDiv32 i := rfl
  have hdst : (s.mulIn i).prfPtrIn = s.intUop.dst ∧ (s.divIn i).prfPtrIn = s.intUop.dst :=
    ⟨rfl, rfl⟩
  rw [hgo, hdiv, hdst.1, hdst.2]
  unfold wrInt tStartMul tStartDiv32
  cases hs : s.rStartInt
  · simp
  · have hmem : s.intUop ∈ s.waiting + s.onPorts := by
      simp [onPorts, hs]
    obtain ⟨hp, hi⟩ := h.int _ hmem
    rw [single_true, Multiset.singleton_bind, Uop.dsts]
    simp only [Bool.true_and, Bool.and_true]
    cases hw : s.alu.wrIntPrf
    · cases hm : usesMul s.intUop.op
      · cases hd : usesDiv s.intUop.op
        · simp
        · rw [hp.dstValid hi (writes_of_unit (.inr hd))]
          cases i.dsDone <;> simp
      · rw [hp.dstValid hi (writes_of_unit (.inl hm)), usesDiv_of_usesMul hm]
        cases i.dsDone <;> simp
    · have hv := Port1.aluValid_of_wrIntPrf _ _ _ _ hw
      rw [Port1.aluValid_eq, Bool.not_eq_true', Bool.or_eq_false_iff] at hv
      rw [hp.dstValid hi (writes_of_wrIntPrf _ _ _ _ (.inl hw)), hv.1, hv.2]
      simp

theorem UopsOk.port2 (h : s.UopsOk) :
    single s.wrInt2 s.intUop2.dst ≤ (single s.rStartInt2 s.intUop2).bind Uop.dsts := by
  unfold wrInt2
  cases hs : s.rStartInt2
  · simp
  · have hmem : s.intUop2 ∈ s.waiting + s.onPorts := by
      simp [onPorts, hs]
    obtain ⟨hp, hi⟩ := h.int _ hmem
    rw [single_true, Multiset.singleton_bind, Uop.dsts, Bool.true_and]
    cases hw : s.alu2.wrIntPrf
    · simp
    · rw [hp.dstValid hi (writes_of_wrIntPrf _ _ _ _ (.inr hw))]

/-- The request made of a memory uop is to write its destination, if anything. -/
theorem tMemTail_dsts (h : s.memUq.op ≠ .sc) : s.tMemTail.dsts ≤ s.memUq.dsts := by
  unfold MemReq.dsts Uop.dsts tMemTail
  cases ho : s.memUq.op
  case sc => exact absurd ho h
  all_goals simp

theorem QueuesInv.waiting_le (h : s.QueuesInv l) (he : s.Polite i) {age age2 : SchedIdx → ℕ}
    (ho : Ordered s.sched.rValid s.sched.rMatrix age)
    (ho2 : Ordered s.sched2.rValid s.sched2.rMatrix age2) :
    (s.step i).waiting + (s.step i).onPorts ≤ s.waiting + (accepted Uop.isInt i : List Uop) := by
  cases hd : i.dsDone
  · exact (h.waiting_step he ho ho2 hd).le
  · obtain ⟨hw, hp, -, -⟩ := waiting_flush (s := s) hd
    rw [hw, hp]
    exact Multiset.zero_le _

theorem QueuesInv.memWaiting_le (h : s.QueuesInv l) (he : s.Polite i) :
    (s.step i).memWaiting ≤ (s.rMemUq.view : Multiset Uop) + (accepted Uop.isMem i : List Uop) := by
  cases hd : i.dsDone
  · exact (h.memUq_step he hd).le
  · obtain ⟨-, -, hv, hr⟩ := waiting_flush (s := s) hd
    rw [memWaiting, hv, hr]
    exact Multiset.zero_le _

/-- The registers that the uops pushed in a cycle are to write. -/
def pushedDsts (i : ExecIn) : Multiset PrfPtr :=
  ((accepted Uop.isInt i : List Uop) : Multiset Uop).bind Uop.dsts +
    ((accepted Uop.isMem i : List Uop) : Multiset Uop).bind Uop.dsts

theorem bind_le {α β : Type*} {a b : Multiset α} (f : α → Multiset β) (h : a ≤ b) :
    a.bind f ≤ b.bind f := by
  obtain ⟨c, rfl⟩ := Multiset.le_iff_exists_add.mp h
  rw [Multiset.add_bind]
  exact Multiset.le_add_right _ _

/-- **Who still has to write**: the registers pushed come in, those written go out, and those of
the uops that a flush drops. -/
theorem writers_step (h : s.UopsOk) (hq : s.QueuesInv l) (he : s.Polite i) (hport : PortInv s)
    {age age2 : SchedIdx → ℕ} (ho : Ordered s.sched.rValid s.sched.rMatrix age)
    (ho2 : Ordered s.sched2.rValid s.sched2.rMatrix age2) {loads : Multiset PrfPtr}
    (hload : i.memRspDstValid = true → i.memRspDstPtr ∈ loads) :
    (s.step i).writers (nLoads loads s i) + s.written i ≤ s.writers loads + pushedDsts i := by
  have hint := bind_le Uop.dsts (hq.waiting_le he ho ho2)
  have hmem := bind_le Uop.dsts (hq.memWaiting_le he)
  have hmul : (s.step i).mul.dsts + single s.tMulComplete s.mul.prfPtrOut =
      s.mul.dsts + single (s.mulIn i).go (s.mulIn i).prfPtrIn := Mul.dsts_step _ _
  have hdiv : (s.step i).div.dsts + single s.tDivComplete s.div.prfPtrOut =
      s.div.dsts + single (s.divIn i).startDiv (s.divIn i).prfPtrIn :=
    Divider.dsts_step hport.idle_of_start
  have hmemQ := congrArg (Multiset.bind · MemReq.dsts) (hq.memQ_step he)
  have hports := add_le_add (h.port1 (i := i)) h.port2
  have hsent : (single s.rMemReady s.tMemTail).bind MemReq.dsts ≤
      (single s.rMemReady s.memUq).bind Uop.dsts := by
    cases hr : s.rMemReady
    · exact le_rfl
    · have hu : s.memUq ∈ s.memWaiting := by
        simp [memWaiting, hr]
      obtain ⟨hp, hm⟩ := h.mem _ hu
      simp only [single_true, Multiset.singleton_bind]
      exact tMemTail_dsts (hp.ne_sc hm)
  have hacked : (single i.memReqAck s.memReq).bind MemReq.dsts =
      single (i.memReqAck && s.memReq.dstValid) s.memReq.dstPtr := by
    cases i.memReqAck <;> simp [MemReq.dsts]
  have hloads : nLoads loads s i + single i.memRspDstValid i.memRspDstPtr =
      loads + single (i.memReqAck && s.memReq.dstValid) s.memReq.dstPtr := by
    unfold nLoads
    cases hv : i.memRspDstValid
    · simp
    · rw [if_pos rfl, single_true, add_right_comm, add_comm (loads.erase _),
        Multiset.singleton_add, Multiset.cons_erase (hload hv)]
  simp only [Multiset.add_bind] at hint hmem hmemQ
  rw [hacked] at hmemQ
  unfold writers written pushedDsts
  have hmw : s.memWaiting = s.rMemUq.view + single s.rMemReady s.memUq := rfl
  have hop : s.onPorts = single s.rStartInt s.intUop + single s.rStartInt2 s.intUop2 := rfl
  rw [hmw, hop]
  simp only [Multiset.add_bind]
  rw [Multiset.le_iff_count] at hint hmem hports hsent ⊢
  intro r
  have h1 := hint r
  have h2 := hmem r
  have h3 := hports r
  have h4 := hsent r
  have h5 := congrArg (Multiset.count r) hmul
  have h6 := congrArg (Multiset.count r) hdiv
  have h7 := congrArg (Multiset.count r) hmemQ
  have h8 := congrArg (Multiset.count r) hloads
  simp only [Multiset.count_add] at h1 h2 h3 h4 h5 h6 h7 h8 ⊢
  omega

/-- The uops pushed in a cycle. -/
def pushedUops (i : ExecIn) : List Uop :=
  (if i.uqPush then [i.uqUop] else []) ++ if i.uqPushTwo then [i.uqUopTwo] else []

theorem accepted_eq (p : Uop → Bool) (i : ExecIn) : accepted p i = (pushedUops i).filter p := by
  have hone : ∀ (b : Bool) (u : Uop),
      (if b && p u then [u] else []) = (if b then [u] else []).filter p := fun b u => by
    cases b <;> cases hp : p u <;> simp [hp]
  rw [accepted, pushedUops, List.filter_append, hone, hone]

theorem accepted_sub {p : Uop → Bool} {u : Uop} (h : u ∈ accepted p i) :
    u ∈ pushedUops i ∧ p u = true := by
  rw [accepted_eq] at h
  exact List.mem_filter.mp h

theorem bind_accepted (p : Uop → Bool) (i : ExecIn) :
    ((accepted p i : List Uop) : Multiset Uop).bind Uop.dsts =
      single (i.uqPush && p i.uqUop && i.uqUop.dstValid) i.uqUop.dst +
        single (i.uqPushTwo && p i.uqUopTwo && i.uqUopTwo.dstValid) i.uqUopTwo.dst := by
  unfold accepted Uop.dsts
  rw [← Multiset.coe_add, Multiset.add_bind]
  cases i.uqPush && p i.uqUop <;> cases i.uqPushTwo && p i.uqUopTwo <;> simp

theorem single_dst {b : Bool} {u : Uop} (h : b = true → u.Pushable) :
    single (b && u.isInt && u.dstValid) u.dst + single (b && u.isMem && u.dstValid) u.dst =
      single (b && u.dstValid) u.dst := by
  cases b
  · rfl
  · rw [(h rfl).oneQueue]
    cases u.isMem <;> simp

theorem pushedDsts_eq (h : ∀ u ∈ pushedUops i, u.Pushable) : pushedDsts i =
    single (i.uqPush && i.uqUop.dstValid) i.uqUop.dst +
      single (i.uqPushTwo && i.uqUopTwo.dstValid) i.uqUopTwo.dst := by
  have h1 : i.uqPush = true → i.uqUop.Pushable := fun hp => h _ (by simp [pushedUops, hp])
  have h2 : i.uqPushTwo = true → i.uqUopTwo.Pushable := fun hp => h _ (by simp [pushedUops, hp])
  rw [pushedDsts, bind_accepted, bind_accepted, ← single_dst h1, ← single_dst h2]
  abel

theorem mem_pushedDsts (h : ∀ u ∈ pushedUops i, u.Pushable) {r : PrfPtr} :
    r ∈ pushedDsts i ↔ pushes i r = true := by
  rw [pushedDsts_eq h, Multiset.mem_add, mem_single, mem_single]
  unfold pushes
  simp only [Bool.or_eq_true, Bool.and_eq_true, beq_iff_eq]

end Exec

end Rv32Core
