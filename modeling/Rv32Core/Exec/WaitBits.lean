import Rv32Core.Core.Step
import Rv32Core.Exec.Tokens

/-! # The wait bits

`r_uq_wait` and `r_mq_wait` tell the core which ROB slots have a uop that has not left the
queues, so that a drain does not wait for them.  Port 1 clears the bit of the uop it starts; port 2
does not, and the bits of flushed uops are cleared by `restart_complete` only.  Where neither
matters the bits are exact: the slots of the waiting uops are tokens, which move as their uops
do. -/

namespace Rv32Core

open Clocked RingBuffer AgeMatrix

/-! ### Tokens of a scheduler -/

namespace AluSched

variable {s : AluSched}

/-- The ROB slots of the valid entries. -/
def slots (s : AluSched) : Multiset RobPtr :=
  ∑ j, if s.rValid j then {(s.rUops j).robPtr} else 0

theorem slots_eq (s : AluSched) : s.slots = s.held.map Uop.robPtr := by
  unfold slots held
  rw [← Multiset.coe_mapAddMonoidHom, map_sum]
  refine Finset.sum_congr rfl fun j _ => ?_
  exact (map_single _ _ _).symm

theorem mem_slots {r : RobPtr} :
    r ∈ s.slots ↔ ∃ j, s.rValid j = true ∧ (s.rUops j).robPtr = r := by
  rw [slots_eq, Multiset.mem_map]
  constructor
  · rintro ⟨u, hu, he⟩
    obtain ⟨j, hv, rfl⟩ := mem_held.mp hu
    exact ⟨j, hv, he⟩
  · rintro ⟨j, hv, he⟩
    exact ⟨_, mem_held.mpr ⟨j, hv, rfl⟩, he⟩

end AluSched

/-! ### Tokens of the execution unit -/

namespace Exec

variable {s : Exec} {i : ExecIn}

/-- A token that is there when `b` is raised. -/
def token (b : Bool) (r : RobPtr) : Multiset RobPtr := if b then {r} else 0

/-- The slots of the integer uops that wait in the uop queue or in a scheduler, or start in this
cycle. -/
def intSlots (s : Exec) : Multiset RobPtr :=
  (s.rUq.view.map Uop.robPtr : List RobPtr) + s.sched.slots + s.sched2.slots +
    token s.rStartInt s.intUop.robPtr + token s.rStartInt2 s.intUop2.robPtr

/-- The slots of the memory uops that wait in the memory uop queue. -/
def memSlots (s : Exec) : Multiset RobPtr := (s.rMemUq.view.map Uop.robPtr : List RobPtr)

/-- The slots pushed to the queue of the uops with `p`. -/
def pushedSlots (p : Uop → Bool) (i : ExecIn) : Multiset RobPtr :=
  ((accepted p i).map Uop.robPtr : List RobPtr)

theorem intSlots_eq (s : Exec) : s.intSlots = (s.waiting + s.onPorts).map Uop.robPtr := by
  unfold intSlots waiting onPorts
  rw [AluSched.slots_eq, AluSched.slots_eq]
  simp only [Multiset.map_add, Multiset.map_coe, map_single, ← add_assoc]
  rfl

theorem map_onPorts (s : Exec) : s.onPorts.map Uop.robPtr =
    token s.rStartInt s.intUop.robPtr + token s.rStartInt2 s.intUop2.robPtr := by
  rw [onPorts, Multiset.map_add, map_single, map_single]
  rfl

/-- **Integer tokens move**: those pushed come in, those started go out. -/
theorem QueuesInv.intSlots_step {l : ExecLog} (h : s.QueuesInv l) (he : s.Polite i)
    {age age2 : SchedIdx → ℕ} (ho : Ordered s.sched.rValid s.sched.rMatrix age)
    (ho2 : Ordered s.sched2.rValid s.sched2.rMatrix age2) (hd : i.dsDone = false) :
    (s.step i).intSlots + token s.rStartInt s.intUop.robPtr +
        token s.rStartInt2 s.intUop2.robPtr =
      s.intSlots + pushedSlots Uop.isInt i := by
  have hw := congrArg (Multiset.map Uop.robPtr) (h.waiting_step he ho ho2 hd)
  rw [Multiset.map_add _ s.waiting, Multiset.map_coe] at hw
  rw [intSlots_eq, intSlots_eq, hw, add_assoc, ← map_onPorts, Multiset.map_add _ s.waiting]
  exact add_right_comm _ _ _

/-- **Memory tokens move**: those pushed come in, the one popped goes out. -/
theorem QueuesInv.memSlots_step {l : ExecLog} (h : s.QueuesInv l) (he : s.Polite i)
    (hd : i.dsDone = false) :
    (s.step i).memSlots + token (s.tPopMemUq i) s.tMemUq.robPtr =
      s.memSlots + pushedSlots Uop.isMem i := by
  have hm := congrArg (Multiset.map Uop.robPtr) (h.memUq_step he hd)
  rw [Multiset.map_add, Multiset.map_add, map_single] at hm
  exact hm

/-! ### The bits -/

theorem pushWait_iff (h : i.uqPushTwo = true → i.uqPush = true) (p : Uop → Bool)
    (wait : RobPtr → Bool) (r : RobPtr) :
    pushWait i p wait r = true ↔ wait r = true ∨ r ∈ pushedSlots p i := by
  have hp := pushed_eq h p Uop.robPtr
  unfold pushedSlots
  rw [Multiset.mem_coe, ← hp]
  unfold pushWait ExecQueue.pushed
  simp only [writeIf_set]
  cases ht : pushTwo i p
  · cases pushOne i p
    · simp
    · cases p i.uqUop <;> simp [or_comm]
  · have hone : pushOne i p = false := by
      rw [pushOne, ht, Bool.not_true, Bool.and_false]
    rw [hone]
    simp only [Bool.true_and, Bool.false_and, Bool.false_or, Bool.or_eq_true, decide_eq_true_eq,
      if_true, List.mem_cons, List.not_mem_nil, or_false]
    tauto

/-- A wait bit that is set was set or belongs to a uop pushed in the cycle, and not to the uop that
leaves. -/
theorem wait_step (h : i.uqPushTwo = true → i.uqPush = true) {p : Uop → Bool}
    {wait : RobPtr → Bool} {clear leaves : Bool} {q r : RobPtr}
    (hr : (if clear then fun _ => false
      else (pushWait i p wait |> writeIf leaves q false)) r = true) :
    (wait r = true ∨ r ∈ pushedSlots p i) ∧ ¬(leaves = true ∧ r = q) := by
  split_ifs at hr
  rw [writeIf_apply] at hr
  split_ifs at hr with hl
  exact ⟨(pushWait_iff h p wait r).mp hr, hl⟩

/-- Every slot has at most one waiting uop, and the bits are those of the waiting uops. -/
structure Exact (s : Exec) : Prop where
  nodup : (s.intSlots + s.memSlots).Nodup
  uq : ∀ r, s.rUqWait r = true ↔ r ∈ s.intSlots
  mq : ∀ r, s.rMqWait r = true ↔ r ∈ s.memSlots

/-- A uop is pushed for a slot without a waiting uop, two uops for different slots, and each to
one of the two queues. -/
def Fresh (s : Exec) (i : ExecIn) : Prop :=
  (s.intSlots + s.memSlots + (pushedSlots Uop.isInt i + pushedSlots Uop.isMem i)).Nodup

theorem nodup_of_token {A B : Multiset RobPtr} {b : Bool} {x : RobPtr} (h : A + token b x = B)
    (hn : B.Nodup) : A.Nodup ∧ ∀ r, r ∈ A ↔ r ∈ B ∧ ¬(b = true ∧ r = x) := by
  subst h
  obtain ⟨hA, -, hd⟩ := Multiset.nodup_add.mp hn
  refine ⟨hA, fun r => ?_⟩
  have hx : r ∈ token b x ↔ b = true ∧ r = x := by
    unfold token
    cases b <;> simp
  rw [Multiset.mem_add, hx]
  have hno : r ∈ A → ¬(b = true ∧ r = x) := fun hr hc =>
    Multiset.disjoint_left.mp hd hr (hx.mpr hc)
  tauto

/-- Where the waiting uops are after a cycle without a flush in which port 2 starts none. -/
theorem QueuesInv.slots_step {l : ExecLog} (hq : s.QueuesInv l) (he : s.Polite i)
    (hf : s.Fresh i) {age age2 : SchedIdx → ℕ} (ho : Ordered s.sched.rValid s.sched.rMatrix age)
    (ho2 : Ordered s.sched2.rValid s.sched2.rMatrix age2) (hd : i.dsDone = false)
    (h2 : s.rStartInt2 = false) :
    ((s.step i).intSlots + (s.step i).memSlots).Nodup ∧
      (∀ r, r ∈ (s.step i).intSlots ↔ (r ∈ s.intSlots ∨ r ∈ pushedSlots Uop.isInt i) ∧
        ¬(s.rStartInt = true ∧ r = s.intUop.robPtr)) ∧
      ∀ r, r ∈ (s.step i).memSlots ↔ (r ∈ s.memSlots ∨ r ∈ pushedSlots Uop.isMem i) ∧
        ¬(s.tPopMemUq i = true ∧ r = s.tMemUq.robPtr) := by
  have hint := hq.intSlots_step he ho ho2 hd
  rw [h2] at hint
  have hzero : ∀ A : Multiset RobPtr, A + token false s.intUop2.robPtr = A := add_zero
  rw [hzero] at hint
  have hmem := hq.memSlots_step he hd
  have hall : s.intSlots + pushedSlots Uop.isInt i + (s.memSlots + pushedSlots Uop.isMem i) =
      s.intSlots + s.memSlots + (pushedSlots Uop.isInt i + pushedSlots Uop.isMem i) := by abel
  unfold Fresh at hf
  rw [← hall] at hf
  obtain ⟨hni, hnm, hdis⟩ := Multiset.nodup_add.mp hf
  obtain ⟨hi, him⟩ := nodup_of_token hint hni
  obtain ⟨hm, hmm⟩ := nodup_of_token hmem hnm
  refine ⟨Multiset.nodup_add.mpr ⟨hi, hm, ?_⟩, fun r => ?_, fun r => ?_⟩
  · rw [Multiset.disjoint_left] at hdis ⊢
    exact fun {r} hr hr' => hdis ((him r).mp hr).1 ((hmm r).mp hr').1
  · rw [him, Multiset.mem_add]
  · rw [hmm, Multiset.mem_add]

theorem Exact.step {l : ExecLog} (h : s.Exact) (hq : s.QueuesInv l) (he : s.Polite i)
    (hf : s.Fresh i) {age age2 : SchedIdx → ℕ} (ho : Ordered s.sched.rValid s.sched.rMatrix age)
    (ho2 : Ordered s.sched2.rValid s.sched2.rMatrix age2) (hd : i.dsDone = false)
    (hr : i.restartComplete = false) (h2 : s.rStartInt2 = false) : (s.step i).Exact := by
  obtain ⟨hn, him, hmm⟩ := hq.slots_step he hf ho ho2 hd h2
  have htwo : i.uqPushTwo = true → i.uqPush = true := fun hp => (he.pushTwo hp).1
  have huq : (s.step i).rUqWait = s.nUqWait i := by
    show (if i.restartComplete then _ else _) = _
    rw [hr]
    rfl
  have hmq : (s.step i).rMqWait = s.nMqWait i := by
    show (if i.restartComplete then _ else _) = _
    rw [hr]
    rfl
  refine ⟨hn, fun r => ?_, fun r => ?_⟩
  · rw [huq, him, ← h.uq, ← pushWait_iff htwo, nUqWait, writeIf_clear,
      Bool.and_eq_true, Bool.not_eq_true', Bool.and_eq_false_iff, decide_eq_false_iff_not]
    cases s.rStartInt <;> simp [and_comm]
  · rw [hmq, hmm, ← h.mq, ← pushWait_iff htwo, nMqWait, writeIf_clear,
      Bool.and_eq_true, Bool.not_eq_true', Bool.and_eq_false_iff, decide_eq_false_iff_not]
    cases s.tPopMemUq i <;> simp [and_comm]

theorem slots_flushed (hd : i.dsDone = true) :
    (s.step i).intSlots = 0 ∧ (s.step i).memSlots = 0 := by
  obtain ⟨hw, hp, hm, -⟩ := waiting_flush (s := s) hd
  rw [intSlots_eq, hw, hp, memSlots, hm]
  exact ⟨rfl, rfl⟩

/-- A flush that ends with `restart_complete` leaves exact bits. -/
theorem exact_restart (hd : i.dsDone = true) (hr : i.restartComplete = true) :
    (s.step i).Exact := by
  obtain ⟨hi, hm⟩ := slots_flushed (s := s) hd
  have huq : (s.step i).rUqWait = fun _ => false := by
    show (if i.restartComplete then _ else _) = _
    rw [hr]
    rfl
  have hmq : (s.step i).rMqWait = fun _ => false := by
    show (if i.restartComplete then _ else _) = _
    rw [hr]
    rfl
  refine ⟨?_, fun r => ?_, fun r => ?_⟩
  · rw [hi, hm]
    exact Multiset.nodup_zero
  · rw [huq, hi]
    simp
  · rw [hmq, hm]
    simp

/-! ### Runs -/

/-- What a run leaves behind: whether a flush has not ended with `restart_complete` yet, and the
slots whose latest uop has left the queues, for the memory or for an execution unit. -/
structure WaitLog where
  stale : Bool
  sent : RobPtr → Bool

/-- The slots whose uop leaves the queues in this cycle. -/
def leaves (s : Exec) (i : ExecIn) (r : RobPtr) : Bool :=
  (s.rStartInt && r == s.intUop.robPtr) || (s.rStartInt2 && r == s.intUop2.robPtr) ||
    (s.tPopMemUq i && r == s.tMemUq.robPtr)

/-- The log after a cycle. -/
def watchWait (l : WaitLog) (s : Exec) (i : ExecIn) : WaitLog where
  stale := i.dsDone && !i.restartComplete
  sent r :=
    if r ∈ pushedSlots Uop.isInt i + pushedSlots Uop.isMem i then false
    else l.sent r || s.leaves i r

/-- The execution unit with the log of its waiting uops. -/
def waitExec : Machine (Exec × WaitLog) ExecIn :=
  execMachine.observed ⟨false, fun _ => false⟩ watchWait

/-- What the core and the data cache promise: they push and acknowledge as allowed, a uop is pushed
for a free slot, and a restart completes within a flush. -/
structure Promised (s : Exec) (i : ExecIn) : Prop where
  polite : s.Polite i
  fresh : s.Fresh i
  restart : i.restartComplete = true → i.dsDone = true

/-- The bits that have to be cleared are: port 2, which does not clear its bit, starts no uop, and
a flush lasts until `restart_complete`. -/
structure Cleared (x : Exec × WaitLog) (i : ExecIn) : Prop where
  port2 : x.1.rStartInt2 = false
  flush : x.2.stale = true → i.dsDone = true

/-- The waiting uops while no flush is pending. -/
structure WaitInv (s : Exec) (l : WaitLog) : Prop where
  exact : s.Exact
  sent : ∀ r, l.sent r = true → r ∉ s.intSlots ∧ r ∉ s.memSlots

theorem exact_reset (h : s.IsReset) : s.Exact ∧ s.intSlots = 0 ∧ s.memSlots = 0 := by
  obtain ⟨hw, hp, hv⟩ := waiting_reset h
  have hi : s.intSlots = 0 := by
    rw [intSlots_eq, hw, hp]
    rfl
  have hm : s.memSlots = 0 := by
    rw [memSlots, hv]
    rfl
  refine ⟨⟨?_, fun r => ?_, fun r => ?_⟩, hi, hm⟩
  · rw [hi, hm]
    exact Multiset.nodup_zero
  · rw [hi, h.rUqWait]
    simp
  · rw [hm, h.rMqWait]
    simp

/-- The uop started in a cycle still counts as waiting in it. -/
theorem start_mem_intSlots (h : s.rStartInt = true) : s.intUop.robPtr ∈ s.intSlots := by
  unfold intSlots
  rw [h]
  exact Multiset.mem_add.mpr (.inl (Multiset.mem_add.mpr (.inr (Multiset.mem_singleton_self _))))

theorem pop_mem_memSlots (h : s.tPopMemUq i = true) : s.tMemUq.robPtr ∈ s.memSlots := by
  have hhead := ExecQueue.view_head (tPopMemUq_spec h).1
  unfold memSlots
  rw [Multiset.mem_coe, List.mem_map]
  refine ⟨s.tMemUq, List.mem_of_mem_take (i := 1) ?_, rfl⟩
  rw [hhead]
  exact List.mem_singleton_self _

theorem WaitInv.step {l : ExecLog} {w : WaitLog} (h : s.WaitInv w) (hq : s.QueuesInv l)
    (hp : s.Promised i) {age age2 : SchedIdx → ℕ}
    (ho : Ordered s.sched.rValid s.sched.rMatrix age)
    (ho2 : Ordered s.sched2.rValid s.sched2.rMatrix age2) (hd : i.dsDone = false)
    (h2 : s.rStartInt2 = false) : (s.step i).WaitInv (watchWait w s i) := by
  have hr : i.restartComplete = false := Bool.eq_false_iff.mpr fun hr => by
    rw [hp.restart hr] at hd
    cases hd
  refine ⟨h.exact.step hq hp.polite hp.fresh ho ho2 hd hr h2, fun r hsent => ?_⟩
  obtain ⟨-, him, hmm⟩ := hq.slots_step hp.polite hp.fresh ho ho2 hd h2
  have hdis : ∀ {r}, r ∈ s.intSlots → r ∉ s.memSlots := fun {r} =>
    Multiset.disjoint_left.mp (Multiset.nodup_add.mp h.exact.nodup).2.2
  have hpush : r ∉ pushedSlots Uop.isInt i + pushedSlots Uop.isMem i := fun hmem => by
    rw [watchWait] at hsent
    simp only [hmem, if_true] at hsent
    cases hsent
  have hleft : w.sent r = true ∨ s.leaves i r = true := by
    rw [watchWait] at hsent
    simp only [hpush, if_false, Bool.or_eq_true] at hsent
    exact hsent
  rw [Multiset.mem_add, not_or] at hpush
  rw [him, hmm]
  obtain hw | hlv := hleft
  · obtain ⟨h1, h3⟩ := h.sent r hw
    tauto
  · rw [leaves, h2, Bool.false_and, Bool.or_false, Bool.or_eq_true, Bool.and_eq_true,
      Bool.and_eq_true, beq_iff_eq, beq_iff_eq] at hlv
    obtain ⟨hs, hr'⟩ | ⟨hs, hr'⟩ := hlv
    · have hin : r ∈ s.intSlots := by
        rw [hr']
        exact start_mem_intSlots hs
      have hno := hdis hin
      tauto
    · have hin : r ∈ s.memSlots := by
        rw [hr']
        exact pop_mem_memSlots hs
      have hno : r ∉ s.intSlots := fun hmem => hdis hmem hin
      tauto

/-- **While no flush is pending the bits are exact**, in every run in which port 2 starts no uop
and every flush lasts until `restart_complete`. -/
theorem waitInv_of_reach {x : Exec × WaitLog}
    (h : waitExec.Reach (fun x i => x.1.Promised i ∧ Cleared x i) x) (hx : x.2.stale = false) :
    x.1.WaitInv x.2 := by
  induction h with
  | @reset x h0 =>
      obtain ⟨hs, hl⟩ := h0
      obtain ⟨he, hi, hm⟩ := exact_reset hs
      rw [hl]
      exact ⟨he, nofun⟩
  | @step x i hr hi ih =>
      obtain ⟨hp, hc⟩ := hi
      cases hd : i.dsDone
      · have hstale : x.2.stale = false := Bool.eq_false_iff.mpr fun hst => by
          rw [hc.flush hst] at hd
          cases hd
        have hx' : execMachine.Reach Promised x.1 :=
          Machine.Reach.of_observed (hr.mono fun _ _ h => h.1)
        obtain ⟨l, hl⟩ := (hx'.mono fun _ _ h => h.polite).exists_observed emptyLog watchQueues
        obtain ⟨age, ho⟩ := AluSched.ordered_of_reach (reach_sched hx')
        obtain ⟨age2, ho2⟩ := AluSched.ordered_of_reach (reach_sched2 hx')
        exact (ih hstale).step (queuesInv_of_reach hl) hp ho ho2 hd hc.port2
      · have hrc : i.restartComplete = true := by
          have hst : (i.dsDone && !i.restartComplete) = false := hx
          rw [hd, Bool.true_and, Bool.not_eq_false'] at hst
          exact hst
        obtain ⟨hi0, hm0⟩ := slots_flushed (s := x.1) hd
        refine ⟨exact_restart hd hrc, fun r _ => ?_⟩
        show r ∉ (x.1.step i).intSlots ∧ r ∉ (x.1.step i).memSlots
        rw [hi0, hm0]
        exact ⟨Multiset.notMem_zero r, Multiset.notMem_zero r⟩

/-- A uop of the slot waits in the uop queue or in a scheduler, or starts in this cycle. -/
def IntWaits (s : Exec) (r : RobPtr) : Prop :=
  (∃ u ∈ s.rUq.view, u.robPtr = r) ∨
    (∃ j, s.sched.rValid j = true ∧ (s.sched.rUops j).robPtr = r) ∨
    (∃ j, s.sched2.rValid j = true ∧ (s.sched2.rUops j).robPtr = r) ∨
    (s.rStartInt = true ∧ s.intUop.robPtr = r) ∨ (s.rStartInt2 = true ∧ s.intUop2.robPtr = r)

/-- A uop of the slot waits in the memory uop queue. -/
def MemWaits (s : Exec) (r : RobPtr) : Prop := ∃ u ∈ s.rMemUq.view, u.robPtr = r

theorem mem_token {b : Bool} {x r : RobPtr} : r ∈ token b x ↔ b = true ∧ x = r := by
  unfold token
  cases b <;> simp [eq_comm]

theorem mem_intSlots {r : RobPtr} : r ∈ s.intSlots ↔ s.IntWaits r := by
  unfold intSlots IntWaits
  rw [Multiset.mem_add, Multiset.mem_add, Multiset.mem_add, Multiset.mem_add, Multiset.mem_coe,
    List.mem_map, AluSched.mem_slots, AluSched.mem_slots, mem_token, mem_token, or_assoc, or_assoc,
    or_assoc]

theorem mem_memSlots {r : RobPtr} : r ∈ s.memSlots ↔ s.MemWaits r := by
  unfold memSlots MemWaits
  rw [Multiset.mem_coe, List.mem_map]

/-- **The wait bits are exact as long as every bit that has to be cleared is.**  In every run in
which port 2 starts no uop and every flush lasts until `restart_complete`, in every cycle with
`ds_done` low `r_uq_wait` marks the slots of the uops that wait in the uop queue, in a scheduler or
at a port, and `r_mq_wait` those in the memory uop queue; and when a drain begins `t_clr_mask`
spares every slot whose uop has been sent to the memory or to an execution unit and does not
complete in this cycle. -/
theorem wait_bits_exact {x : Exec × WaitLog} {i : ExecIn}
    (h : waitExec.Reach (fun x i => x.1.Promised i ∧ Cleared x i) x) (hc : Cleared x i) :
    (i.dsDone = false → (∀ r, x.1.rUqWait r = true ↔ x.1.IntWaits r) ∧
      ∀ r, x.1.rMqWait r = true ↔ x.1.MemWaits r) ∧
    (x.2.stale = false → ∀ j : CoreIn, j.uqWait = x.1.rUqWait → j.mqWait = x.1.rMqWait →
      ∀ r, x.2.sent r = true → (j.tCompleteValid1 = true → j.tCompleteBundle1.robPtr ≠ r) →
        (j.tCompleteValid2 = true → j.tCompleteBundle2.robPtr ≠ r) →
        (j.coreMemRspValid = true → j.coreMemRsp.robPtr ≠ r) → Core.tClrMask j r = false) := by
  refine ⟨fun hd => ?_, fun hs j hu hm r hsent h1 h2 h3 => ?_⟩
  · have hs : x.2.stale = false := Bool.eq_false_iff.mpr fun hst => by
      rw [hc.flush hst] at hd
      cases hd
    have hx := (waitInv_of_reach h hs).exact
    exact ⟨fun r => (hx.uq r).trans mem_intSlots, fun r => (hx.mq r).trans mem_memSlots⟩
  · have hx := waitInv_of_reach h hs
    obtain ⟨hni, hnm⟩ := hx.sent r hsent
    have hu0 : j.uqWait r = false := by
      rw [hu]
      exact Bool.eq_false_iff.mpr (mt (hx.exact.uq r).mp hni)
    have hm0 : j.mqWait r = false := by
      rw [hm]
      exact Bool.eq_false_iff.mpr (mt (hx.exact.mq r).mp hnm)
    unfold Core.tClrMask
    rw [writeIf_apply, if_neg fun hc => h3 hc.1 hc.2.symm, writeIf_apply,
      if_neg fun hc => h2 hc.1 hc.2.symm, writeIf_apply, if_neg fun hc => h1 hc.1 hc.2.symm, hu0, hm0]
    rfl

/-- A multiplication waits in the uop queue, and its bit is set. -/
theorem wait_bits_exact_mul :
    (waitExec.run (init, ⟨false, fun _ => false⟩) [.push mulUop]).1.IntWaits 3 :=
  have h0 : waitExec.reset (init, ⟨false, fun _ => false⟩) := ⟨isReset_init, rfl⟩
  have hp : init.Promised (.push mulUop) :=
    ⟨⟨fun _ => by decide +kernel, nofun, nofun, nofun⟩, by unfold Fresh; decide +kernel, nofun⟩
  have hc : Cleared (init, ⟨false, fun _ => false⟩) (.push mulUop) := ⟨rfl, nofun⟩
  have hr : waitExec.Reach (fun x i => x.1.Promised i ∧ Cleared x i)
      (waitExec.run (init, ⟨false, fun _ => false⟩) [.push mulUop]) :=
    .step (.reset h0) ⟨hp, hc⟩
  (((wait_bits_exact (i := .idle) hr ⟨rfl, nofun⟩).1 rfl).1 3).mp (by decide +kernel)

/-! ### Port 2 leaves its bit -/

/-- A uop that port 2 starts while the bits are exact leaves the queues, and its bit stays set. -/
theorem Exact.port2_leaves_bit {l : ExecLog} (h : s.Exact) (hq : s.QueuesInv l)
    (hp : s.Promised i) {age age2 : SchedIdx → ℕ}
    (ho : Ordered s.sched.rValid s.sched.rMatrix age)
    (ho2 : Ordered s.sched2.rValid s.sched2.rMatrix age2) (hd : i.dsDone = false)
    (h2 : s.rStartInt2 = true) :
    (s.step i).rUqWait s.intUop2.robPtr = true ∧ ¬(s.step i).IntWaits s.intUop2.robPtr := by
  have hint := hq.intSlots_step hp.polite ho ho2 hd
  have hn : (s.intSlots + pushedSlots Uop.isInt i).Nodup := by
    have hall : s.intSlots + s.memSlots + (pushedSlots Uop.isInt i + pushedSlots Uop.isMem i) =
        s.intSlots + pushedSlots Uop.isInt i + (s.memSlots + pushedSlots Uop.isMem i) := by abel
    have hf := hp.fresh
    unfold Fresh at hf
    rw [hall] at hf
    exact (Multiset.nodup_add.mp hf).1
  obtain ⟨-, hout⟩ := nodup_of_token hint hn
  have hin : s.intUop2.robPtr ∈ s.intSlots :=
    mem_intSlots.mpr (.inr (.inr (.inr (.inr ⟨h2, rfl⟩))))
  rw [add_right_comm] at hint
  obtain ⟨-, hout1⟩ := nodup_of_token hint hn
  have hne : ¬(s.rStartInt = true ∧ s.intUop2.robPtr = s.intUop.robPtr) :=
    ((hout1 _).mp (Multiset.mem_add.mpr (.inr (mem_token.mpr ⟨h2, rfl⟩)))).2
  refine ⟨?_, fun hw => ?_⟩
  · have hr : i.restartComplete = false := Bool.eq_false_iff.mpr fun hr => by
      rw [hp.restart hr] at hd
      cases hd
    show (if i.restartComplete then _ else s.nUqWait i) s.intUop2.robPtr = true
    rw [hr, if_neg Bool.false_ne_true, nUqWait, writeIf_apply, if_neg hne,
      pushWait_iff fun hp2 => (hp.polite.pushTwo hp2).1]
    exact .inl ((h.uq _).mpr hin)
  · exact ((hout _).mp (Multiset.mem_add.mpr (.inl (mem_intSlots.mpr hw)))).2 ⟨h2, rfl⟩

/-- `ADDI x5,x0,1` from ROB slot `r` into register `d`. -/
def cheapUop (r : RobPtr) (d : PrfPtr) : Uop :=
  { decodeRiscv ⟨0x00100293, 0, 0, false, 0⟩ with dst := d, robPtr := r }

/-- Two of them are pushed together. -/
def pairPush : ExecIn :=
  { ExecIn.idle with
    uqPush := true
    uqPushTwo := true
    uqUop := cheapUop 3 40
    uqUopTwo := cheapUop 4 41 }

/-- The pair is pushed, allocated in both schedulers, selected and started. -/
def pairRun (k : ℕ) : Exec := execMachine.run init (([pairPush, .idle, .idle, .idle]).take k)

/-- **A uop started by port 2 leaves its bit set**: in a run from reset without a flush, the bit of
slot 4 stays set when its uop has been executed. -/
theorem wait_bits_not_exact : ¬∀ s : Exec, execMachine.Reach Promised s → ∀ i, s.Promised i →
    i.dsDone = false → (∀ r, s.rUqWait r = true ↔ s.IntWaits r) ∧
      ∀ r, s.rMqWait r = true ↔ s.MemWaits r := by
  intro h
  have hidle : ∀ s : Exec, s.Fresh .idle → s.Promised .idle := fun s hf =>
    ⟨⟨nofun, nofun, nofun, nofun⟩, hf, nofun⟩
  have hfresh : ∀ s : Exec, (s.intSlots + s.memSlots).Nodup → s.Fresh .idle := fun s hn => by
    have he : s.intSlots + s.memSlots +
        (pushedSlots Uop.isInt .idle + pushedSlots Uop.isMem .idle) =
        s.intSlots + s.memSlots := add_zero _
    unfold Fresh
    rw [he]
    exact hn
  have hpush : init.Promised pairPush :=
    ⟨⟨fun _ => by decide +kernel, fun _ => ⟨rfl, by decide +kernel⟩, nofun, nofun⟩,
      by unfold Fresh; decide +kernel, nofun⟩
  have h1 : execMachine.Reach Promised (pairRun 1) := .step (.reset isReset_init) hpush
  have h2 : execMachine.Reach Promised (pairRun 2) :=
    .step h1 (hidle _ (hfresh _ (by decide +kernel)))
  have h3 : execMachine.Reach Promised (pairRun 3) :=
    .step h2 (hidle _ (hfresh _ (by decide +kernel)))
  have h4 : execMachine.Reach Promised (pairRun 4) :=
    .step h3 (hidle _ (hfresh _ (by decide +kernel)))
  have hp : (pairRun 4).Promised .idle := hidle _ (hfresh _ (by decide +kernel))
  have hbit : (pairRun 4).rUqWait 4 = true := by decide +kernel
  have hno : 4 ∉ (pairRun 4).intSlots := by decide +kernel
  exact hno (mem_intSlots.mpr (((h _ h4 .idle hp rfl).1 4).mp hbit))

end Exec
end Rv32Core
