import Mathlib.Algebra.BigOperators.Fin
import Mathlib.Algebra.BigOperators.Group.Finset.Piecewise
import Mathlib.Algebra.Order.BigOperators.Group.Finset
import Mathlib.Tactic.Abel
import Rv32Core.Exec.Queues

/-! # The uops that wait

An integer uop moves from the uop queue through a scheduler to a port, a memory uop from its queue
to the stage that computes its address.  The uops in these places form multisets, so that a cycle
is an equation between what was there, what is pushed and what has moved on; a flush drops what
waits. -/

namespace Rv32Core

open Clocked RingBuffer AgeMatrix

section Single

variable {α β : Type*}

/-- One element when `b` is raised. -/
def single (b : Bool) (x : α) : Multiset α := if b then {x} else 0

@[simp] theorem single_true (x : α) : single true x = {x} := rfl

@[simp] theorem single_false (x : α) : single false x = 0 := rfl

@[simp] theorem mem_single {b : Bool} {x y : α} : y ∈ single b x ↔ b = true ∧ x = y := by
  cases b <;> simp [eq_comm]

theorem map_single (f : α → β) (b : Bool) (x : α) :
    (single b x).map f = single b (f x) := by
  cases b <;> rfl

end Single

/-! ### What the units carry along -/

/-- The tags `t` of the stages of the multiplier that `c` marks: one comes in, one goes out. -/
theorem sum_shift {α : Type*} (b : Bool) (x : α) (c : Fin 4 → Bool) (t : Fin 4 → α) :
    ∑ k, single (Mul.shift b c k) (Mul.shift x t k) + single (c 3) (t 3) =
      ∑ k, single (c k) (t k) + single b x := by
  have hnew : ∑ k, single (Mul.shift b c k) (Mul.shift x t k) =
      single b x + single (c 0) (t 0) + single (c 1) (t 1) + single (c 2) (t 2) :=
    Fin.sum_univ_four _
  rw [hnew, Fin.sum_univ_four]
  abel

namespace Divider

variable {d : Divider 5} {i : DivIn 5}

theorem step_tags_idle (hs : d.rState = .idle) :
    (d.step i).rRobPtr = i.robPtrIn ∧ (d.step i).rGprPrfPtr = i.prfPtrIn := by
  unfold step
  rw [hs]
  exact ⟨rfl, rfl⟩

theorem step_tags_busy (hs : d.rState ≠ .idle) :
    (d.step i).rRobPtr = d.rRobPtr ∧ (d.step i).rGprPrfPtr = d.rGprPrfPtr := by
  unfold step
  cases h : d.rState
  case idle => exact absurd h hs
  all_goals exact ⟨rfl, rfl⟩

/-- The tag `t` of the division under way. -/
theorem single_step {α : Type*} {t t' x : α} (h : i.startDiv = true → d.rState = .idle)
    (hidle : d.rState = .idle → t' = x) (hbusy : d.rState ≠ .idle → t' = t) :
    single (decide ((d.step i).rState ≠ .idle)) t' + single d.complete t =
      single (decide (d.rState ≠ .idle)) t + single i.startDiv x := by
  unfold complete step
  by_cases hs : d.rState = .idle
  · rw [hidle hs, hs]
    cases i.startDiv <;> simp
  have hno : i.startDiv = false := Bool.eq_false_iff.mpr fun hd => hs (h hd)
  rw [hbusy hs, hno]
  cases hd : d.rState with
  | idle => exact absurd hd hs
  | divide => by_cases h0 : d.rIdx = 0#5 <;> simp [h0]
  | packOutput | waitForWb => simp

end Divider

/-! ### The schedulers -/

namespace AluSched

variable {s : AluSched} {i : SchedIn}

/-- The uops of the valid entries. -/
def held (s : AluSched) : Multiset Uop := ∑ j, single (s.rValid j) (s.rUops j)

theorem mem_held {u : Uop} : u ∈ s.held ↔ ∃ j, s.rValid j = true ∧ s.rUops j = u := by
  simp [held, Multiset.mem_sum]

theorem held_flash (hf : i.flashClear = true) : (s.step i).held = 0 := by
  unfold held
  rw [(step_flash hf).1]
  exact Finset.sum_const_zero

/-- **A scheduler hands uops on**: the one allocated comes in, the one selected goes out. -/
theorem held_step {age : SchedIdx → ℕ} (ho : Ordered s.rValid s.rMatrix age) (hoff : s.Offers i)
    (hf : i.flashClear = false) :
    (s.step i).held + single (s.anyRdy i) (s.picked i) = s.held + single i.pop i.uop := by
  have hsel : (∑ j, single (s.selectEntry i j) (s.rUops j)) =
      single (s.anyRdy i) (s.picked i) := by
    cases hr : s.anyRdy i
    · simp [selectEntry_of_not_anyRdy hr]
    · simp only [selectEntry, hr, Bool.true_and, single, decide_eq_true_eq, if_true, picked]
      exact (Finset.sum_ite_eq' _ _ _).trans (if_pos (Finset.mem_univ _))
  have halloc : (∑ j, single (s.allocEntry i j) i.uop) = single i.pop i.uop := by
    cases hp : i.pop
    · simp [allocEntry, hp]
    · simp only [allocEntry, hp, Bool.true_and, single, decide_eq_true_eq, if_true]
      exact (Finset.sum_ite_eq' _ _ _).trans (if_pos (Finset.mem_univ _))
  rw [← hsel, ← halloc]
  unfold held
  rw [← Finset.sum_add_distrib, ← Finset.sum_add_distrib]
  refine Finset.sum_congr rfl fun j _ => ?_
  rw [step_valid ho hoff hf, step_uops hf]
  unfold validNext
  cases ha : s.allocEntry i j
  · cases hs : s.selectEntry i j
    · simp
    · simp [selectEntry_valid ho hs]
  · have hv := allocEntry_free hoff ha
    have hs : s.selectEntry i j = false := Bool.eq_false_iff.mpr fun hs => by
      rw [selectEntry_valid ho hs] at hv
      cases hv
    simp [hv, hs]

end AluSched

/-! ### The execution unit -/

namespace Exec

variable {s : Exec} {i : ExecIn} {l : ExecLog}

/-- The integer uops in the uop queue and in the schedulers. -/
def waiting (s : Exec) : Multiset Uop := (s.rUq.view : Multiset Uop) + s.sched.held + s.sched2.held

/-- The integer uops that start in this cycle. -/
def onPorts (s : Exec) : Multiset Uop :=
  single s.rStartInt s.intUop + single s.rStartInt2 s.intUop2

theorem coe_drop_append {α : Type*} {q q' pushed : List α} {n : ℕ} (h : q' = q.drop n ++ pushed) :
    (q' : Multiset α) + (q.take n : List α) = q + pushed := by
  rw [h, ← Multiset.coe_add]
  nth_rewrite 3 [← List.take_append_drop n q]
  rw [← Multiset.coe_add]
  abel

/-- The uops that leave the uop queue enter the schedulers. -/
theorem coe_uqPops (s : Exec) (i : ExecIn) : (([s.uq, s.uq2].take (s.uqPops i) : List Uop) :
    Multiset Uop) = single (s.tPopUq i) s.uq + single (s.tPopUq2 i) s.uq2 := by
  unfold uqPops
  cases h2 : s.tPopUq2 i
  · cases s.tPopUq i <;> rfl
  · rw [(tPopUq_of_tPopUq2 h2).1]
    rfl

theorem QueuesInv.uq_view_step (h : s.QueuesInv l) (he : s.Polite i) (hd : i.dsDone = false) :
    (s.step i).rUq.view = s.rUq.view.drop (s.uqPops i) ++ accepted Uop.isInt i := by
  obtain ⟨hn, -⟩ := h.uq_pops i
  have hv := (h.uq.ok.step i.dsDone hn (h.uq_room he)).2
  rw [hd, if_neg Bool.false_ne_true, he.pushed_uops] at hv
  rw [← hv, ← ofNat_uqPops]
  unfold Exec.step
  rw [hd]

theorem QueuesInv.memUq_view_step (h : s.QueuesInv l) (he : s.Polite i) (hd : i.dsDone = false) :
    (s.step i).rMemUq.view =
      s.rMemUq.view.drop (s.tPopMemUq i).toNat ++ accepted Uop.isMem i := by
  obtain ⟨hn, -⟩ := one_pop (fun hp => (tPopMemUq_spec (s := s) (i := i) hp).1)
  have hv := (h.memUq.ok.step i.dsDone hn (h.memUq_room he)).2
  rw [hd, if_neg Bool.false_ne_true, he.pushed_uops] at hv
  rw [← hv, ← ofNat_toNat_bool]
  unfold Exec.step
  rw [hd]

/-- **Integer uops move on**: the pushed ones come in, the selected ones are on the ports next. -/
theorem QueuesInv.waiting_step (h : s.QueuesInv l) (he : s.Polite i) {age age2 : SchedIdx → ℕ}
    (ho : Ordered s.sched.rValid s.sched.rMatrix age)
    (ho2 : Ordered s.sched2.rValid s.sched2.rMatrix age2) (hd : i.dsDone = false) :
    (s.step i).waiting + (s.step i).onPorts = s.waiting + (accepted Uop.isInt i : List Uop) := by
  have hq := coe_drop_append (h.uq_view_step he hd)
  rw [(h.uq_pops i).2, coe_uqPops] at hq
  have hs : (s.step i).sched.held + single (s.step i).rStartInt (s.step i).intUop =
      s.sched.held + single (s.tPopUq i) s.uq := by
    have hst : (s.step i).rStartInt = s.sched.anyRdy (s.schedIn i) := by
      show (_ && !i.dsDone) = _
      rw [hd, Bool.not_false, Bool.and_true]
    rw [hst]
    exact AluSched.held_step ho (offers_schedIn s i) hd
  have hs2 : (s.step i).sched2.held + single (s.step i).rStartInt2 (s.step i).intUop2 =
      s.sched2.held + single (s.tPopUq2 i) s.uq2 := by
    have hst : (s.step i).rStartInt2 = s.sched2.anyRdy (s.schedIn2 i) := by
      show (_ && !i.dsDone) = _
      rw [hd, Bool.not_false, Bool.and_true]
    rw [hst]
    exact AluSched.held_step ho2 (offers_schedIn2 s i) hd
  unfold waiting onPorts
  calc _ = ((s.step i).rUq.view : Multiset Uop) +
        ((s.step i).sched.held + single (s.step i).rStartInt (s.step i).intUop) +
        ((s.step i).sched2.held + single (s.step i).rStartInt2 (s.step i).intUop2) := by abel
    _ = ((s.step i).rUq.view : Multiset Uop) +
          (single (s.tPopUq i) s.uq + single (s.tPopUq2 i) s.uq2) +
        (s.sched.held + s.sched2.held) := by
        rw [hs, hs2]
        abel
    _ = _ := by
        rw [hq]
        abel

/-- **Memory uops move on**: the pushed ones come in, the popped one is sent next. -/
theorem QueuesInv.memUq_step (h : s.QueuesInv l) (he : s.Polite i) (hd : i.dsDone = false) :
    ((s.step i).rMemUq.view : Multiset Uop) +
        single (s.step i).rMemReady (s.step i).memUq =
      s.rMemUq.view + (accepted Uop.isMem i : List Uop) := by
  have hq := coe_drop_append (h.memUq_view_step he hd)
  rw [(one_pop (fun hp => (tPopMemUq_spec (s := s) (i := i) hp).1)).2] at hq
  rw [← hq]
  congr 1
  show single (s.tPopMemUq i) s.tMemUq = _
  cases s.tPopMemUq i <;> rfl

theorem QueuesInv.memQ_step (h : s.QueuesInv l) (he : s.Polite i) :
    ((s.step i).rMemQ.view : Multiset MemReq) + single i.memReqAck s.memReq =
      s.rMemQ.view + single s.rMemReady s.tMemTail := by
  have hne : i.memReqAck = true → s.rMemQ.empty = false := fun ha => by
    have := he.reqAck ha
    rwa [memReqValid, Bool.not_eq_true'] at this
  obtain ⟨hn, htake⟩ := one_pop hne
  have hroom : s.rMemQ.view.length +
      (ExecQueue.pushed false s.rMemReady true s.tMemTail s.tMemTail).length ≤ 2 ^ 2 := by
    rw [pushed_one_length]
    exact h.memRoom
  have hv := (h.memQ.ok.step false hn hroom).2
  rw [if_neg Bool.false_ne_true, pushed_one, ← ofNat_toNat_bool] at hv
  have hq := coe_drop_append hv
  rw [htake] at hq
  have hpop : ((if i.memReqAck then [s.rMemQ.head] else [] : List MemReq) : Multiset MemReq) =
      single i.memReqAck s.memReq := by
    cases i.memReqAck <;> rfl
  have hpush : ((if s.rMemReady then [s.tMemTail] else [] : List MemReq) : Multiset MemReq) =
      single s.rMemReady s.tMemTail := by
    cases s.rMemReady <;> rfl
  rw [hpop, hpush] at hq
  exact hq

theorem waiting_flush (hd : i.dsDone = true) : (s.step i).waiting = 0 ∧ (s.step i).onPorts = 0 ∧
    (s.step i).rMemUq.view = [] ∧ (s.step i).rMemReady = false := by
  have hreset : ∀ (q : ExecQueue 3 Uop) (two one first : Bool) (a b : Uop) (p : BitVec 4),
      (q.step i.dsDone two one first a b p).view = [] := fun q two one first a b p => by
    rw [hd]
    exact ExecQueue.IsReset.view ⟨rfl, rfl, rfl⟩
  have huq : (s.step i).rUq.view = [] := hreset _ _ _ _ _ _ _
  have hs : (s.step i).sched.held = 0 := AluSched.held_flash hd
  have hs2 : (s.step i).sched2.held = 0 := AluSched.held_flash hd
  have h1 : (s.step i).rStartInt = false := by
    show (_ && !i.dsDone) = _
    rw [hd, Bool.not_true, Bool.and_false]
  have h2 : (s.step i).rStartInt2 = false := by
    show (_ && !i.dsDone) = _
    rw [hd, Bool.not_true, Bool.and_false]
  have h3 : (s.step i).rMemReady = false := by
    show s.tPopMemUq i = false
    rw [tPopMemUq, hd, Bool.not_true, Bool.and_false]
  unfold waiting onPorts
  rw [huq, hs, hs2, h1, h2]
  exact ⟨rfl, rfl, hreset _ _ _ _ _ _ _, h3⟩

theorem waiting_reset (h : s.IsReset) : s.waiting = 0 ∧ s.onPorts = 0 ∧ s.rMemUq.view = [] := by
  have hheld : ∀ q : AluSched, schedMachine.reset q → q.held = 0 := by
    rintro q ⟨uops, rfl⟩
    exact Finset.sum_const_zero
  unfold waiting onPorts
  rw [h.rUq.view, hheld _ h.sched, hheld _ h.sched2, h.rStartInt, h.rStartInt2, h.rMemUq.view]
  exact ⟨rfl, rfl, rfl⟩

end Exec
end Rv32Core
