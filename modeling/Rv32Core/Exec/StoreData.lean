import Rv32Core.Exec.InFlight

/-! # The stores that wait for their data

A store enters the store data queue when it is pushed, and leaves it through `mem_dq` when its
register is ready; only then is the core told.  `ds_done` does not empty this queue, `mem_dq_clr`
does. -/

namespace Rv32Core

open Clocked RingBuffer

namespace Exec

variable {s : Exec} {i : ExecIn} {l : ExecLog}

/-- The slots of the stores in `r_mem_dq` and in the `r_dq_ready` stage. -/
def dataSlots (s : Exec) : Multiset RobPtr :=
  (s.rMemDq.view.map Dq.robPtr : List RobPtr) + single s.rDqReady s.memDq.robPtr

/-- The slots of the stores pushed in a cycle. -/
def pushedData (i : ExecIn) : Multiset RobPtr :=
  single (i.uqPush && hasData i.uqUop) i.uqUop.robPtr +
    single (i.uqPushTwo && hasData i.uqUopTwo) i.uqUopTwo.robPtr

theorem pushedData_eq (i : ExecIn) :
    pushedData i = ((accepted hasData i).map Uop.robPtr : List RobPtr) := by
  unfold pushedData accepted
  cases i.uqPush && hasData i.uqUop <;> cases i.uqPushTwo && hasData i.uqUopTwo <;> rfl

theorem QueuesInv.memDq_view_step (h : s.QueuesInv l) (he : s.Polite i) (hc : i.memDqClr = false) :
    (s.step i).rMemDq.view =
      s.rMemDq.view.drop (s.tPopMemDq i).toNat ++ (accepted hasData i).map toDq := by
  obtain ⟨hn, -⟩ := one_pop (fun hp => (tPopMemDq_spec (s := s) (i := i) hp).1)
  have hv := (h.memDq.ok.step i.memDqClr hn (h.memDq_room he)).2
  rw [hc, if_neg Bool.false_ne_true, pushed_eq (fun h2 => (he.pushTwo h2).1)] at hv
  rw [← hv, ← ofNat_toNat_bool]
  unfold Exec.step
  rw [hc]

/-- **Store data moves on**: the stores pushed come in, the one reported to the core goes out. -/
theorem QueuesInv.dataSlots_step (h : s.QueuesInv l) (he : s.Polite i) (hc : i.memDqClr = false) :
    (s.step i).dataSlots + single s.coreStoreDataPtrValid s.coreStoreDataPtr =
      s.dataSlots + pushedData i := by
  have hq := congrArg (Multiset.map Dq.robPtr) (coe_drop_append (h.memDq_view_step he hc))
  rw [Multiset.map_add, Multiset.map_add,
    (one_pop (fun hp => (tPopMemDq_spec (s := s) (i := i) hp).1)).2] at hq
  have hpop : Multiset.map Dq.robPtr ((if s.tPopMemDq i then [s.rMemDq.head] else [] : List Dq) :
      Multiset Dq) = single (s.step i).rDqReady (s.step i).memDq.robPtr := by
    show _ = single (s.tPopMemDq i) s.tMemDq.robPtr
    cases s.tPopMemDq i <;> rfl
  have hpush : Multiset.map Dq.robPtr (((accepted hasData i).map toDq : List Dq) : Multiset Dq) =
      pushedData i := by
    rw [pushedData_eq, Multiset.map_coe, List.map_map]
    rfl
  rw [hpop, hpush] at hq
  have hx : (s.step i).dataSlots = (s.rMemDq.view.map Dq.robPtr : List RobPtr) + pushedData i := hq
  rw [hx, dataSlots]
  show _ + single s.rDqReady s.memDq.robPtr = _
  abel

theorem dataSlots_clr (hc : i.memDqClr = true) : (s.step i).dataSlots = 0 := by
  have hv : (s.step i).rMemDq.view = [] := by
    unfold Exec.step
    rw [hc]
    exact ExecQueue.IsReset.view ⟨rfl, rfl, rfl⟩
  have hr : (s.step i).rDqReady = false := by
    show s.tPopMemDq i = false
    rw [tPopMemDq, hc, Bool.not_true, Bool.and_false, Bool.false_and, Bool.false_and]
  rw [dataSlots, hv, hr]
  rfl

theorem dataSlots_reset (h : s.IsReset) : s.dataSlots = 0 := by
  rw [dataSlots, h.rMemDq.view, h.rDqReady]
  rfl

/-! ### Room for what is pushed -/

theorem not_full_of_slots {k : ℕ} {α : Type*} {q : ExecQueue k α} {f : α → RobPtr}
    {m : Multiset RobPtr} (hq : (q.view.map f : List RobPtr) ≤ m) (h0 : m = 0) : q.full = false := by
  have hc := Multiset.card_le_card hq
  rw [h0, Multiset.coe_card, List.length_map, Multiset.card_zero, ExecQueue.view_length] at hc
  exact (isFull_eq_false_iff (hc.trans (Nat.zero_le _))).mpr (hc.trans_lt (Nat.two_pow_pos k))

/-- With nothing waiting, the three queues the core pushes to are not full. -/
theorem not_full (h0 : s.intSlots = 0) (h1 : s.memSlots = 0) (h2 : s.dataSlots = 0) :
    s.rUq.full = false ∧ s.rMemUq.full = false ∧ s.rMemDq.full = false := by
  refine ⟨not_full_of_slots (f := Uop.robPtr) ?_ h0, not_full_of_slots (f := Uop.robPtr) le_rfl h1,
    not_full_of_slots (f := Dq.robPtr) (Multiset.le_add_right _ _) h2⟩
  unfold intSlots
  simp only [add_assoc]
  exact Multiset.le_add_right _ _

end Exec
end Rv32Core
