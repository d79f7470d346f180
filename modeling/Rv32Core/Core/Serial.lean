import Rv32Core.Core.Occupancy

/-! # The serializing uop

ACTIVE finds a serializing uop at the head of the decode queue and waits for the ROB to empty.  The
uop stays at the head until it is allocated, and is the only entry of the ROB until it has completed.
ALLOC_FOR_MONITOR goes on whether or not its uop was allocated, so what it needs must be there: room
in the queues of the execution unit, and a free register.  A free register there is even though a
serializing uop may be given one that is in use, since no register is ever lost. -/

namespace Rv32Core

open RingBuffer Rename

instance : Fintype PrfPtr := Fintype.ofEquiv (Fin (2 ^ 6)) BitVec.equivFin.symm.toEquiv

/-- The fields of a ROB entry that no completion writes. -/
def RobEntry.static (e : RobEntry) : RobEntry :=
  { e with
    faulted := false
    isIi := false
    isBadAddr := false
    targetPc := 0
    takeBr := false
    data := 0 }

/-- The serializing uop, and whether its completion bit was raised since it was allocated, when it
was allocated included. -/
structure SerialLog where
  uop : Uop
  done : Bool

namespace Core

variable {s : Core} {i : CoreIn} {l : SerialLog}

theorem static_stable : Stable RobEntry.static := ⟨fun _ _ => rfl, fun _ _ => rfl⟩

/-- A report on slot `p` in this cycle. -/
def reportsOn (i : CoreIn) (p : RobPtr) : Bool :=
  (i.tCompleteValid1 && i.tCompleteBundle1.robPtr == p) ||
    (i.tCompleteValid2 && i.tCompleteBundle2.robPtr == p) ||
    (i.coreMemRspValid && i.coreMemRsp.robPtr == p)

theorem reportsOn_eq_false {p : RobPtr} (h : reportsOn i p = false) :
    (i.tCompleteValid1 = true → i.tCompleteBundle1.robPtr ≠ p) ∧
      (i.tCompleteValid2 = true → i.tCompleteBundle2.robPtr ≠ p) ∧
      (i.coreMemRspValid = true → i.coreMemRsp.robPtr ≠ p) := by
  simpa [reportsOn, and_assoc] using h

/-- The log follows the uop at the head of the decode queue in ACTIVE, and what is reported on the
head of the ROB after the uop's allocation. -/
def watchSerial (l : SerialLog) (s : Core) (i : CoreIn) : SerialLog :=
  if s.rState = .active then ⟨s.tUop, false⟩
  else if (s.ctl i).tAlloc then ⟨l.uop, s.tFoldUop⟩
  else ⟨l.uop, l.done || reportsOn i (idx s.rRobHeadPtr)⟩

/-! ### The head of the decode queue -/

theorem dqView_cons (h : s.tDqEmpty = false) :
    dqView s = s.tUop :: contents s.rDq (s.rDqHeadPtr + 1) s.rDqTailPtr := by
  rw [tDqEmpty, beq_eq_false_iff_ne] at h
  exact contents_pop _ h.symm

theorem tUop_step (hp : s.DqPtrs) (hc : s.clrDq i = false) (ha : s.nAllocated i = 0)
    (h : s.tDqEmpty = false) : (s.step i).tDqEmpty = false ∧ (s.step i).tUop = s.tUop := by
  have hv := dqView_step hp hc
  rw [ha, List.drop_zero, dqView_cons h, List.cons_append] at hv
  have hne : (s.step i).tDqEmpty = false := by
    by_contra he
    rw [Bool.not_eq_false, tDqEmpty, beq_iff_eq] at he
    rw [dqView, he, contents_self] at hv
    cases hv
  refine ⟨hne, ?_⟩
  rw [dqView_cons hne] at hv
  exact (List.cons.inj hv).1

/-! ### The uop in the ROB -/

/-- Where the serializing uop is, and that its completion bit is its own. -/
structure SerialInv (s : Core) (l : SerialLog) : Prop where
  waiting : Serial s.rState → s.tDqEmpty = false ∧ s.tUop = l.uop ∧ l.uop.serializingOp = true
  alone : Waits s.rState → l.uop.serializingOp = true ∧
    ∃ p o, robView RobEntry.static s = [(robEntryOf l.uop true p o).static]
  fresh : Waits s.rState → s.rRobComplete (idx s.rRobHeadPtr) = true → l.done = true

theorem SerialInv.waiting_step (h : s.SerialInv l) (hp : s.DqPtrs)
    (hs : Serial (s.step i).rState) : (s.step i).tDqEmpty = false ∧
      (s.step i).tUop = (watchSerial l s i).uop ∧
      (watchSerial l s i).uop.serializingOp = true := by
  obtain ⟨hfrom, ha, -⟩ := ctl_serial (i := i) hs
  have hno : (s.ctl i).tAlloc = false := by
    rw [nAllocated] at ha
    split_ifs at ha with h1
    exact Bool.eq_false_iff.mpr h1
  rcases hfrom with hser | ⟨hact, -, hd, hz⟩
  · obtain ⟨hd, hu, hz⟩ := h.waiting hser
    obtain ⟨hd', hu'⟩ := tUop_step hp (clrDq_of_serial (i := i) hser) ha hd
    rw [watchSerial, if_neg hser.ne.1, hno, if_neg Bool.false_ne_true]
    exact ⟨hd', hu'.trans hu, hz⟩
  · have hc : s.clrDq i = false := by
      rw [clrDq, ctl_tClrRob, ctl_tClrDq, hact]
      rfl
    obtain ⟨hd', hu'⟩ := tUop_step hp hc ha hd
    rw [watchSerial, if_pos hact]
    exact ⟨hd', hu', hz⟩

theorem SerialInv.alone_step (h : s.SerialInv l) (ho : s.Occupied)
    (hm : s.rState = .allocForMonitor → (s.ctl i).tAlloc = true) (hs : Waits (s.step i).rState) :
    (watchSerial l s i).uop.serializingOp = true ∧
      ∃ p o, robView RobEntry.static (s.step i) =
        [(robEntryOf (watchSerial l s i).uop true p o).static] := by
  have hl := ho.nLeaving_le (i := i)
  rcases ctl_waits (i := i) hs with ⟨hser, ha, ha2, hle⟩ | ⟨hw, ha, hle⟩
  · have hr : s.rState ≠ .rat := by
      rcases hser with hx | hx | hx | hx <;> rw [hx] <;> decide
    have halloc : (s.ctl i).tAlloc = true := by
      by_cases hx : s.rState = .allocForMonitor
      · exact hm hx
      · exact ha hx
    have hv := robView_step (i := i) static_stable ho.ptrs hr hl
    have hnil : robView RobEntry.static s = [] := by
      rw [← List.length_eq_zero_iff, robView, contents_length]
      exact ho.none hser
    obtain ⟨-, hu, hz⟩ := h.waiting hser
    rw [watchSerial, if_neg hser.ne.1, halloc, if_pos rfl]
    refine ⟨hz, s.nPrfEntry, s.rAllocRat (archReg s.tUop.dst), ?_⟩
    rw [hv, hnil, hle, allocated, halloc, ha2, ← hu]
    simp [tRobTail, halloc]
  · obtain ⟨hz, p, o, hview⟩ := h.alone hw
    have hno : (s.ctl i).tAlloc = false := by
      rw [nAllocated] at ha
      split_ifs at ha with h1
      exact Bool.eq_false_iff.mpr h1
    have hv := robView_step (i := i) static_stable ho.ptrs hw.ne.2.2 hl
    rw [watchSerial, if_neg hw.ne.1, hno, if_neg Bool.false_ne_true]
    refine ⟨hz, p, o, ?_⟩
    rw [hv, hle, List.drop_zero, allocated, hno, hview]
    rfl

theorem SerialInv.fresh_step (h : s.SerialInv l) (ho : s.Occupied) (ha : AnswersInflight s i)
    (hm : s.rState = .allocForMonitor → (s.ctl i).tAlloc = true) (hs : Waits (s.step i).rState)
    (hc : (s.step i).rRobComplete (idx (s.step i).rRobHeadPtr) = true) :
    (watchSerial l s i).done = true := by
  rcases ctl_waits (i := i) hs with ⟨hser, hal, ha2, hle⟩ | ⟨hw, hal, hle⟩
  · -- the bit is written by the allocation, since nothing in flight is reported on
    have hr : s.rState ≠ .rat := by
      rcases hser with hx | hx | hx | hx <;> rw [hx] <;> decide
    have halloc : (s.ctl i).tAlloc = true := by
      by_cases hx : s.rState = .allocForMonitor
      · exact hm hx
      · exact hal hx
    have hempty : s.rRobHeadPtr = s.rRobTailPtr :=
      occ_eq_zero_iff.mp (ho.none hser)
    rw [robHead_step hr hle, hempty] at hc
    obtain ⟨h1, h2, h3⟩ := ho.inflight.answers_ne ho.ds ha halloc (ho.ptrs.tail_fresh halloc)
    rw [watchSerial, if_neg hser.ne.1, halloc, if_pos rfl]
    rcases complete_step h1 h2 h3 hc with ⟨-, -, hf⟩ | ⟨hx, -⟩ | ⟨hno, -⟩
    · exact hf
    · rw [ha2] at hx
      cases hx
    · exact absurd ⟨halloc, rfl⟩ hno
  · have hno : (s.ctl i).tAlloc = false := by
      rw [nAllocated] at hal
      split_ifs at hal with h1
      exact Bool.eq_false_iff.mpr h1
    rw [robHead_step hw.ne.2.2 hle] at hc
    rw [watchSerial, if_neg hw.ne.1, hno, if_neg Bool.false_ne_true]
    show (l.done || reportsOn i (idx s.rRobHeadPtr)) = true
    cases hrep : reportsOn i (idx s.rRobHeadPtr)
    · obtain ⟨h1, h2, h3⟩ := reportsOn_eq_false hrep
      rcases complete_step h1 h2 h3 hc with ⟨hx, -⟩ | ⟨hx, -⟩ | ⟨-, -, hx⟩
      · rw [hno] at hx
        cases hx
      · rw [(tAllocTwo_tAlloc hx).1] at hno
        cases hno
      · rw [h.fresh hw hx, Bool.true_or]
    · exact Bool.or_true _

theorem SerialInv.step (h : s.SerialInv l) (ho : s.Occupied) (ha : AnswersInflight s i)
    (hm : s.rState = .allocForMonitor → (s.ctl i).tAlloc = true) :
    (s.step i).SerialInv (watchSerial l s i) where
  waiting := h.waiting_step ho.ptrs.toDqPtrs
  alone := h.alone_step ho hm
  fresh := h.fresh_step ho ha hm

theorem init_serialInv (rob : RobPtr → RobEntry) (bob : BitVec 2 → BobEntry) (dq : BitVec 2 → Uop)
    (l : SerialLog) : (init rob bob dq).SerialInv l where
  waiting h := by rcases h with h | h | h | h <;> cases h
  alone h := by rcases h with h | h <;> cases h
  fresh h := by rcases h with h | h <;> cases h

/-! ### No register is lost -/

/-- Every physical register is free or in use. -/
structure CoverInv (s : Core) : Prop where
  dqOk : s.DqOk
  covers : s.renamer.Covers

theorem allocIf_covers {r : State ArchReg PrfPtr} (h : r.Covers) (b : Bool) (a : ArchReg)
    (p : PrfPtr) : (allocIf b a p r).Covers := by
  cases b
  · exact h
  · exact h.alloc a p

theorem retireIf_covers {r : State ArchReg PrfPtr} (h : r.Covers) (b : Bool) :
    (retireIf b r).Covers := by
  cases b
  · exact h
  · exact h.retire

theorem CoverInv.step (h : s.CoverInv) (hp : s.Ptrs) (hw : s.rState ≠ .writeCause)
    (he : s.RetiresEntry i) : (s.step i).CoverInv := by
  refine ⟨h.dqOk.step hp.toDqPtrs, ?_⟩
  by_cases hr : s.rState = .rat
  · rw [renamer_rat hr]
    exact h.covers.restore
  · rw [renamer_step hw he hr hp h.dqOk]
    exact retireIf_covers (retireIf_covers (allocIf_covers (allocIf_covers h.covers _ _ _) _ _ _) _) _

theorem init_coverInv (rob : RobPtr → RobEntry) (bob : BitVec 2 → BobEntry) (dq : BitVec 2 → Uop) :
    (init rob bob dq).CoverInv :=
  ⟨(init_renameInv rob bob dq).dqOk, (init_renameInv rob bob dq).wellFormed.covers⟩

theorem card_archReg_lt : Fintype.card ArchReg < Fintype.card PrfPtr := by
  rw [Fintype.ofEquiv_card, Fintype.ofEquiv_card, Fintype.card_fin, Fintype.card_fin]
  decide

/-- With an empty ROB some register is free. -/
theorem CoverInv.exists_free (h : s.CoverInv) (h0 : s.robCount = 0) :
    ∃ p, s.rPrfFree p = true := by
  have hnil : s.renamer.inflight = [] := by
    have hv : robView writerOf s = [] := by
      rw [← List.length_eq_zero_iff, robView, contents_length]
      exact h0
    rw [renamer, hv]
    rfl
  exact h.covers.exists_free hnil card_archReg_lt

/-! ### ALLOC_FOR_MONITOR -/

/-- The uop of a monitor call is allocated when the execution unit has room for it and some register
is free. -/
theorem SerialInv.alloc (h : s.SerialInv l) (ho : s.Occupied) (hs : s.rState = .allocForMonitor)
    (hr : ∃ p, s.rPrfFree p = true) (hf : i.tUqFull = false) : (s.ctl i).tAlloc = true := by
  have hser : Serial s.rState := by rw [hs]; simp [Serial]
  have h0 := ho.none hser
  have hroom : s.tRobFull = false :=
    (isFull_eq_false_iff (k := 5) ho.ptrs.robOcc).mpr (by rw [← robCount, h0]; decide)
  have hfree : isZero s.rPrfFree = false := isZero_eq_false_iff.mpr hr
  rw [ctl_tAlloc, hs]
  show s.allocSerial i = true
  rw [allocSerial, hroom, hf, hfree, (h.waiting hser).1]
  rfl

end Core
end Rv32Core
