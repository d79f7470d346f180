import Rv32Core.Core.BranchOrder
import Rv32Core.Core.TwoWide
import Rv32Core.Exec.Alu

/-! # The outcome of branches

The prediction a branch was fetched with travels with its uop and is not kept in the ROB.  An
observer remembers which uop each slot was allocated for: a completed branch that is not faulted
was resolved as predicted, whichever port completed it.  Branches are in the ROB only in ACTIVE and
while it is drained. -/

namespace Rv32Core

open RingBuffer

/-! ### What a port makes of a branch -/

/-- A branch is folded at allocation, or executed by either port, which reports a misprediction
unless its direction is the predicted one. -/
theorem BranchUop.cases {f : InsnFetch} (h : BranchUop f) :
    (decodeRiscv f).op = .ii ∨ ((decodeRiscv f).op = .j ∧ (decodeRiscv f).brPred = true) ∨
      (OnBothPorts (decodeRiscv f).op = true ∧ ∀ c a b,
        ((decodeRiscv f).eval c a b).mispredBr = false →
          ((decodeRiscv f).eval c a b).takeBr = (decodeRiscv f).brPred) := by
  cases h with
  | branch _ hd =>
      rw [hd]
      have hop : (decodeBranch f).op ∈ [Opcode.beq, .bne, .blt, .bge, .bltu, .bgeu, .ii] := by
        simp only [decodeBranch]
        split_ifs <;> simp
      simp only [List.mem_cons, List.not_mem_nil, or_false] at hop
      rcases hop with ho | ho | ho | ho | ho | ho | ho
      case inr.inr.inr.inr.inr.inr => exact .inl ho
      all_goals
        refine .inr (.inr ⟨by rw [ho]; rfl, fun c a b hm => ?_⟩)
        simp only [Uop.eval, ho, Alu.branch, bne_eq_false_iff_eq] at hm ⊢
        exact hm.symm
  | jalr _ hd =>
      rw [hd]
      have hop : (decodeJalr f).op ∈ [Opcode.ret, .jr, .jalr] := by
        simp only [decodeJalr]
        split_ifs <;> simp
      simp only [List.mem_cons, List.not_mem_nil, or_false] at hop
      refine .inr (.inr ?_)
      rcases hop with ho | ho | ho
      all_goals
        refine ⟨by rw [ho]; rfl, fun c a b _ => ?_⟩
        simp only [Uop.eval, ho]
        rfl
  | jal _ hd =>
      rw [hd]
      by_cases hz : rdField f.data = 0
      · exact .inr (.inl ⟨if_pos hz, rfl⟩)
      · have ho : (decodeJal f).op = .jal := if_neg hz
        refine .inr (.inr ⟨by rw [ho]; rfl, fun c a b _ => ?_⟩)
        simp only [Uop.eval, ho]
        rfl

namespace Core

variable {s : Core} {i : CoreIn} {owner : RobPtr → Uop}

/-! ### The uop of a slot -/

/-- An observer that remembers the uop each ROB slot was allocated for, as it was decoded. -/
def nextOwner (owner : RobPtr → Uop) (s : Core) (i : CoreIn) : RobPtr → Uop :=
  owner
    |> writeIf (s.ctl i).tAlloc (idx s.rRobTailPtr) s.tUop
    |> writeIf (s.ctl i).tAllocTwo (idx s.rRobNextTailPtr) s.tUop2

/-- The execution unit reports a branch as its ports compute it; the data cache reports none. -/
structure PortAnswers (owner : RobPtr → Uop) (i : CoreIn) : Prop where
  one : i.tCompleteValid1 = true → (owner i.tCompleteBundle1.robPtr).isBr = true → ∃ c a b,
    i.tCompleteBundle1.takeBr = (Port1.alu c (owner i.tCompleteBundle1.robPtr) a b).takeBr ∧
    i.tCompleteBundle1.faulted = ((Port1.alu c (owner i.tCompleteBundle1.robPtr) a b).mispredBr ||
      (Port1.alu c (owner i.tCompleteBundle1.robPtr) a b).unimpOp)
  two : i.tCompleteValid2 = true → (owner i.tCompleteBundle2.robPtr).isBr = true → ∃ c a b,
    i.tCompleteBundle2.takeBr = (Port2.alu c (owner i.tCompleteBundle2.robPtr) a b).takeBr ∧
    i.tCompleteBundle2.faulted = (Port2.alu c (owner i.tCompleteBundle2.robPtr) a b).mispredBr
  mem : i.coreMemRspValid = true → (owner i.coreMemRsp.robPtr).isBr = false

/-- The branches in flight are those of their uops, and, unless the core drains, a completed branch
that is not faulted went the way its uop was predicted to. -/
structure OutcomeInv (owner : RobPtr → Uop) (s : Core) : Prop where
  inflight : ∀ p, s.rRobInflight p = true →
    (s.rRob p).isBr = (owner p).isBr ∧ ∃ f, owner p = decodeRiscv f ∧ folds (owner p).op = false
  outcome : s.rDsDone = false → ∀ p, s.rRobComplete p = true → (s.rRob p).isBr = true →
    (s.rRob p).faulted = false → (s.rRob p).takeBr = (owner p).brPred

theorem nextOwner_of_inRob (hp : s.Ptrs) {p : RobPtr} (h : s.InRob p) :
    nextOwner owner s i p = owner p := hp.writes_inRob _ _ _ h

theorem nextOwner_tail (hp : s.Ptrs) (h : (s.ctl i).tAlloc = true) :
    nextOwner owner s i (idx s.rRobTailPtr) = s.tUop := hp.writes_tail _ _ _ h

theorem nextOwner_nextTail (h : (s.ctl i).tAllocTwo = true) :
    nextOwner owner s i (idx s.rRobNextTailPtr) = s.tUop2 := writes_nextTail _ _ _ h

/-! ### The entry of a slot -/

/-- Nothing is reported on a slot. -/
def Unreported (i : CoreIn) (p : RobPtr) : Prop :=
  (i.tCompleteValid1 = true → i.tCompleteBundle1.robPtr ≠ p) ∧
    (i.tCompleteValid2 = true → i.tCompleteBundle2.robPtr ≠ p) ∧
    (i.coreMemRspValid = true → i.coreMemRsp.robPtr ≠ p)

theorem entry_step (hs : s.rState ≠ .rat) (p : RobPtr) :
    (i.coreMemRspValid = true ∧ p = i.coreMemRsp.robPtr) ∨
    (i.tCompleteValid2 = true ∧ p = i.tCompleteBundle2.robPtr ∧
      ((s.step i).rRob p).faulted = i.tCompleteBundle2.faulted ∧
      ((s.step i).rRob p).takeBr = i.tCompleteBundle2.takeBr) ∨
    (i.tCompleteValid1 = true ∧ p = i.tCompleteBundle1.robPtr ∧
      ((s.step i).rRob p).faulted = i.tCompleteBundle1.faulted ∧
      ((s.step i).rRob p).takeBr = i.tCompleteBundle1.takeBr) ∨
    (Unreported i p ∧ (s.step i).rRob p = (s.rRob
      |> writeIf (s.ctl i).tAlloc (idx s.rRobTailPtr) (s.tRobTail i)
      |> writeIf (s.ctl i).tAllocTwo (idx s.rRobNextTailPtr) (s.tRobNextTail i)) p) := by
  have hc : (s.ctl i).tClrRob = false := by rw [ctl_tClrRob, decide_eq_false hs]
  have hrob : (s.step i).rRob p = (s.rRob
      |> writeIf (s.ctl i).tAlloc (idx s.rRobTailPtr) (s.tRobTail i)
      |> writeIf (s.ctl i).tAllocTwo (idx s.rRobNextTailPtr) (s.tRobNextTail i)
      |> modifyIf i.tCompleteValid1 i.tCompleteBundle1.robPtr (completeEntry i.tCompleteBundle1)
      |> modifyIf i.tCompleteValid2 i.tCompleteBundle2.robPtr (completeEntry i.tCompleteBundle2)
      |> modifyIf i.coreMemRspValid i.coreMemRsp.robPtr (memEntry i.coreMemRsp)) p := by
    change s.nRob i p = _
    simp only [nRob, hc, Bool.false_eq_true, if_false]
  by_cases h3 : i.coreMemRspValid = true ∧ p = i.coreMemRsp.robPtr
  · exact .inl h3
  rw [modifyIf_apply, if_neg h3] at hrob
  by_cases h2 : i.tCompleteValid2 = true ∧ p = i.tCompleteBundle2.robPtr
  · rw [modifyIf_apply, if_pos h2] at hrob
    exact .inr (.inl ⟨h2.1, h2.2, by rw [hrob]; rfl, by rw [hrob]; rfl⟩)
  rw [modifyIf_apply, if_neg h2] at hrob
  by_cases h1 : i.tCompleteValid1 = true ∧ p = i.tCompleteBundle1.robPtr
  · rw [modifyIf_apply, if_pos h1] at hrob
    exact .inr (.inr (.inl ⟨h1.1, h1.2, by rw [hrob]; rfl, by rw [hrob]; rfl⟩))
  rw [modifyIf_apply, if_neg h1] at hrob
  exact .inr (.inr (.inr ⟨⟨fun hv he => h1 ⟨hv, he.symm⟩, fun hv he => h2 ⟨hv, he.symm⟩,
    fun hv he => h3 ⟨hv, he.symm⟩⟩, hrob⟩))

theorem isBr_stable : Stable RobEntry.isBr := ⟨fun _ _ => rfl, fun _ _ => rfl⟩

theorem isBr_of_inRob (hp : s.Ptrs) (hs : s.rState ≠ .rat) {p : RobPtr} (h : s.InRob p) :
    ((s.step i).rRob p).isBr = (s.rRob p).isBr := by
  have he : ((s.step i).rRob p).isBr = _ := congrFun (isBr_stable.nRob (i := i) hs) p
  rw [he, writeIf_apply, if_neg, writeIf_apply, if_neg]
  · rintro ⟨h1, rfl⟩
    exact hp.tail_fresh h1 h
  · rintro ⟨h2, rfl⟩
    exact hp.nextTail_fresh h2 h

theorem isBr_tail (hp : s.Ptrs) (h : (s.ctl i).tAlloc = true) :
    ((s.step i).rRob (idx s.rRobTailPtr)).isBr = s.tUop.isBr := by
  have hs : s.rState ≠ .rat := fun hs => by
    rw [ctl_tAlloc, hs] at h
    cases h
  have he : ((s.step i).rRob (idx s.rRobTailPtr)).isBr = _ :=
    congrFun (isBr_stable.nRob (i := i) hs) _
  rw [he, writeIf_apply, if_neg, h, writeIf_true, Function.update_self]
  · rfl
  · rintro ⟨-, hn⟩
    exact hp.nextTail_ne hn.symm

theorem isBr_nextTail (h : (s.ctl i).tAllocTwo = true) :
    ((s.step i).rRob (idx s.rRobNextTailPtr)).isBr = s.tUop2.isBr := by
  have hs : s.rState ≠ .rat := by
    rw [(tAllocTwo_tAlloc h).2.1]
    decide
  have he : ((s.step i).rRob (idx s.rRobNextTailPtr)).isBr = _ :=
    congrFun (isBr_stable.nRob (i := i) hs) _
  rw [he, h, writeIf_true, Function.update_self]
  rfl

/-! ### One cycle -/

theorem executed_branch {u : Uop} (hu : ∃ f, u = decodeRiscv f) (hb : u.isBr = true)
    (hf : folds u.op = false) : OnBothPorts u.op = true ∧
      ∀ c a b, (u.eval c a b).mispredBr = false → (u.eval c a b).takeBr = u.brPred := by
  obtain ⟨f, rfl⟩ := hu
  rcases (branchUop hb).cases with ho | ⟨ho, -⟩ | h
  · rw [ho] at hf
    cases hf
  · rw [ho] at hf
    cases hf
  · exact h

/-- A branch that is folded: a jump, which is taken, or an illegal instruction. -/
theorem folded_branch {u : Uop} (hu : ∃ f, u = decodeRiscv f) (hb : u.isBr = true)
    (hf : folds u.op = true) {x y : PrfPtr} (hn : (robEntryOf u true x y).faulted = false) :
    (robEntryOf u true x y).takeBr = u.brPred := by
  obtain ⟨f, rfl⟩ := hu
  rcases (branchUop hb).cases with ho | ⟨ho, hp⟩ | ⟨ho, -⟩
  · simp [robEntryOf, ho, folds] at hn
  · simp [robEntryOf, ho, hp, folds]
  · unfold folds at hf
    simp only [Bool.or_eq_true, beq_iff_eq] at hf
    rcases hf with (hf | hf) | hf <;> rw [hf] at ho <;> cases ho

theorem OutcomeInv.step (h : OutcomeInv owner s) (hi : s.RobInv) (hin : s.InflightInv)
    (hds : s.DsInv) (hboot : s.rState = .flushForHalt → s.rDsDone = false) (hq : s.DqDecoded)
    (ha : AnswersInflight s i) (hport : PortAnswers owner i) :
    OutcomeInv (nextOwner owner s i) (s.step i) := by
  have hp := hi.ptrs
  constructor
  · intro p hf
    rcases inflight_step hf with (⟨h1, hfold, rfl⟩ | ⟨h2, hfold, rfl⟩) | ⟨hf, -⟩
    · obtain ⟨f, hd⟩ := hq _ (tUop_mem h1)
      rw [isBr_tail hp h1, nextOwner_tail hp h1]
      exact ⟨rfl, f, hd, hfold⟩
    · obtain ⟨f, hd⟩ := hq _ (tUop2_mem hp.toDqPtrs h2)
      rw [isBr_nextTail h2, nextOwner_nextTail h2]
      exact ⟨rfl, f, hd, hfold⟩
    · have hs : s.rState ≠ .rat := fun hs => by
        rw [hin.rat hs p] at hf
        cases hf
      rw [isBr_of_inRob hp hs (hin.inRob p hf), nextOwner_of_inRob hp (hin.inRob p hf)]
      exact h.inflight p hf
  · intro hlow p hc hb hn
    have hs : s.rState ≠ .rat := fun hs => by
      have hclr : (s.ctl i).tClrRob = true := by rw [ctl_tClrRob, decide_eq_true hs]
      change s.nRobComplete i p = true at hc
      rw [nRobComplete, hclr] at hc
      cases hc
    have hd := hds.low_of_step hboot hs hlow
    obtain ⟨ha1, ha2, ha3⟩ := ha hd
    obtain ⟨hv, rfl⟩ | ⟨hv, rfl, hfa, htb⟩ | ⟨hv, rfl, hfa, htb⟩ | ⟨hun, he⟩ :=
      entry_step (i := i) hs p
    · have hf := ha3 hv
      rw [isBr_of_inRob hp hs (hin.inRob _ hf), (h.inflight _ hf).1, hport.mem hv] at hb
      cases hb
    · have hf := ha2 hv
      obtain ⟨hbr, f, hd, hfold⟩ := h.inflight _ hf
      rw [isBr_of_inRob hp hs (hin.inRob _ hf), hbr] at hb
      obtain ⟨c, a, b, ht, hm⟩ := hport.two hv hb
      obtain ⟨hboth, hres⟩ := executed_branch ⟨f, hd⟩ hb hfold
      rw [Port2.alu_eq_eval c _ a b hboth] at ht hm
      rw [nextOwner_of_inRob hp (hin.inRob _ hf), htb, ht]
      exact hres c a b (hm.symm.trans (hfa.symm.trans hn))
    · have hf := ha1 hv
      obtain ⟨hbr, f, hd, hfold⟩ := h.inflight _ hf
      rw [isBr_of_inRob hp hs (hin.inRob _ hf), hbr] at hb
      obtain ⟨c, a, b, ht, hm⟩ := hport.one hv hb
      obtain ⟨hboth, hres⟩ := executed_branch ⟨f, hd⟩ hb hfold
      rw [Port1.alu_eq_eval c _ a b hboth] at ht hm
      rw [nextOwner_of_inRob hp (hin.inRob _ hf), htb, ht]
      have hm' := hm.symm.trans (hfa.symm.trans hn)
      rw [Bool.or_eq_false_iff] at hm'
      exact hres c a b hm'.1
    · rcases complete_step hun.1 hun.2.1 hun.2.2 hc with
        ⟨h1, rfl, hfold⟩ | ⟨h2, rfl, hfold⟩ | ⟨hn1, hn2, hc⟩
      · rw [isBr_tail hp h1] at hb
        rw [writeIf_apply, if_neg, h1, writeIf_true, Function.update_self, tRobTail, h1] at he
        · rw [nextOwner_tail hp h1, he]
          rw [he] at hn
          exact folded_branch (hq _ (tUop_mem h1)) hb hfold hn
        · rintro ⟨-, hx⟩
          exact hp.nextTail_ne hx.symm
      · rw [isBr_nextTail h2] at hb
        rw [h2, writeIf_true, Function.update_self, tRobNextTail, h2] at he
        rw [nextOwner_nextTail h2, he]
        rw [he] at hn
        exact folded_branch (hq _ (tUop2_mem hp.toDqPtrs h2)) hb hfold hn
      · rw [writeIf_apply, if_neg hn2, writeIf_apply, if_neg hn1] at he
        rw [he] at hb hn ⊢
        have hown : nextOwner owner s i p = owner p := by
          rw [nextOwner, writeIf_apply, if_neg hn2, writeIf_apply, if_neg hn1]
        rw [hown]
        exact h.outcome hd p hc hb hn

theorem init_outcomeInv (rob : RobPtr → RobEntry) (bob : BitVec 2 → BobEntry)
    (dq : BitVec 2 → Uop) : OutcomeInv owner (init rob bob dq) :=
  ⟨nofun, nofun⟩

/-! ### Where branches can be -/

/-- Branches are in the ROB in ACTIVE and while it drains; before a serializing uop, while that
waits and while the machine is halted there are none, and none when ACTIVE begins. -/
structure BranchStates (s : Core) : Prop where
  serialHead : Serial s.rState → ∃ u us, dqView s = u :: us ∧ u.serializingOp = true
  noBranch : s.rState ≠ .active → ¬Drains s.rState → s.rState ≠ .archFault → s.branchSlots = []
  asking : s.rState = .active → s.rRestartValid = true → s.branchSlots = []

theorem tUop_of_dqView {u : Uop} {us : List Uop} (h : dqView s = u :: us) : s.tUop = u := by
  have hne : s.rDqHeadPtr ≠ s.rDqTailPtr := fun he => by
    rw [dqView, he, contents_self] at h
    cases h
  rw [dqView, contents_pop _ hne] at h
  exact (List.cons.inj h).1

theorem branchEnters_eq_none (h : s.BranchStates) (hq : s.DqDecoded) (hs : s.rState ≠ .active) :
    s.branchEnters i = none := by
  rcases s.branchEnters_cases i with ⟨h2, -, -, -⟩ | ⟨-, h1, he⟩ | ⟨-, -, he⟩
  · exact absurd (tAllocTwo_tAlloc h2).2.1 hs
  · have hser : Serial s.rState := by
      have ha := h1
      rw [ctl_tAlloc] at ha
      cases hst : s.rState <;> simp only [hst] at ha <;>
        first | exact absurd ha Bool.false_ne_true | exact absurd hst hs | simp [Serial]
    obtain ⟨u, us, hd, hz⟩ := h.serialHead hser
    obtain ⟨f, hf⟩ := hq _ (tUop_mem h1)
    have hb : s.tUop.isBr = false := by
      by_contra hb
      rw [Bool.not_eq_false, hf] at hb
      have hno := (branchUop hb).serializingOp
      rw [← hf, tUop_of_dqView hd, hz] at hno
      cases hno
    rw [he, hb]
    rfl
  · exact he

theorem branchSlots_entering (h : s.BranchStates) (hi : s.RobInv) (hq : s.DqDecoded)
    (hm : s.MonitorEntry i) (hs : s.rState ≠ .active) (hf : s.rState ≠ .archFault)
    (hn : (s.ctl i).nState = .active ∨ ¬Drains s.rState) : (s.step i).branchSlots = [] := by
  by_cases hr : s.rState = .rat
  · have hc : (s.ctl i).tClrRob = true := by rw [ctl_tClrRob, decide_eq_true hr]
    have h1 : (s.step i).rRobHeadPtr = 0 := if_pos hc
    have h2 : (s.step i).rRobTailPtr = 0 := if_pos hc
    refine branchSlots_of_empty ?_
    rw [tRobEmpty, h1, h2]
    rfl
  · have hd : ¬Drains s.rState := by
      rcases hn with hn | hd
      · intro hd
        rcases (drainsMove (i := i) hd).2.2 with hq | ⟨hq, -⟩
        · rw [hn] at hq
          rcases hq with hq | hq <;> cases hq
        · exact hr hq
      · exact hd
    rw [branchSlots_step hi.ptrs hr (hi.retires hm), h.noBranch hs hd hf,
      branchEnters_eq_none h hq hs]
    simp

theorem BranchStates.step (h : s.BranchStates) (hi : s.RobInv) (hq : s.DqDecoded)
    (hf : s.rState ≠ .archFault) (hm : s.MonitorEntry i) : (s.step i).BranchStates := by
  constructor
  · intro hser
    obtain ⟨hfrom, ha, -⟩ := ctl_serial hser
    have hclr : s.clrDq i = false :=
      hfrom.elim clrDq_of_serial fun hs => clrDq_of_active hs.1
    have hhead : ∃ u us, dqView s = u :: us ∧ u.serializingOp = true := by
      rcases hfrom with hs | ⟨-, -, hd, hz⟩
      · exact h.serialHead hs
      · rw [tDqEmpty, beq_eq_false_iff_ne] at hd
        exact ⟨s.tUop, _, contents_pop _ hd.symm, hz⟩
    obtain ⟨u, us, hd, hz⟩ := hhead
    refine ⟨u, us ++ s.decoded i, ?_, hz⟩
    rw [dqView_step hi.ptrs.toDqPtrs hclr, ha, hd]
    rfl
  · intro hna hnd hnf
    change (s.ctl i).nState ≠ .active at hna
    change ¬Drains (s.ctl i).nState at hnd
    change (s.ctl i).nState ≠ .archFault at hnf
    by_cases hs : s.rState = .active
    · cases activeMove (i := i) hs with
      | stay hn _ => exact absurd hn hna
      | drain hn _ _ _ => exact absurd (.inl hn) hnd
      | fault hn _ _ _ _ => exact absurd hn hnf
      | serial hn _ ha he _ _ =>
          have hr : s.rState ≠ .rat := by
            rw [hs]
            decide
          have henter : s.branchEnters i = none := by
            have h2 : (s.ctl i).tAllocTwo = false := by
              by_contra h2
              rw [(tAllocTwo_tAlloc (Bool.not_eq_false _ |>.mp h2)).1] at ha
              cases ha
            rw [branchEnters, h2, ha]
            rfl
          rw [branchSlots_step hi.ptrs hr (hi.retires hm), branchSlots_of_empty he, henter]
          simp
    · refine branchSlots_entering h hi hq hm hs hf (.inr fun hd => ?_)
      rcases (drainsMove (i := i) hd).2.2 with hd' | ⟨-, -, hn, -⟩
      · exact hnd hd'
      · exact hna hn
  · intro hn hv
    change (s.ctl i).nState = .active at hn
    change (s.ctl i).nRestartValid = true at hv
    by_cases hs : s.rState = .active
    · cases activeMove (i := i) hs with
      | stay _ hr =>
          rw [hr] at hv
          cases hv
      | drain hn' _ _ _ | fault hn' _ _ _ _ =>
          rw [hn'] at hn
          cases hn
      | serial hn' _ _ _ _ _ =>
          rcases hn' with hn' | hn' <;> rw [hn'] at hn <;> cases hn
    · exact branchSlots_entering h hi hq hm hs hf (.inl hn)

theorem init_branchStates (rob : RobPtr → RobEntry) (bob : BitVec 2 → BobEntry)
    (dq : BitVec 2 → Uop) : (init rob bob dq).BranchStates :=
  ⟨nofun, fun _ _ _ => branchSlots_of_empty rfl, fun _ _ => branchSlots_of_empty rfl⟩

/-! ### The branch that retires -/

theorem branchSlots_head (he : s.tRobEmpty = false) :
    s.branchSlots = (branchAt (idx s.rRobHeadPtr) s.tRobHead).toList ++
      (contents (fun p => branchAt p (s.rRob p)) (s.rRobHeadPtr + 1)
        s.rRobTailPtr).reduceOption := by
  rw [tRobEmpty, beq_eq_false_iff_ne] at he
  have hpop : slotView branchAt s = branchAt (idx s.rRobHeadPtr) s.tRobHead ::
      contents (fun p => branchAt p (s.rRob p)) (s.rRobHeadPtr + 1) s.rRobTailPtr :=
    contents_pop _ he
  rw [branchSlots, hpop]
  cases branchAt (idx s.rRobHeadPtr) s.tRobHead <;> simp

theorem branchSlots_nextHead (hp : s.Ptrs) (hb : s.tRobHead.isBr = false)
    (he : s.tRobEmpty = false) (hn : s.tRobNextEmpty = false) :
    ∃ l, s.branchSlots = (branchAt (idx s.rRobNextHeadPtr) s.tRobNextHead).toList ++ l := by
  rw [tRobNextEmpty, beq_eq_false_iff_ne, hp.robNextHead] at hn
  have hhead : branchAt (idx s.rRobHeadPtr) s.tRobHead = none := by
    rw [branchAt, hb]
    rfl
  refine ⟨(contents (fun p => branchAt p (s.rRob p)) (s.rRobHeadPtr + 1 + 1)
    s.rRobTailPtr).reduceOption, ?_⟩
  rw [branchSlots_head he, hhead, contents_pop _ hn, ← hp.robNextHead]
  change (branchAt (idx s.rRobNextHeadPtr) s.tRobNextHead :: _).reduceOption = _
  cases branchAt (idx s.rRobNextHeadPtr) s.tRobNextHead <;> rfl

/-- A mispredicted head retires with a request to restart. -/
theorem tRetire_faulted (hs : s.rState = .active) (h : (s.ctl i).tRetire = true)
    (hf : s.tRobHead.faulted = true) : (s.ctl i).nRestartValid = true := by
  have ha := tRetire_noArchFault hs h
  rw [ctl_of_active hs, activeCtl_tRetire] at h
  simp only [Bool.and_eq_true, Bool.not_eq_true'] at h
  rw [ctl_of_active hs, activeCtl, if_neg (by rw [h.1.1]; exact Bool.false_ne_true), if_pos h.1.2,
    canRetireCtl, if_pos hf]
  exact (faultCtl_move.2 ha).2.1

/-- **At most one branch retires in a cycle of ACTIVE**, the oldest, and if it is mispredicted a
restart is asked for at once. -/
theorem retired_branch (hs : s.rState = .active) (hp : s.Ptrs) :
    (s.branchLeaves i = false ∧ (s.retired i).filter RobEntry.isBr = []) ∨
      (s.branchLeaves i = true ∧ ∃ p l, s.branchSlots = p :: l ∧
        (s.retired i).filter RobEntry.isBr = [s.rRob p] ∧ s.rRobComplete p = true ∧
        (s.rRob p).isBr = true ∧
        ((s.rRob p).faulted = true → (s.ctl i).nRestartValid = true)) := by
  have hw : s.rState ≠ .writeCause := by
    rw [hs]
    decide
  have hcomplete := fun n hn => (leaving_complete (i := i) hw hp (n := n) hn).2
  by_cases h : (s.ctl i).tRetire = true
  · have he := (tRetire_active (by rw [hs]; simp [RenameState]) h).2
    by_cases h2 : (s.ctl i).tRetireTwo = true
    · obtain ⟨-, hb, -, hf, -⟩ := tRetireTwo_spec h2
      have hn := (tRetireTwo_tRetire h2).2
      have hleave : s.branchLeaves i = s.tRobNextHead.isBr := by
        rw [branchLeaves, hb, Bool.and_false, Bool.false_or, h2, Bool.true_and]
      have hret : (s.retired i).filter RobEntry.isBr =
          if s.tRobNextHead.isBr then [s.tRobNextHead] else [] := by
        rw [retired, if_pos h, if_pos h2]
        cases hb2 : s.tRobNextHead.isBr <;> simp [hb, hb2]
      rw [hleave, hret]
      cases hb2 : s.tRobNextHead.isBr
      · exact .inl ⟨rfl, rfl⟩
      · obtain ⟨l, hl⟩ := branchSlots_nextHead hp hb he hn
        rw [branchAt, hb2] at hl
        refine .inr ⟨rfl, _, l, hl, rfl, ?_, hb2, fun hfa => ?_⟩
        · have hslot : slot s.rRobHeadPtr 1 = idx s.rRobNextHeadPtr := by
            rw [hp.robNextHead]
            rfl
          rw [← hslot]
          refine hcomplete 1 ?_
          rw [nLeaving, h, Bool.true_or, if_pos rfl, if_pos h2]
          omega
        · change s.tRobNextHead.faulted = true at hfa
          rw [hf] at hfa
          cases hfa
    · have hleave : s.branchLeaves i = s.tRobHead.isBr := by
        rw [branchLeaves, h, Bool.true_or, Bool.true_and, Bool.eq_false_iff.mpr h2, Bool.false_and,
          Bool.or_false]
      have hret : (s.retired i).filter RobEntry.isBr =
          if s.tRobHead.isBr then [s.tRobHead] else [] := by
        rw [retired, if_pos h, if_neg h2]
        cases hb : s.tRobHead.isBr <;> simp [hb]
      rw [hleave, hret]
      cases hb : s.tRobHead.isBr
      · exact .inl ⟨rfl, rfl⟩
      · have hl := branchSlots_head he
        rw [branchAt, hb] at hl
        refine .inr ⟨rfl, _, _, hl, rfl, ?_, hb, fun hfa => tRetire_faulted hs h hfa⟩
        rw [← slot_zero s.rRobHeadPtr]
        refine hcomplete 0 ?_
        rw [nLeaving, h, Bool.true_or, if_pos rfl, if_neg h2]
        omega
  · have h2 : (s.ctl i).tRetireTwo = false := by
      by_contra h2
      exact h (tRetireTwo_tRetire (Bool.not_eq_false _ |>.mp h2)).1
    have hb : (s.ctl i).tBumpRobHead = false := by
      by_contra hb
      exact h (tBumpRobHead_tRetire (by rw [hs]; decide) (Bool.not_eq_false _ |>.mp hb))
    refine .inl ⟨?_, ?_⟩
    · rw [branchLeaves, Bool.eq_false_iff.mpr h, hb, h2]
      rfl
    · rw [retired, if_neg h, h2]
      rfl

theorem retired_none (h : s.BranchStates) (hm : s.MonitorEntry i) (hs : s.rState ≠ .active) :
    (s.retired i).filter RobEntry.isBr = [] := by
  have h2 : (s.ctl i).tRetireTwo = false := by
    by_contra h2
    exact hs (tRetireTwo_spec (Bool.not_eq_false _ |>.mp h2)).1
  rw [retired, h2]
  by_cases hr : (s.ctl i).tRetire = true
  · have hw : s.rState = .waitForMonitor := by
      have hr' := hr
      rw [ctl_tRetire] at hr'
      cases hst : s.rState <;> simp only [hst] at hr' <;>
        first | exact absurd hr' Bool.false_ne_true | exact absurd hst hs | rfl
    have hno := h.noBranch hs (by rw [hw]; simp [Drains]) (by rw [hw]; decide)
    rw [branchSlots_head (hm hw hr)] at hno
    have hb : s.tRobHead.isBr = false := by
      by_contra hb
      rw [branchAt, if_pos (Bool.not_eq_false _ |>.mp hb)] at hno
      cases hno
    simp [hr, hb]
  · simp [hr]

end Core
end Rv32Core
