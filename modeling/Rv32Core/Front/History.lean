import Rv32Core.Core.Outcome
import Rv32Core.Front.Protocol
import Rv32Core.L1i.Classes
import Rv32Core.Lib.Bits

/-! # The global branch history

The instruction cache shifts the predicted direction of every branch it fetches into
`r_spec_gbl_hist` and the direction of every branch that retires into `r_arch_gbl_hist`; an
acknowledged restart copies the second over the first.

The speculative history is what was reported followed by what was predicted since
(`global_history`), except in one window: a branch that is reported with another direction than the
predicted one stays in it as predicted until the restart that the core asks for at the same time is
granted. -/

namespace Rv32Core

open RingBuffer Bits Rv32Core.Core

/-- The predicted directions of the branches among fetched instructions. -/
def predictions (l : List InsnFetch) : List Bool :=
  (l.filter fun f => (decodeRiscv f).isBr).map InsnFetch.pred

/-- The predicted directions of the branches among uops. -/
def uopPredictions (l : List Uop) : List Bool := (l.filter Uop.isBr).map Uop.brPred

/-- What the global history is compared with. -/
structure History where
  /-- What was pushed and allocated since the latest acknowledged restart. -/
  since : Since
  /-- The uop that each slot of the ROB was allocated for. -/
  owner : RobPtr → Uop
  /-- The directions of the branches retired and reported so far, oldest first. -/
  reported : List Bool
  /-- The direction of a branch that retired in the cycle before. -/
  onWay : List Bool
  /-- How many branches were reported since the latest acknowledged restart. -/
  done : ℕ
  /-- One of them had another direction than the predicted one. -/
  stale : Bool

/-- The predicted directions of the branches fetched since the latest acknowledged restart and not
yet reported. -/
def History.pending (o : History) : List Bool := (predictions o.since.pushed).drop o.done

def History.next (o : History) (s : Front) (i : FrontIn) : History where
  since := o.since.next s i
  owner := nextOwner o.owner s.core (s.coreIn i)
  reported := o.reported ++ o.onWay
  onWay := ((s.core.retired (s.coreIn i)).filter RobEntry.isBr).map RobEntry.takeBr
  done := if s.restarts i then 0 else o.done + o.onWay.length
  stale := !s.restarts i && (o.stale || !o.onWay.isPrefixOf o.pending)

/-- Nothing fetched, nothing retired. -/
def History.start : History := ⟨⟨[], []⟩, fun _ => Uop.zero, [], [], 0, false⟩

theorem isBr_iff_predecode (f : InsnFetch) : (decodeRiscv f).isBr = true ↔ predecode f.data ≠ 0 := by
  constructor
  · intro h
    unfold predecode
    cases branchUop h with
    | branch hop _ =>
        rw [if_pos hop]
        decide
    | jalr hop _ =>
        rw [hop]
        dsimp only
        split_ifs <;> first | decide | contradiction
    | jal hop _ =>
        rw [hop]
        dsimp only
        split_ifs <;> first | decide | contradiction
  · intro h
    unfold predecode at h
    dsimp only at h
    by_cases h63 : opcodeField f.data = 0x63
    · exact (BranchUop.branch h63 (by simp [decodeRiscv, h63])).isBr
    by_cases h67 : opcodeField f.data = 0x67
    · exact (BranchUop.jalr h67 (by simp [decodeRiscv, h67])).isBr
    by_cases h6f : opcodeField f.data = 0x6f
    · exact (BranchUop.jal h6f (by simp [decodeRiscv, h6f])).isBr
    rw [if_neg h63, if_neg h67, if_neg h6f] at h
    exact absurd rfl h

theorem isBr_of_plain {f : InsnFetch} (h : predecode f.data = 0) : (decodeRiscv f).isBr = false := by
  by_contra hb
  exact (isBr_iff_predecode f).mp (Bool.not_eq_false _ |>.mp hb) h

theorem brPred_eq {f : InsnFetch} (h : (decodeRiscv f).isBr = true)
    (hp : predecode f.data ≠ 1 → f.pred = true) : (decodeRiscv f).brPred = f.pred := by
  cases branchUop h with
  | branch _ hd =>
      rw [hd]
      rfl
  | jalr hop hd =>
      rw [hd, hp]
      · rfl
      · unfold predecode
        rw [hop]
        dsimp only
        split_ifs <;> first | decide | contradiction
  | jal hop hd =>
      rw [hd, hp]
      · rfl
      · unfold predecode
        rw [hop]
        dsimp only
        split_ifs <;> first | decide | contradiction

theorem predictions_append (l l' : List InsnFetch) :
    predictions (l ++ l') = predictions l ++ predictions l' := by
  rw [predictions, List.filter_append, List.map_append]
  rfl

theorem predictions_cons (f : InsnFetch) (l : List InsnFetch) : predictions (f :: l) =
    (if (decodeRiscv f).isBr then [f.pred] else []) ++ predictions l := by
  unfold predictions
  cases hb : (decodeRiscv f).isBr <;> simp [hb]

theorem predictions_plain {l : List InsnFetch} (h : ∀ f ∈ l, predecode f.data = 0) :
    predictions l = [] := by
  rw [predictions, List.map_eq_nil_iff, List.filter_eq_nil_iff]
  intro f hf
  rw [isBr_of_plain (h f hf)]
  exact Bool.false_ne_true

theorem uopPredictions_append (l l' : List Uop) :
    uopPredictions (l ++ l') = uopPredictions l ++ uopPredictions l' := by
  rw [uopPredictions, List.filter_append, List.map_append]
  rfl

/-- The prediction of a branch travels with its uop. -/
theorem uopPredictions_decoded {l : List InsnFetch}
    (h : ∀ f ∈ l, (decodeRiscv f).isBr = true → (decodeRiscv f).brPred = f.pred) :
    uopPredictions (l.map decodeRiscv) = predictions l := by
  induction l with
  | nil => rfl
  | cons f l ih =>
      have hl := ih fun g hg => h g (List.mem_cons_of_mem _ hg)
      have hf := h f (List.mem_cons_self ..)
      unfold uopPredictions predictions at hl ⊢
      cases hb : (decodeRiscv f).isBr
      · simp [hb, hl]
      · simp [hb, hl, hf hb]

namespace L1i

variable {s : L1i} {i : L1iIn}

theorem jumps_of_class (h0 : s.tPd ≠ 0) (h1 : s.tPd ≠ 1) (h6 : s.tPd ≤ 6) : s.jumps = true := by
  unfold jumps
  revert h0 h1 h6
  generalize s.tPd = c
  revert c
  cases s.rPhtOut.getLsbD 1 <;> decide

theorem predecode_le (w : Word) : predecode w ≤ 6 := by
  unfold predecode
  dsimp only
  split_ifs <;> decide

/-- **Fetch shifts in the prediction of every branch it pushes**: at most one, the first. -/
theorem specHist_step (hc : s.ClassesOk) (hk : (s.ctl i).nRestartAck = false) {l : List Bool}
    (hl : s.rSpecGblHist = lastBits 16 l) :
    (s.step i).rSpecGblHist = lastBits 16 (l ++ predictions (s.pushed i)) := by
  have hstep : (s.step i).rSpecGblHist = if (s.ctl i).tUpdateSpecHist then
      s.rSpecGblHist.extractLsb' 0 15 ++ BitVec.ofBool (s.ctl i).tTakeBr else s.rSpecGblHist := by
    change s.nSpecGblHist i = _
    rw [nSpecGblHist, hk]
    rfl
  rcases s.silent_or_delivers i with h | ⟨n, h⟩
  · rw [hstep, h.hist, pushed_of_silent h, if_neg Bool.false_ne_true, hl]
    change _ = lastBits 16 (l ++ [])
    rw [List.append_nil]
  · obtain ⟨k, hk, hpd, hplain⟩ := hc.pushed h
    have hiff := isBr_iff_predecode (s.tInsn i)
    rw [hpd] at hiff
    rw [hk, hstep, h.hist.1, predictions_cons, predictions_plain (l := k) hplain, List.append_nil]
    by_cases h0 : s.tPd = 0
    · rw [if_neg (fun hb => hiff.mp hb h0), if_neg (fun hb => bne_iff_ne.mp hb h0), List.append_nil,
        hl]
    · rw [if_pos (hiff.mpr h0), if_pos (bne_iff_ne.mpr h0), hl, lastBits_concat]
      rfl

/-- The uop of a pushed branch carries the direction that was shifted in. -/
theorem pushed_brPred (hc : s.ClassesOk) {f : InsnFetch} (hf : f ∈ s.pushed i)
    (hb : (decodeRiscv f).isBr = true) : (decodeRiscv f).brPred = f.pred := by
  rcases s.silent_or_delivers i with h | ⟨n, h⟩
  · rw [pushed_of_silent h] at hf
    cases hf
  · obtain ⟨k, hk, hpd, hplain⟩ := hc.pushed h
    rw [hk] at hf
    rcases List.mem_cons.mp hf with rfl | hf
    · refine brPred_eq hb fun h1 => ?_
      have h0 := (isBr_iff_predecode _).mp hb
      have h6 := predecode_le (s.tInsn i).data
      rw [hpd] at h0 h1 h6
      exact h.hist.2.1.trans (jumps_of_class h0 h1 h6)
    · rw [isBr_of_plain (hplain f hf)] at hb
      cases hb

theorem archHist_step {l : List Bool} (hl : s.rArchGblHist = lastBits 16 l) :
    s.nArchGblHist i = lastBits 16 (l ++ if i.branchPcValid then [i.tookBranch] else []) := by
  unfold nArchGblHist
  cases i.branchPcValid
  · rw [if_neg Bool.false_ne_true, if_neg Bool.false_ne_true, List.append_nil, hl]
  · rw [if_pos rfl, if_pos rfl, hl, lastBits_concat]

end L1i

/-! ### Retirement -/

namespace Core

variable {s : Core} {i : CoreIn} {owner : RobPtr → Uop}

theorem branchPort_step :
    ((s.retired i).filter RobEntry.isBr).map RobEntry.takeBr =
      if (s.step i).rBranchValid then [(s.step i).rTookBranch] else [] := by
  change _ = if (s.ctl i).tRetire && (s.reported i).isBr then
    [(s.ctl i).tRetire && (s.reported i).takeBr] else []
  unfold retired reported
  cases h2 : (s.ctl i).tRetireTwo
  · cases h : (s.ctl i).tRetire
    · rfl
    · cases hb : s.tRobHead.isBr <;> simp [hb]
  · obtain ⟨h, -⟩ := tRetireTwo_tRetire h2
    have hb := (tRetireTwo_spec h2).2.1
    rw [h]
    cases hb2 : s.tRobNextHead.isBr <;> simp [hb, hb2]

theorem inRob_of_branchSlots {p : RobPtr} (h : p ∈ s.branchSlots) : s.InRob p := by
  unfold branchSlots at h
  simp only [List.reduceOption_mem_iff, slotView, mem_contents] at h
  obtain ⟨n, hn, he⟩ := h
  refine ⟨n, hn, ?_⟩
  unfold branchAt at he
  split_ifs at he
  exact Option.some_inj.mp he

theorem owner_branchSlots {l : List RobPtr} (hp : s.Ptrs) (hl : ∀ p ∈ l, p ∈ s.branchSlots) :
    l.map (fun p => (nextOwner owner s i p).brPred) = l.map fun p => (owner p).brPred := by
  refine List.map_congr_left fun p hm => ?_
  rw [nextOwner_of_inRob hp (inRob_of_branchSlots (hl p hm))]

end Core

namespace Front

variable {s : Front} {i : FrontIn} {o : History}

theorem uopPredictions_allocated (hp : s.core.Ptrs) :
    uopPredictions (s.allocatedUops i) = (s.core.branchEnters (s.coreIn i)).toList.map fun p =>
      (nextOwner o.owner s.core (s.coreIn i) p).brPred := by
  unfold allocatedUops uopPredictions
  rcases s.core.branchEnters_cases (s.coreIn i) with
    ⟨h2, h1, hb, he⟩ | ⟨h2, h1, he⟩ | ⟨h2, h1, he⟩
  · rw [he]
    cases hb2 : s.core.tUop2.isBr
    · simp [h1, h2, hb, hb2]
    · simp [h1, h2, hb, hb2, nextOwner_nextTail h2]
  · rw [he]
    cases hb : s.core.tUop.isBr
    · simp [h1, h2, hb]
    · simp [h1, h2, hb, nextOwner_tail hp h1]
  · rw [he]
    simp [h1]

/-! ### The invariant -/

/-- The predictions of the branches allocated and not yet reported: that of the branch on its way,
and in ACTIVE those of the ROB. -/
structure Outstanding (s : Front) (o : History) : Prop where
  le : o.done ≤ (uopPredictions o.since.allocated).length
  split : ∃ last rest, (uopPredictions o.since.allocated).drop o.done = last ++ rest ∧
    last.length = o.onWay.length ∧ (last ≠ o.onWay → s.core.rRestartValid = true) ∧
    (s.core.rState = .active → rest = s.core.branchSlots.map fun p => (o.owner p).brPred)

structure HistoryInv (s : Front) (o : History) : Prop where
  linked : Linked s o.since
  rob : s.core.RobInv
  inflight : s.core.InflightInv
  ds : s.core.DsInv
  boot : s.core.rState = .flushForHalt → s.core.rDsDone = false
  outcome : OutcomeInv o.owner s.core
  states : s.core.BranchStates
  dq : s.core.DqDecoded
  classes : s.l1i.ClassesOk
  port : o.onWay = if s.core.rBranchValid then [s.core.rTookBranch] else []
  agree : ∀ f ∈ o.since.pushed, (decodeRiscv f).isBr = true → (decodeRiscv f).brPred = f.pred
  outstanding : Outstanding s o
  arch : s.l1i.rArchGblHist = lastBits 16 o.reported
  spec : o.stale = false → s.l1i.rSpecGblHist = lastBits 16 (o.reported ++ o.pending)
  stale : o.stale = true → s.l1i.rRestartReq = true

/-- What the surroundings promise: no architectural fault is taken, the uop of a monitor call is
allocated, the execution unit and the data cache answer what is in flight, completely and as the
ports compute it, and the lower level answers when it was asked. -/
structure Promises (s : Front) (o : History) (i : FrontIn) : Prop where
  noFault : s.core.rState ≠ .archFault
  monitor : s.core.MonitorEntry (s.coreIn i)
  complete : CompletesFully i
  inflight : s.core.AnswersInflight (s.coreIn i)
  ports : PortAnswers o.owner (s.coreIn i)
  memory : i.memRspValid = true → s.l1i.rState = .injectReload

theorem HistoryInv.allocated_first (h : HistoryInv s o) :
    uopPredictions o.since.allocated <+: predictions o.since.pushed := by
  rw [← uopPredictions_decoded h.agree]
  exact (h.linked.ordered.filter _).map _

/-- A branch whose direction is not the predicted one is reported with a request to restart. -/
theorem HistoryInv.mispredicted (h : HistoryInv s o) (hne : ¬o.onWay <+: o.pending) :
    s.core.rRestartValid = true := by
  obtain ⟨last, rest, hd, -, hq, -⟩ := h.outstanding.split
  refine hq fun he => hne ?_
  have hpre := h.allocated_first.drop o.done
  rw [hd, he] at hpre
  exact (List.prefix_append _ _).trans hpre

/-- A restart is granted when no branch retires and none is in the ROB afterwards. -/
theorem HistoryInv.granted (h : HistoryInv s o) (he : s.Promises o i)
    (hk : s.restarts i = true) : (o.next s i).onWay = [] ∧
      ((s.step i).core.rState = .active → (s.step i).core.branchSlots = []) := by
  have hp := h.rob.ptrs
  by_cases hs : s.core.rState = .active
  · have hv : s.core.rRestartValid = true := by
      rcases (h.linked.of_active hs).1 with hn | hv
      · rw [hn.restarts] at hk
        cases hk
      · exact hv
    have hempty := h.states.asking hs hv
    have hr : s.core.rState ≠ .rat := by
      rw [hs]
      decide
    have hnone : s.core.branchEnters (s.coreIn i) = none := by
      rcases s.core.branchEnters_cases (s.coreIn i) with ⟨-, ha, -⟩ | ⟨-, ha, -⟩ | ⟨-, -, hn⟩
      · rw [(h.linked.noReq_of_alloc ha).now] at hv
        cases hv
      · rw [(h.linked.noReq_of_alloc ha).now] at hv
        cases hv
      · exact hn
    constructor
    · rcases retired_branch (i := s.coreIn i) hs hp with ⟨-, hret⟩ | ⟨-, p, l, hl, -⟩
      · exact congrArg (List.map RobEntry.takeBr) hret
      · rw [hempty] at hl
        cases hl
    · intro _
      change (s.core.step (s.coreIn i)).branchSlots = []
      rw [branchSlots_step hp hr (h.rob.retires he.monitor), hempty, hnone]
      simp
  · exact ⟨congrArg (List.map RobEntry.takeBr) (retired_none h.states he.monitor hs), fun hn =>
      branchSlots_entering h.states h.rob h.dq he.monitor hs he.noFault (.inl hn)⟩

theorem HistoryInv.outstanding_step (h : HistoryInv s o) (he : s.Promises o i) :
    Outstanding (s.step i) (o.next s i) := by
  have hp := h.rob.ptrs
  cases hk : s.restarts i
  · obtain ⟨last, rest, hd, hlen, -, hact⟩ := h.outstanding.split
    have hle := h.outstanding.le
    have hnext : uopPredictions (o.next s i).since.allocated =
        uopPredictions o.since.allocated ++ uopPredictions (s.allocatedUops i) := by
      change uopPredictions (o.since.next s i).allocated = _
      rw [next_of_none hk, uopPredictions_append]
    have hdone : (o.next s i).done = o.done + last.length := by
      rw [hlen]
      exact if_neg (by rw [hk]; exact Bool.false_ne_true)
    have hsum : o.done + last.length ≤ (uopPredictions o.since.allocated).length := by
      have := congrArg List.length hd
      rw [List.length_drop, List.length_append] at this
      omega
    have hrest : (uopPredictions (o.next s i).since.allocated).drop (o.next s i).done =
        rest ++ uopPredictions (s.allocatedUops i) := by
      rw [hnext, hdone, List.drop_append_of_le_length hsum, ← List.drop_drop, hd,
        List.drop_left]
    refine ⟨?_, ?_⟩
    · rw [hnext, hdone, List.length_append]
      omega
    rw [hrest]
    by_cases hs : s.core.rState = .active
    · have hr : s.core.rState ≠ .rat := by
        rw [hs]
        decide
      have hslots := branchSlots_step (i := s.coreIn i) hp hr (h.rob.retires he.monitor)
      rw [hact hs, uopPredictions_allocated (o := o) hp]
      rcases retired_branch (i := s.coreIn i) hs hp with
        ⟨hl, hret⟩ | ⟨hl, p, l, hp', hret, hc, hb, hf⟩
      · refine ⟨[], _, rfl, ?_, fun hne => absurd ?_ hne, fun _ => ?_⟩
        · exact (congrArg (fun l => (List.map RobEntry.takeBr l).length) hret).symm
        · exact (congrArg (List.map RobEntry.takeBr) hret).symm
        · change _ = (s.core.step (s.coreIn i)).branchSlots.map _
          rw [hslots, hl, if_neg Bool.false_ne_true, List.drop_zero, List.map_append]
          congr 1
          exact (owner_branchSlots hp fun _ hm => hm).symm
      · have hway : (o.next s i).onWay = [(s.core.rRob p).takeBr] :=
          congrArg (List.map RobEntry.takeBr) hret
        refine ⟨[(o.owner p).brPred], l.map (fun p => (o.owner p).brPred) ++
          (s.core.branchEnters (s.coreIn i)).toList.map (fun p => ((o.next s i).owner p).brPred),
          ?_, ?_, fun hne => ?_, fun _ => ?_⟩
        · rw [hp']
          rfl
        · rw [hway]
          rfl
        · refine hf ?_
          by_contra hn
          rw [hway, h.outcome.outcome (h.ds.active hs) p hc hb (Bool.not_eq_true _ |>.mp hn)] at hne
          exact hne rfl
        · change _ = (s.core.step (s.coreIn i)).branchSlots.map _
          rw [hslots, hl, if_pos rfl, hp', List.drop_succ_cons, List.drop_zero, List.map_append]
          congr 1
          refine (owner_branchSlots hp fun q hq => ?_).symm
          rw [hp']
          exact List.mem_cons_of_mem _ hq
    · have hway : (o.next s i).onWay = [] :=
        congrArg (List.map RobEntry.takeBr) (retired_none h.states he.monitor hs)
      refine ⟨[], rest ++ uopPredictions (s.allocatedUops i), rfl, ?_, ?_, fun hn => ?_⟩
      · rw [hway]
      · intro hne
        exact absurd hway.symm hne
      · have hal : (o.next s i).since.allocated = [] := h.linked.allocated_entering hs hn
        have hempty := branchSlots_entering (i := s.coreIn i) h.states h.rob h.dq he.monitor hs
          he.noFault (.inl hn)
        change _ = (s.core.step (s.coreIn i)).branchSlots.map _
        rw [← hrest, hal, hempty]
        exact List.drop_nil
  · obtain ⟨hway, hempty⟩ := h.granted he hk
    have hsince : (o.next s i).since.allocated = [] := by
      change (o.since.next s i).allocated = []
      rw [next_of_restarts hk]
    have hdone : (o.next s i).done = 0 := if_pos hk
    refine ⟨?_, [], [], ?_, ?_, ?_, ?_⟩
    · rw [hdone]
      exact Nat.zero_le _
    · rw [hsince, hdone]
      rfl
    · rw [hway]
    · intro hne
      exact absurd hway.symm hne
    · intro hs
      rw [hempty hs]
      rfl

theorem HistoryInv.pending_next (h : HistoryInv s o) (hk : s.restarts i = false) :
    (o.next s i).pending =
      o.pending.drop o.onWay.length ++ predictions (s.l1i.pushed (s.l1iIn i)) := by
  have hlen : o.done + o.onWay.length ≤ (predictions o.since.pushed).length := by
    obtain ⟨last, rest, hd, hl, -⟩ := h.outstanding.split
    have hle := h.outstanding.le
    have hsum := congrArg List.length hd
    have hpre := h.allocated_first.length_le
    rw [List.length_drop, List.length_append] at hsum
    omega
  have hpushed : (o.next s i).since.pushed = o.since.pushed ++ s.l1i.pushed (s.l1iIn i) := by
    change (o.since.next s i).pushed = _
    rw [next_of_none hk]
  have hdone : (o.next s i).done = o.done + o.onWay.length :=
    if_neg (by rw [hk]; exact Bool.false_ne_true)
  rw [History.pending, History.pending, hpushed, hdone, predictions_append,
    List.drop_append_of_le_length hlen, List.drop_drop]

theorem pending_restart (hk : s.restarts i = true) : (o.next s i).pending = [] := by
  have hpushed : (o.next s i).since.pushed = [] := by
    change (o.since.next s i).pushed = _
    rw [next_of_restarts hk]
  rw [History.pending, hpushed]
  exact List.drop_nil

/-- **A granted restart copies the history of everything reported.** -/
theorem HistoryInv.spec_restart (h : HistoryInv s o) (hk : s.restarts i = true) :
    (s.step i).l1i.rSpecGblHist = lastBits 16 (o.next s i).reported := by
  have hspec : (s.step i).l1i.rSpecGblHist = s.l1i.nArchGblHist (s.l1iIn i) := if_pos hk
  rw [hspec, L1i.archHist_step h.arch]
  change _ = lastBits 16 (o.reported ++ o.onWay)
  rw [h.port]
  rfl

/-- **Without a restart the speculative history grows by what is fetched.**  A branch reported
as it was predicted only moves from the pending to the reported ones. -/
theorem HistoryInv.spec_step (h : HistoryInv s o) (hk : s.restarts i = false)
    (hs : (o.next s i).stale = false) :
    (s.step i).l1i.rSpecGblHist = lastBits 16 ((o.next s i).reported ++ (o.next s i).pending) := by
  have hs' : (!s.restarts i && (o.stale || !o.onWay.isPrefixOf o.pending)) = false := hs
  rw [hk, Bool.not_false, Bool.true_and, Bool.or_eq_false_iff, Bool.not_eq_false',
    List.isPrefixOf_iff_prefix] at hs'
  obtain ⟨hfresh, rest, hrest⟩ := hs'
  have hstep : (s.step i).l1i.rSpecGblHist = _ := L1i.specHist_step h.classes hk (h.spec hfresh)
  rw [hstep, h.pending_next hk, ← hrest, List.drop_left]
  change _ = lastBits 16 (o.reported ++ o.onWay ++ _)
  simp only [List.append_assoc]

theorem HistoryInv.stale_step (h : HistoryInv s o) (hs : (o.next s i).stale = true) :
    (s.step i).l1i.rRestartReq = true := by
  have hs' : (!s.restarts i && (o.stale || !o.onWay.isPrefixOf o.pending)) = true := hs
  rw [Bool.and_eq_true, Bool.or_eq_true] at hs'
  obtain ⟨hk, hs'⟩ := hs'
  rw [step_rRestartReq, hk, Bool.and_true]
  refine anyRestartReq_of_or ?_
  rcases hs' with hs' | hs'
  · exact .inr (h.stale hs')
  · refine .inl (h.mispredicted fun hp => ?_)
    rw [List.isPrefixOf_iff_prefix.mpr hp] at hs'
    cases hs'

theorem HistoryInv.step (h : HistoryInv s o) (he : s.Promises o i) :
    HistoryInv (s.step i) (o.next s i) where
  linked := h.linked.step he.complete
  rob := h.rob.step he.noFault he.monitor
  inflight := h.inflight.step h.rob h.ds he.monitor he.inflight
  ds := h.ds.step
  boot := boot_step h.boot h.rob.noWrite.2
  outcome := h.outcome.step h.rob h.inflight h.ds h.boot h.dq he.inflight he.ports
  states := h.states.step h.rob h.dq he.noFault he.monitor
  dq := h.dq.step h.rob.ptrs.toDqPtrs
  classes := h.classes.step he.memory
  port := branchPort_step
  agree := by
    intro f hf hb
    change f ∈ (o.since.next s i).pushed at hf
    cases hk : s.restarts i
    · rw [next_of_none hk] at hf
      rcases List.mem_append.mp hf with hf | hf
      · exact h.agree f hf hb
      · exact L1i.pushed_brPred h.classes hf hb
    · rw [next_of_restarts hk] at hf
      cases hf
  outstanding := h.outstanding_step he
  arch := by
    change s.l1i.nArchGblHist (s.l1iIn i) = lastBits 16 (o.reported ++ o.onWay)
    rw [L1i.archHist_step h.arch, h.port]
    rfl
  spec hs := by
    cases hk : s.restarts i
    · exact h.spec_step hk hs
    · rw [pending_restart hk, List.append_nil]
      exact h.spec_restart hk
  stale := h.stale_step

theorem HistoryInv.init (rob : RobPtr → RobEntry) (bob : BitVec 2 → BobEntry) (dq : BitVec 2 → Uop)
    (p : L1iPowerUp) : HistoryInv ⟨Core.init rob bob dq, L1i.init p⟩ .start where
  linked := .init rob bob dq p
  rob := init_robInv rob bob dq
  inflight := init_inflightInv rob bob dq
  ds := init_dsInv rob bob dq
  boot _ := rfl
  outcome := init_outcomeInv rob bob dq
  states := init_branchStates rob bob dq
  dq := init_dqDecoded rob bob dq
  classes := .init p
  port := rfl
  agree f hf := by cases hf
  outstanding := ⟨Nat.zero_le _, [], [], rfl, rfl, fun h => absurd rfl h, fun h => by cases h⟩
  arch := rfl
  spec _ := rfl
  stale h := by cases h

end Front

/-- The execution unit and the data cache are silent. -/
def Calm (x : Front × History) (i : FrontIn) : Prop :=
  x.1.core.rState ≠ .archFault ∧ x.1.core.MonitorEntry (x.1.coreIn i) ∧
    (i.core.tCompleteValid1 = false ∧ i.core.tCompleteValid2 = false ∧
      i.core.coreMemRspValid = false) ∧
    (i.memRspValid = true → x.1.l1i.rState = .injectReload)

instance (x : Front × History) (i : FrontIn) : Decidable (Calm x i) := by
  unfold Calm
  infer_instance

end Rv32Core
