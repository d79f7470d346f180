import Rv32Core.L2.Spec

/-! # The second-level cache is a memory

`Phase` says, for each state of the state machine, where the request being served stands and what
the set it works on looks like; `logical` is the memory the cache presents: the lines seen through
the cache, with the store being served already done and the line being flushed still there.
Both are kept by every cycle, and `logical` is what the clients expect, `above`. -/

namespace Rv32Core

open WriteBack

namespace L2

variable (s : L2) (i : L2In)

/-! ### Requests and answers -/

/-- The request of the instruction side is granted. -/
def grantsL1i : Bool := decide (s.rState = .idle) && (!s.flushes i && s.gntL1i i)

/-- The request of the data side is granted. -/
def grantsL1d : Bool :=
  decide (s.rState = .idle) && (!s.flushes i && (s.wL1dReq i && !s.gntL1i i))

/-- The request being served meets its line. -/
def finishes : Bool := decide (s.rState = .checkValidAndTag) && s.wHit

/-- A load of the instruction side is being served. -/
def servesL1i : Bool := s.serving && !s.rLastGnt

/-- A load of the data side is being served; its stores are answered before. -/
def servesL1d : Bool := s.serving && (s.rLastGnt && s.rOpcode == .lw)

/-- A request is latched until it is granted. -/
theorem step_req : (s.step i).rL1iReq = (s.wL1iReq i && !s.grantsL1i i) ∧
    (s.step i).rL1dReq = (s.wL1dReq i && !s.grantsL1d i) := by
  show (s.ctl i).nL1iReq = _ ∧ (s.ctl i).nL1dReq = _
  unfold grantsL1i grantsL1d
  cases s.move i with
  | grantL1i hs hf hg hc => simp [hc, hs, hf, hg, dfltCtl, wL1dReq]
  | grantL1d hs hf hd hg hc => simp [hc, hs, hf, hg, hd, dfltCtl, wL1iReq]
  | rest hs hf hd hi hc =>
      obtain ⟨h1, h2⟩ := Bool.or_eq_false_iff.mp hi
      obtain ⟨h3, h4⟩ := Bool.or_eq_false_iff.mp hd
      simp [hc, dfltCtl, wL1iReq, wL1dReq, h1, h2, h3, h4]
  | wait hw hm hc =>
      rcases hw with hs | hs | hs <;> simp [hc, hs, dfltCtl, wL1iReq, wL1dReq]
  | _ => simp [*, dfltCtl, wL1iReq, wL1dReq, nextSet]

theorem step_rL1iReq : (s.step i).rL1iReq = (s.wL1iReq i && !s.grantsL1i i) := (s.step_req i).1

theorem step_rL1dReq : (s.step i).rL1dReq = (s.wL1dReq i && !s.grantsL1d i) := (s.step_req i).2

theorem step_rLastGnt :
    (s.step i).rLastGnt = (s.grantsL1d i || (s.rLastGnt && !s.grantsL1i i)) := by
  show (s.ctl i).nLastGnt = _
  unfold grantsL1i grantsL1d
  cases s.move i with
  | grantL1i hs hf hg hc => simp [hc, hs, hf, hg]
  | grantL1d hs hf hd hg hc => simp [hc, hs, hf, hg, hd]
  | rest hs hf hd hi hc => simp [hc, hs, hf, hd, hi, gntL1i, dfltCtl]
  | wait hw hm hc => rcases hw with hs | hs | hs <;> simp [hc, hs, dfltCtl]
  | _ => simp [*, dfltCtl, nextSet]

theorem step_rL1iRspValid : (s.step i).rL1iRspValid =
    (s.finishes && (s.rOpcode == .lw && !s.rLastGnt)) := by
  show (s.ctl i).nL1iRspValid = _
  unfold finishes
  cases s.move i with
  | hitLoad hs hh ho hc => simp [hc, hs, hh, ho]
  | hitOther hs hh ho hc => simp [hc, hs, hh, ho.1, dfltCtl]
  | wait hw hm hc => rcases hw with hs | hs | hs <;> simp [hc, hs, dfltCtl]
  | _ => simp [*, dfltCtl, nextSet]

theorem step_rL1dRspValid : (s.step i).rL1dRspValid =
    (s.finishes && (s.rOpcode == .lw && s.rLastGnt) ||
      s.grantsL1d i && i.l1dOpcode == .sw) := by
  show (s.ctl i).nL1dRspValid = _
  unfold finishes grantsL1d
  cases s.move i with
  | hitLoad hs hh ho hc => simp [hc, hs, hh, ho]
  | hitOther hs hh ho hc => simp [hc, hs, hh, ho.1, dfltCtl]
  | grantL1i hs hf hg hc => simp [hc, hs, hf, hg, dfltCtl]
  | grantL1d hs hf hd hg hc => simp [hc, hs, hf, hg, hd]
  | rest hs hf hd hi hc => simp [hc, hs, hf, hd, dfltCtl]
  | wait hw hm hc => rcases hw with hs | hs | hs <;> simp [hc, hs, dfltCtl]
  | _ => simp [*, dfltCtl, nextSet]

theorem step_serving (h : s.serving = true → s.rOpcode = .lw ∨ s.rOpcode = .sw) :
    (s.step i).serving = (s.grantsL1i i || s.grantsL1d i || (s.serving && !s.finishes)) := by
  have hst : (s.step i).rState = (s.ctl i).nState := rfl
  unfold finishes grantsL1i grantsL1d
  cases s.move i with
  | grantL1i hs hf hg hc => simp [serving, hst, hc, hs, hf, hg]
  | grantL1d hs hf hd hg hc => simp [serving, hst, hc, hs, hf, hg, hd]
  | rest hs hf hd hi hc => simp [serving, hst, hc, hs, hf, hd, hi, gntL1i, dfltCtl]
  | wait hw hm hc => rcases hw with hs | hs | hs <;> simp [serving, hst, hc, hs, dfltCtl]
  | hitOther hs hh ho hc =>
      rcases h (by rw [serving, hs]) with hl | hw
      · exact absurd hl ho.1
      · exact absurd hw ho.2
  | walk hs hc => cases hl : s.atLast <;> simp [serving, hst, hc, hs, hl]
  | triageClean hs hd hc => cases hl : s.atLast <;> simp [serving, hst, hc, hs, nextSet, hl]
  | flushed hs hd hc => cases hl : s.atLast <;> simp [serving, hst, hc, hs, nextSet, hl]
  | _ => simp [serving, *]

variable {s i}

theorem serving_of_finishes (h : s.finishes = true) : s.serving = true := by
  simp only [finishes, Bool.and_eq_true, decide_eq_true_eq] at h
  rw [serving, h.1]

theorem not_serving_of_grantsL1i (h : s.grantsL1i i = true) : s.serving = false := by
  simp only [grantsL1i, Bool.and_eq_true, decide_eq_true_eq] at h
  rw [serving, h.1]

theorem not_serving_of_grantsL1d (h : s.grantsL1d i = true) : s.serving = false := by
  simp only [grantsL1d, Bool.and_eq_true, decide_eq_true_eq] at h
  rw [serving, h.1]

/-- One grant at a time. -/
theorem not_grantsL1d_of_grantsL1i (h : s.grantsL1i i = true) : s.grantsL1d i = false := by
  simp only [grantsL1i, Bool.and_eq_true] at h
  simp [grantsL1d, h.2.2]

variable (s i)

/-- What identifies the request being served: tag, set, bank, operation, data. -/
def request : L2Tag × L2Idx × Bank × MemOp × Line :=
  (s.rTag, s.rIdx, s.rBank, s.rOpcode, s.rStoreData)

theorem step_request_l1i (h : s.grantsL1i i = true) : (s.step i).request =
    (l2TagOf i.l1iAddr, l2IdxOf i.l1iAddr, bankOf i.l1iAddr, .lw, s.rStoreData) := by
  simp only [grantsL1i, Bool.and_eq_true, decide_eq_true_eq, Bool.not_eq_true'] at h
  obtain ⟨hs, hf, hg⟩ := h
  cases s.move i with
  | grantL1i _ _ _ hc => simp [request, step, hc, dfltCtl]
  | wait hw hm hc => rcases hw with hs' | hs' | hs' <;> simp [hs] at hs'
  | _ => simp_all [gntL1i]

theorem step_request_l1d (h : s.grantsL1d i = true) : (s.step i).request =
    (l2TagOf i.l1dAddr, l2IdxOf i.l1dAddr, bankOf i.l1dAddr, i.l1dOpcode,
      i.l1MemReqStoreData) := by
  simp only [grantsL1d, Bool.and_eq_true, decide_eq_true_eq, Bool.not_eq_true'] at h
  obtain ⟨hs, hf, hd, hg⟩ := h
  cases s.move i with
  | grantL1d _ _ _ _ hc => simp [request, step, hc]
  | wait hw hm hc => rcases hw with hs' | hs' | hs' <;> simp [hs] at hs'
  | _ => simp_all

theorem step_request (h : s.serving = true) : (s.step i).request = s.request := by
  cases s.move i with
  | wait hw hm hc => simp [request, step, hc, dfltCtl]
  | walk hs | rest hs | flush hs | grantL1i hs | grantL1d hs | written hs | drop hs
  | triageDirty hs | triageClean hs | flushed hs => rw [serving, hs] at h; cases h
  | _ => simp [request, step, *, dfltCtl]

end L2

namespace L2Sys

variable (s : L2Sys) (i : L2In)

/-! ### The requests of the two sides -/

/-- Where the outstanding requests are, and that what is being served is what was asked for. -/
structure Sides : Prop where
  l1i : Handshake.Ok (s.l1i.isSome = true) (s.l2.rL1iReq = true) (s.l2.servesL1i = true)
    (s.l2.rL1iRspValid = true)
  l1d : Handshake.Ok (s.l1d.isSome = true) (s.l2.rL1dReq = true) (s.l2.servesL1d = true)
    (s.l2.rL1dRspValid = true)
  l1d_op : ∀ q, s.l1d = some q → q.op = .lw ∨ q.op = .sw
  op : s.l2.serving = true → s.l2.rOpcode = .lw ∨ (s.l2.rOpcode = .sw ∧ s.l2.rLastGnt = true)
  l1i_req : s.l2.servesL1i = true → ∀ a, s.l1i = some a →
    s.l2.rTag = l2TagOf a ∧ s.l2.rIdx = l2IdxOf a ∧ s.l2.rBank = bankOf a
  l1d_req : s.l2.servesL1d = true → ∀ q, s.l1d = some q →
    s.l2.rTag = l2TagOf q.addr ∧ s.l2.rIdx = l2IdxOf q.addr ∧ s.l2.rBank = bankOf q.addr ∧
      q.op = .lw

variable {s i}

theorem isSome_now {α : Type*} (req rsp : Bool) (a : α) (o : Option α) :
    (if req then some a else if rsp then none else o).isSome = true ↔
      req = true ∨ (o.isSome = true ∧ ¬rsp = true) := by
  cases req <;> cases rsp <;> simp

theorem nowL1i_isSome : (s.nowL1i i).isSome = true ↔
    i.l1iReq = true ∨ (s.l1i.isSome = true ∧ ¬s.l2.rL1iRspValid = true) := isSome_now ..

theorem nowL1d_isSome : (s.nowL1d i).isSome = true ↔
    i.l1dReq = true ∨ (s.l1d.isSome = true ∧ ¬s.l2.rL1dRspValid = true) := isSome_now ..

theorem idle_of_open {α : Type*} {rsp : Bool} {o : Option α} (h : (if rsp then none else o) = none) :
    ¬(o.isSome = true ∧ ¬rsp = true) := by
  rintro ⟨hs, hr⟩
  rw [if_neg hr] at h
  rw [h] at hs
  cases hs

theorem Env.l1i_idle (he : s.Env i) (h : i.l1iReq = true) :
    ¬(s.l1i.isSome = true ∧ ¬s.l2.rL1iRspValid = true) := idle_of_open (he.l1i_one h)

theorem Env.l1d_idle (he : s.Env i) (h : i.l1dReq = true) :
    ¬(s.l1d.isSome = true ∧ ¬s.l2.rL1dRspValid = true) := idle_of_open (he.l1d_one h)

theorem Sides.nowL1i_eq (h : s.Sides) (he : s.Env i) (hs : s.l2.servesL1i = true) :
    s.nowL1i i = s.l1i := by
  have hr : ¬s.l2.rL1iRspValid = true := fun hr => h.l1i.serving_answered ⟨hs, hr⟩
  have hq : ¬i.l1iReq = true := fun hq =>
    he.l1i_idle hq ⟨h.l1i.out_iff.mpr (.inr (.inl hs)), hr⟩
  rw [nowL1i, if_neg hq, openL1i, if_neg hr]

theorem Sides.nowL1d_eq (h : s.Sides) (he : s.Env i) (hs : s.l2.servesL1d = true) :
    s.nowL1d i = s.l1d := by
  have hr : ¬s.l2.rL1dRspValid = true := fun hr => h.l1d.serving_answered ⟨hs, hr⟩
  have hq : ¬i.l1dReq = true := fun hq =>
    he.l1d_idle hq ⟨h.l1d.out_iff.mpr (.inr (.inl hs)), hr⟩
  rw [nowL1d, if_neg hq, openL1d, if_neg hr]

theorem Sides.granted_l1i (h : s.Sides) (he : s.Env i) (hg : s.l2.grantsL1i i = true) :
    s.nowL1i i = some i.l1iAddr := by
  simp only [L2.grantsL1i, L2.gntL1i, Bool.and_eq_true] at hg
  obtain ⟨a, ha⟩ := Option.isSome_iff_exists.mp
    (nowL1i_isSome.mpr (h.l1i.now (Bool.or_eq_true_iff.mp hg.2.2.1)))
  rw [ha, he.l1i_held a ha]

theorem Sides.granted_l1d (h : s.Sides) (he : s.Env i) (hg : s.l2.grantsL1d i = true) :
    ∃ q, s.nowL1d i = some q ∧ i.l1dAddr = q.addr ∧ i.l1dOpcode = q.op ∧
      (q.op = .sw → i.l1MemReqStoreData = q.data) := by
  simp only [L2.grantsL1d, Bool.and_eq_true] at hg
  obtain ⟨q, hq⟩ := Option.isSome_iff_exists.mp
    (nowL1d_isSome.mpr (h.l1d.now (Bool.or_eq_true_iff.mp hg.2.2.1)))
  exact ⟨q, hq, he.l1d_held q hq⟩

theorem Sides.initial {s : L2Sys} (h : l2System.reset s) : s.Sides := by
  obtain ⟨⟨p, hp⟩, hi, hd, -⟩ := h
  have hsv : s.l2.serving = false := by rw [hp]; rfl
  refine ⟨?_, ?_, ?_, ?_, ?_, ?_⟩
  · rw [hi, hp]
    simpa [L2.servesL1i, L2.serving, L2.init] using Handshake.Ok.initial
  · rw [hd, hp]
    simpa [L2.servesL1d, L2.serving, L2.init] using Handshake.Ok.initial
  · intro q hq
    rw [hd] at hq
    cases hq
  · intro h
    rw [hsv] at h
    cases h
  · intro h
    rw [L2.servesL1i, hsv] at h
    cases h
  · intro h
    rw [L2.servesL1d, hsv] at h
    cases h

theorem Sides.step_servesL1i (h : s.Sides) : (s.l2.step i).servesL1i = true ↔
    (s.l2.servesL1i = true ∧ ¬s.l2.finishes = true) ∨ s.l2.grantsL1i i = true := by
  unfold L2.servesL1i
  rw [s.l2.step_serving i fun hs => (h.op hs).imp id (·.1), s.l2.step_rLastGnt i]
  cases hi : s.l2.grantsL1i i with
  | true => simp [L2.not_grantsL1d_of_grantsL1i hi]
  | false =>
      cases hd : s.l2.grantsL1d i with
      | true => simp [L2.not_serving_of_grantsL1d hd]
      | false => simp [and_right_comm]

theorem Sides.step_rL1iRspValid (h : s.Sides) : (s.l2.step i).rL1iRspValid = true ↔
    s.l2.servesL1i = true ∧ s.l2.finishes = true := by
  rw [s.l2.step_rL1iRspValid i, L2.servesL1i]
  simp only [Bool.and_eq_true, Bool.not_eq_true', beq_iff_eq]
  constructor
  · rintro ⟨hf, -, hl⟩
    exact ⟨⟨L2.serving_of_finishes hf, hl⟩, hf⟩
  · rintro ⟨⟨hs, hl⟩, hf⟩
    refine ⟨hf, ?_, hl⟩
    rcases h.op hs with ho | ⟨-, hl'⟩
    · exact ho
    · rw [hl] at hl'
      cases hl'

theorem Sides.nowL1d_op (h : s.Sides) (he : s.Env i) {q : L1dReq} (hq : s.nowL1d i = some q) :
    q.op = .lw ∨ q.op = .sw := by
  unfold nowL1d at hq
  by_cases hr : i.l1dReq = true
  · rw [if_pos hr] at hq
    obtain rfl := Option.some.inj hq
    exact he.l1d_op hr
  · rw [if_neg hr] at hq
    unfold openL1d at hq
    by_cases hv : s.l2.rL1dRspValid = true
    · rw [if_pos hv] at hq
      cases hq
    · rw [if_neg hv] at hq
      exact h.l1d_op q hq

theorem Sides.granted_l1d_op (h : s.Sides) (he : s.Env i) (hg : s.l2.grantsL1d i = true) :
    i.l1dOpcode = .lw ∨ i.l1dOpcode = .sw := by
  obtain ⟨q, hq, -, ho, -⟩ := h.granted_l1d he hg
  rw [ho]
  exact h.nowL1d_op he hq

theorem Sides.step_servesL1d (h : s.Sides) (he : s.Env i) :
    (s.l2.step i).servesL1d = true ↔ (s.l2.servesL1d = true ∧ ¬s.l2.finishes = true) ∨
      (s.l2.grantsL1d i = true ∧ ¬i.l1dOpcode = .sw) := by
  unfold L2.servesL1d
  rw [s.l2.step_serving i fun hs => (h.op hs).imp id (·.1), s.l2.step_rLastGnt i]
  cases hd : s.l2.grantsL1d i with
  | true =>
      have ho : (s.l2.step i).rOpcode = i.l1dOpcode :=
        congrArg (·.2.2.2.1) (s.l2.step_request_l1d i hd)
      rw [ho, L2.not_serving_of_grantsL1d hd]
      rcases h.granted_l1d_op he hd with hl | hw
      · simp [hl]
      · simp [hw]
  | false =>
      cases hi : s.l2.grantsL1i i with
      | true => simp [L2.not_serving_of_grantsL1i hi]
      | false =>
          cases hs : s.l2.serving with
          | true =>
              have ho : (s.l2.step i).rOpcode = s.l2.rOpcode :=
                congrArg (·.2.2.2.1) (s.l2.step_request i hs)
              rw [ho]
              simp [and_comm]
          | false => simp

theorem step_rL1dRspValid : (s.l2.step i).rL1dRspValid = true ↔
    (s.l2.servesL1d = true ∧ s.l2.finishes = true) ∨
      (s.l2.grantsL1d i = true ∧ i.l1dOpcode = .sw) := by
  rw [s.l2.step_rL1dRspValid i, L2.servesL1d]
  simp only [Bool.or_eq_true, Bool.and_eq_true, beq_iff_eq]
  refine or_congr_left ⟨?_, ?_⟩
  · rintro ⟨hf, ho, hl⟩
    exact ⟨⟨L2.serving_of_finishes hf, hl, ho⟩, hf⟩
  · rintro ⟨⟨-, hl, ho⟩, hf⟩
    exact ⟨hf, ho, hl⟩

theorem Sides.step_l1i (h : s.Sides) (he : s.Env i) : Handshake.Ok ((s.step i).l1i.isSome = true)
    ((s.step i).l2.rL1iReq = true) ((s.step i).l2.servesL1i = true)
    ((s.step i).l2.rL1iRspValid = true) := by
  refine Handshake.Ok.next (i.l1iReq = true) (s.l2.grantsL1i i = true) False
    (s.l2.finishes = true) h.l1i he.l1i_idle ?_ nowL1i_isSome ?_ ?_ ?_
  · intro hg
    simp only [L2.grantsL1i, L2.gntL1i, Bool.and_eq_true] at hg
    exact Bool.or_eq_true_iff.mp hg.2.2.1
  · show (s.l2.step i).rL1iReq = true ↔ _
    rw [s.l2.step_rL1iReq i, L2.wL1iReq]
    simp
  · show (s.l2.step i).servesL1i = true ↔ _
    rw [h.step_servesL1i, not_false_iff, and_true]
  · show (s.l2.step i).rL1iRspValid = true ↔ _
    rw [h.step_rL1iRspValid, and_false, or_false]

theorem Sides.step_l1d (h : s.Sides) (he : s.Env i) : Handshake.Ok ((s.step i).l1d.isSome = true)
    ((s.step i).l2.rL1dReq = true) ((s.step i).l2.servesL1d = true)
    ((s.step i).l2.rL1dRspValid = true) := by
  refine Handshake.Ok.next (i.l1dReq = true) (s.l2.grantsL1d i = true) (i.l1dOpcode = .sw)
    (s.l2.finishes = true) h.l1d he.l1d_idle ?_ nowL1d_isSome ?_ ?_ ?_
  · intro hg
    simp only [L2.grantsL1d, Bool.and_eq_true] at hg
    exact Bool.or_eq_true_iff.mp hg.2.2.1
  · show (s.l2.step i).rL1dReq = true ↔ _
    rw [s.l2.step_rL1dReq i, L2.wL1dReq]
    simp
  · exact h.step_servesL1d he
  · exact step_rL1dRspValid

theorem Sides.step (h : s.Sides) (he : s.Env i) : (s.step i).Sides := by
  refine ⟨h.step_l1i he, h.step_l1d he, fun q hq => h.nowL1d_op he hq, ?_, ?_, ?_⟩
  · intro hs
    have hs' : (s.l2.step i).serving = true := hs
    rw [s.l2.step_serving i fun hs => (h.op hs).imp id (·.1)] at hs'
    show (s.l2.step i).rOpcode = .lw ∨ ((s.l2.step i).rOpcode = .sw ∧ (s.l2.step i).rLastGnt = true)
    rw [s.l2.step_rLastGnt i]
    cases hd : s.l2.grantsL1d i with
    | true =>
        have ho : (s.l2.step i).rOpcode = i.l1dOpcode :=
          congrArg (·.2.2.2.1) (s.l2.step_request_l1d i hd)
        rw [ho, Bool.true_or, eq_self, and_true]
        exact h.granted_l1d_op he hd
    | false =>
        cases hi : s.l2.grantsL1i i with
        | true => exact .inl (congrArg (·.2.2.2.1) (s.l2.step_request_l1i i hi))
        | false =>
            simp only [hd, hi, Bool.false_or, Bool.and_eq_true] at hs'
            have ho : (s.l2.step i).rOpcode = s.l2.rOpcode :=
              congrArg (·.2.2.2.1) (s.l2.step_request i hs'.1)
            rw [ho, Bool.false_or, Bool.not_false, Bool.and_true]
            exact h.op hs'.1
  · intro hs a ha
    have ha' : s.nowL1i i = some a := ha
    rcases h.step_servesL1i.mp hs with ⟨hs', -⟩ | hg
    · have hsv : s.l2.serving = true := (Bool.and_eq_true_iff.mp hs').1
      have hr := s.l2.step_request i hsv
      rw [h.nowL1i_eq he hs'] at ha'
      obtain ⟨h1, h2, h3⟩ := h.l1i_req hs' a ha'
      exact ⟨(congrArg (·.1) hr).trans h1, (congrArg (·.2.1) hr).trans h2,
        (congrArg (·.2.2.1) hr).trans h3⟩
    · have hr := s.l2.step_request_l1i i hg
      rw [h.granted_l1i he hg] at ha'
      obtain rfl := Option.some.inj ha'
      exact ⟨congrArg (·.1) hr, congrArg (·.2.1) hr, congrArg (·.2.2.1) hr⟩
  · intro hs q hq
    have hq' : s.nowL1d i = some q := hq
    rcases (h.step_servesL1d he).mp hs with ⟨hs', -⟩ | ⟨hg, hno⟩
    · have hsv : s.l2.serving = true := (Bool.and_eq_true_iff.mp hs').1
      have hr := s.l2.step_request i hsv
      rw [h.nowL1d_eq he hs'] at hq'
      obtain ⟨h1, h2, h3, h4⟩ := h.l1d_req hs' q hq'
      exact ⟨(congrArg (·.1) hr).trans h1, (congrArg (·.2.1) hr).trans h2,
        (congrArg (·.2.2.1) hr).trans h3, h4⟩
    · have hr := s.l2.step_request_l1d i hg
      obtain ⟨q', hq'', ha, ho, -⟩ := h.granted_l1d he hg
      rw [hq''] at hq'
      obtain rfl := Option.some.inj hq'
      rw [ha] at hr
      refine ⟨congrArg (·.1) hr, congrArg (·.2.1) hr, congrArg (·.2.2.1) hr, ?_⟩
      rcases h.nowL1d_op he hq'' with hl | hw
      · exact hl
      · exact absurd (ho.trans hw) hno

end L2Sys
end Rv32Core
