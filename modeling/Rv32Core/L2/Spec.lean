import Rv32Core.L2.System

/-! # What one cycle of the second-level cache can do

`Move` lists every kind of cycle with its guard and the complete outputs of the state machine.
The invariants of the cache are proved by cases over it and never unfold the state machine. -/

namespace Rv32Core
namespace L2

variable (s : L2) (i : L2In)

/-- A flush is pending in this cycle, `n_flush_req`. -/
def flushes : Bool := s.rFlushReq || s.tL2FlushReq i

/-- The last set. -/
def atLast : Bool := decide (s.rIdx = 16383)

/-- The states that wait for main memory. -/
def Waiting : Prop :=
  s.rState = .dirtyStore ∨ s.rState = .cleanReload ∨ s.rState = .flushStore

/-- A granted request has not met its line yet. -/
def serving : Bool :=
  match s.rState with
  | .checkValidAndTag | .dirtyStore | .storeTurnaround | .cleanReload | .waitCleanReload => true
  | _ => false

/-- The outputs of a cycle that ends the flush of set `r_idx`. -/
def nextSet (c : L2Ctl) : L2Ctl :=
  { c with
    tIdx := s.rIdx + 1
    nState := if s.atLast then .idle else .flushWait
    nFlushComplete := s.atLast
    nFlushReq := !s.atLast && c.nFlushReq }

theorem flushNext_eq (c : L2Ctl) (h : c.nFlushComplete = false) :
    s.flushNext c = s.nextSet c := by
  unfold flushNext nextSet atLast
  by_cases hl : s.rIdx = 16383
  · simp only [hl, decide_true, Bool.not_true, Bool.false_and, if_true]
  · simp only [if_neg hl, decide_eq_false hl, Bool.not_false, Bool.true_and, Bool.false_eq_true,
      if_false, h]

theorem grantL1d_eq (c : L2Ctl) (h : c.nL1dRspValid = false) :
    L2.grantL1d i c =
      { c with
        nLastGnt := true
        tIdx := l2IdxOf i.l1dAddr
        nTag := l2TagOf i.l1dAddr
        nBank := bankOf i.l1dAddr
        nAddr := blockOf i.l1dAddr
        nSaveaddr := blockOf i.l1dAddr
        nStoreData := i.l1MemReqStoreData
        nOpcode := i.l1dOpcode
        nL1dReq := false
        nL1dRspValid := i.l1dOpcode == .sw } := by
  unfold grantL1d
  by_cases ho : i.l1dOpcode = .sw
  · rw [if_pos ho, ho]
    rfl
  · rw [if_neg ho, beq_false_of_ne ho, ← h]

/-- **The kinds of cycle**, each with its guard and all outputs of the state machine. -/
inductive Move : Prop
  | walk (hs : s.rState = .initialise)
      (hc : s.ctl i =
        { s.dfltCtl i with
          tWrValid := true, tWrDirty := true, tWrTag := true, tWrD := fun _ => true
          tIdx := s.rIdx + 1
          nState := if s.atLast then .idle else .initialise
          nFlushComplete := s.atLast })
  | rest (hs : s.rState = .idle) (hf : s.flushes i = false) (hd : s.wL1dReq i = false)
      (hi : s.wL1iReq i = false)
      (hc : s.ctl i = { s.dfltCtl i with tIdx := 0, nOpcode := .lw })
  | flush (hs : s.rState = .idle) (hf : s.flushes i = true)
      (hc : s.ctl i = { s.dfltCtl i with tIdx := 0, nOpcode := .lw, nState := .flushWait })
  | grantL1i (hs : s.rState = .idle) (hf : s.flushes i = false) (hg : s.gntL1i i = true)
      (hc : s.ctl i =
        { s.dfltCtl i with
          nLastGnt := false
          tIdx := l2IdxOf i.l1iAddr
          nTag := l2TagOf i.l1iAddr
          nBank := bankOf i.l1iAddr
          nAddr := blockOf i.l1iAddr
          nSaveaddr := blockOf i.l1iAddr
          nOpcode := .lw
          nL1iReq := false
          nReqAck := true
          nState := .checkValidAndTag })
  | grantL1d (hs : s.rState = .idle) (hf : s.flushes i = false) (hd : s.wL1dReq i = true)
      (hg : s.gntL1i i = false)
      (hc : s.ctl i =
        { s.dfltCtl i with
          nLastGnt := true
          tIdx := l2IdxOf i.l1dAddr
          nTag := l2TagOf i.l1dAddr
          nBank := bankOf i.l1dAddr
          nAddr := blockOf i.l1dAddr
          nSaveaddr := blockOf i.l1dAddr
          nStoreData := i.l1MemReqStoreData
          nOpcode := i.l1dOpcode
          nL1dReq := false
          nL1dRspValid := i.l1dOpcode == .sw
          nReqAck := true
          nState := .checkValidAndTag })
  | hitLoad (hs : s.rState = .checkValidAndTag) (hh : s.wHit = true) (ho : s.rOpcode = .lw)
      (hc : s.ctl i =
        { s.dfltCtl i with
          nReload := false
          nRspData := s.wD s.rBank
          nState := .idle
          nL1dRspValid := s.rLastGnt
          nL1iRspValid := !s.rLastGnt })
  | hitStore (hs : s.rState = .checkValidAndTag) (hh : s.wHit = true) (ho : s.rOpcode = .sw)
      (hc : s.ctl i =
        { s.dfltCtl i with
          nReload := false
          tWrDirty := true
          tDirty := true
          nState := .waitStoreIdle
          tD := Function.update (s.dfltCtl i).tD s.rBank s.rStoreData
          tWrD := Function.update (s.dfltCtl i).tWrD s.rBank true })
  | hitOther (hs : s.rState = .checkValidAndTag) (hh : s.wHit = true)
      (ho : s.rOpcode ≠ .lw ∧ s.rOpcode ≠ .sw)
      (hc : s.ctl i = { s.dfltCtl i with nReload := false })
  | missDirty (hs : s.rState = .checkValidAndTag) (hh : s.wHit = false) (hd : s.wDirty = true)
      (hc : s.ctl i =
        { s.dfltCtl i with
          nMemReqStoreData := Block.ofBanks s.wD
          nAddr := blockAddr s.wTag s.rIdx
          nMemOpcode := .sw
          nMemReq := true
          nState := .dirtyStore })
  | missClean (hs : s.rState = .checkValidAndTag) (hh : s.wHit = false) (hd : s.wDirty = false)
      (hc : s.ctl i =
        { s.dfltCtl i with
          nReload := true, nState := .cleanReload, nMemOpcode := .lw, nMemReq := true })
  | wait (hw : s.Waiting) (hm : i.memRspValid = false) (hc : s.ctl i = s.dfltCtl i)
  | wroteBack (hs : s.rState = .dirtyStore) (hm : i.memRspValid = true)
      (hc : s.ctl i =
        { s.dfltCtl i with
          nAddr := s.rSaveaddr, nMemOpcode := .lw, nState := .storeTurnaround, nMemReq := false })
  | turn (hs : s.rState = .storeTurnaround)
      (hc : s.ctl i =
        { s.dfltCtl i with nState := .cleanReload, nReload := true, nMemReq := true })
  | loaded (hs : s.rState = .cleanReload) (hm : i.memRspValid = true)
      (hc : s.ctl i =
        { s.dfltCtl i with
          nMemReq := false
          tValid := true
          tWrValid := true
          tWrTag := true
          tWrD := fun _ => true
          nState := .waitCleanReload })
  | settle (hs : s.rState = .waitCleanReload)
      (hc : s.ctl i = { s.dfltCtl i with nState := .checkValidAndTag })
  | written (hs : s.rState = .waitStoreIdle)
      (hc : s.ctl i = { s.dfltCtl i with nState := .idle })
  | drop (hs : s.rState = .flushWait)
      (hc : s.ctl i =
        { s.dfltCtl i with nState := .flushTriage, tWrValid := true, tWrDirty := true })
  | triageDirty (hs : s.rState = .flushTriage) (hd : s.wNeedWb = true)
      (hc : s.ctl i =
        { s.dfltCtl i with
          nMemReqStoreData := Block.ofBanks s.wD
          nAddr := blockAddr s.wTag s.rIdx
          nMemOpcode := .sw
          nMemReq := true
          nState := .flushStore })
  | triageClean (hs : s.rState = .flushTriage) (hd : s.wNeedWb = false)
      (hc : s.ctl i = s.nextSet (s.dfltCtl i))
  | flushed (hs : s.rState = .flushStore) (hm : i.memRspValid = true)
      (hc : s.ctl i = s.nextSet { s.dfltCtl i with nMemReq := false })

theorem ctl_of_idle (hs : s.rState = .idle) :
    s.ctl i =
      if s.flushes i = true then
        { s.dfltCtl i with tIdx := 0, nOpcode := .lw, nState := .flushWait }
      else if (s.wL1dReq i || s.wL1iReq i) = true then
        { (if s.gntL1i i = true then L2.grantL1i i { s.dfltCtl i with tIdx := 0, nOpcode := .lw }
            else L2.grantL1d i { s.dfltCtl i with tIdx := 0, nOpcode := .lw }) with
          nReqAck := true, nState := .checkValidAndTag }
      else { s.dfltCtl i with tIdx := 0, nOpcode := .lw } := by
  rw [ctl, hs]
  rfl

theorem move_of_idle (hs : s.rState = .idle) : s.Move i := by
  have h0 := s.ctl_of_idle i hs
  cases hf : s.flushes i with
  | true => exact .flush hs hf (by rw [h0, if_pos hf])
  | false =>
      rw [if_neg (by rw [hf]; exact Bool.false_ne_true)] at h0
      cases hg : s.gntL1i i with
      | true =>
          have hi : s.wL1iReq i = true := by
            rw [gntL1i, Bool.and_eq_true] at hg
            exact hg.1
          refine .grantL1i hs hf hg ?_
          rw [h0, hi, Bool.or_true, if_pos rfl, if_pos hg]
          rfl
      | false =>
          cases hd : s.wL1dReq i with
          | true =>
              refine .grantL1d hs hf hd hg ?_
              rw [h0, hd, Bool.true_or, if_pos rfl, if_neg (by rw [hg]; exact Bool.false_ne_true),
                grantL1d_eq i _ rfl]
          | false =>
              have hi : s.wL1iReq i = false := by simpa [gntL1i, hd] using hg
              refine .rest hs hf hd hi ?_
              rw [h0, hd, hi]
              rfl

theorem move_of_check (hs : s.rState = .checkValidAndTag) : s.Move i := by
  have h0 : s.ctl i = s.checkCtl i := by rw [ctl, hs]
  cases hh : s.wHit with
  | true =>
      rw [checkCtl, if_pos hh, hitCtl] at h0
      by_cases hl : s.rOpcode = .lw
      · refine .hitLoad hs hh hl ?_
        rw [h0, hl]
        cases s.rLastGnt <;> rfl
      · by_cases hw : s.rOpcode = .sw
        · exact .hitStore hs hh hw (by rw [h0, hw])
        · refine .hitOther hs hh ⟨hl, hw⟩ ?_
          rw [h0]
          split
          · exact absurd ‹_› hl
          · exact absurd ‹_› hw
          · rfl
  | false =>
      rw [checkCtl, hh, if_neg Bool.false_ne_true, missCtl] at h0
      cases hd : s.wDirty with
      | true => exact .missDirty hs hh hd (by rw [h0, hd]; rfl)
      | false => exact .missClean hs hh hd (by rw [h0, hd]; rfl)

/-- **Every cycle is one of them.** -/
theorem move : s.Move i := by
  cases hs : s.rState with
  | initialise =>
      refine .walk hs ?_
      rw [ctl, hs, atLast]
      show s.initialiseCtl i = _
      unfold initialiseCtl
      by_cases hl : s.rIdx = 16383
      · rw [if_pos hl, decide_eq_true hl, if_pos rfl]
      · rw [if_neg hl, decide_eq_false hl, if_neg Bool.false_ne_true, ← hs]
        rfl
  | idle => exact s.move_of_idle i hs
  | checkValidAndTag => exact s.move_of_check i hs
  | dirtyStore =>
      have h0 : s.ctl i = s.dirtyStoreCtl i := by rw [ctl, hs]
      cases hm : i.memRspValid with
      | true => exact .wroteBack hs hm (by rw [h0, dirtyStoreCtl, hm]; rfl)
      | false => exact .wait (.inl hs) hm (by rw [h0, dirtyStoreCtl, hm]; rfl)
  | cleanReload =>
      have h0 : s.ctl i = s.cleanReloadCtl i := by rw [ctl, hs]
      cases hm : i.memRspValid with
      | true => exact .loaded hs hm (by rw [h0, cleanReloadCtl, hm]; rfl)
      | false => exact .wait (.inr (.inl hs)) hm (by rw [h0, cleanReloadCtl, hm]; rfl)
  | storeTurnaround => exact .turn hs (by rw [ctl, hs])
  | waitCleanReload => exact .settle hs (by rw [ctl, hs])
  | waitStoreIdle => exact .written hs (by rw [ctl, hs])
  | flushWait => exact .drop hs (by rw [ctl, hs])
  | flushTriage =>
      have h0 : s.ctl i = s.flushTriageCtl i := by rw [ctl, hs]
      cases hd : s.wNeedWb with
      | true => exact .triageDirty hs hd (by rw [h0, flushTriageCtl, hd]; rfl)
      | false =>
          refine .triageClean hs hd ?_
          rw [h0, flushTriageCtl, hd, if_neg Bool.false_ne_true]
          exact s.flushNext_eq _ rfl
  | flushStore =>
      have h0 : s.ctl i = s.flushStoreCtl i := by rw [ctl, hs]
      cases hm : i.memRspValid with
      | true =>
          refine .flushed hs hm ?_
          rw [h0, flushStoreCtl, hm, if_pos rfl]
          exact s.flushNext_eq _ rfl
      | false => exact .wait (.inr (.inr hs)) hm (by rw [h0, flushStoreCtl, hm]; rfl)

end L2
end Rv32Core
