import Rv32Core.L2.Transparent

/-! # Dirty bits

A set of the second-level cache is dirty when a store has hit it since it was filled or flushed.
The reload of CLEAN_RELOAD writes the valid bit, the tag and the data of its set, and leaves the
dirty bit as it is.  After a clean miss it is clear; after the write-back of a dirty line it is still
set, and the new line is dirty without a store.

An observer records the sets that stores have hit.  The dirty bits follow it exactly as long as no
reload ends in a dirty set. -/

namespace Rv32Core

open Clocked

/-- The sets that a store has hit: since their last fill or flush, and since their last fill. -/
structure Stored where
  since : L2Idx → Bool
  sinceFill : L2Idx → Bool

namespace L2

variable (s : L2) (i : L2In)

/-- A store of the data side hits the set `r_idx`. -/
def storeHits : Bool :=
  decide (s.rState = .checkValidAndTag) && (s.wHit && (s.rOpcode == .sw && s.rLastGnt))

/-- The set `r_idx` is filled from main memory. -/
def fills : Bool := decide (s.rState = .cleanReload) && i.memRspValid

/-- The set `r_idx` is filled while its dirty bit is set. -/
def dirtyReload : Bool := s.fills i && s.dirtyRam s.rIdx

/-- The record after a cycle. -/
def watchStores (t : Stored) (s : L2) (i : L2In) : Stored where
  since :=
    t.since
      |> writeIf s.storeHits s.rIdx true
      |> writeIf (s.fills i || decide (s.rState = .flushWait)) s.rIdx false
  sinceFill :=
    t.sinceFill
      |> writeIf s.storeHits s.rIdx true
      |> writeIf (s.fills i) s.rIdx false

/-- The second-level cache with the record of its stores. -/
def storedL2 : Machine (L2 × Stored) L2In :=
  l2Machine.observed ⟨fun _ => false, fun _ => false⟩ watchStores

/-- INITIALIZE has been at set `j`: it writes the set after `r_idx`. -/
def Initialised (j : L2Idx) : Prop :=
  s.rState = .initialise → 0 < j.toNat ∧ j.toNat ≤ s.rIdx.toNat

/-- What is asked of the dirty bits: a set is dirty only if a store has hit it since it was filled
or flushed, and only if it is valid; a line is written to main memory only if a store has hit it
since it was filled. -/
structure DirtyExact (s : L2) (t : Stored) : Prop where
  dirty : ∀ j, s.Initialised j → s.dirtyRam j = true → t.since j = true
  valid : ∀ j, s.Initialised j → s.validRam j = false → s.dirtyRam j = false
  write : s.rMemReq = true → s.rMemOpcode = .sw → t.sinceFill s.rIdx = true

/-! ### The invariant -/

variable {s i} {t : Stored}

/-- The part that no reload can break. -/
structure ControlInv (s : L2) : Prop where
  /-- Stores are requests of the data side. -/
  op : s.serving = true → s.rOpcode = .sw → s.rLastGnt = true
  /-- The registered reads show the set of the request. -/
  reads : s.rState = .checkValidAndTag → s.wDirty = s.dirtyRam s.rIdx ∧ s.wValid = s.validRam s.rIdx
  valid : ∀ j, s.Initialised j → s.validRam j = false → s.dirtyRam j = false
  turn : s.rState = .storeTurnaround → s.rMemOpcode = .lw
  memReq : s.rMemReq = true →
    (s.rMemOpcode = .sw ∧ (s.rState = .dirtyStore ∨ s.rState = .flushStore)) ∨
      (s.rMemOpcode = .lw ∧ s.rState = .cleanReload)

/-- The part about the record. -/
structure DirtyInv (s : L2) (t : Stored) : Prop where
  mono : ∀ j, t.since j = true → t.sinceFill j = true
  dirty : ∀ j, s.Initialised j → s.dirtyRam j = true → t.since j = true
  triage : s.rState = .flushTriage → s.wDirty = true → t.sinceFill s.rIdx = true
  store : s.rState = .dirtyStore ∨ s.rState = .flushStore → t.sinceFill s.rIdx = true

theorem ControlInv.init (p : L2PowerUp) : (L2.init p).ControlInv where
  op := fun h => (Bool.false_ne_true h).elim
  reads := fun h => by cases h
  valid := fun j hj => by
    obtain ⟨h0, hle⟩ := hj rfl
    exact absurd (lt_of_lt_of_le h0 hle) (lt_irrefl 0)
  turn := fun h => by cases h
  memReq := fun h => (Bool.false_ne_true h).elim

theorem step_validRam (s : L2) (i : L2In) (j : L2Idx) : (s.step i).validRam j =
    if (s.ctl i).tWrValid = true ∧ j = (s.ctl i).tIdx then (s.ctl i).tValid else s.validRam j :=
  writeIf_apply _ _ _ _ _

theorem step_dirtyRam (s : L2) (i : L2In) (j : L2Idx) : (s.step i).dirtyRam j =
    if (s.ctl i).tWrDirty = true ∧ j = (s.ctl i).tIdx then (s.ctl i).tDirty else s.dirtyRam j :=
  writeIf_apply _ _ _ _ _

theorem initialised_of_ne {j : L2Idx} (hs : s.rState ≠ .initialise) : s.Initialised j :=
  fun h => absurd h hs

theorem initialised_walk {j : L2Idx}
    (hst : (s.step i).rState = if s.atLast then .idle else .initialise)
    (hidx : (s.step i).rIdx = s.rIdx + 1) (hj : (s.step i).Initialised j) (hne : j ≠ s.rIdx + 1) :
    s.Initialised j := by
  intro _
  have hlt := s.rIdx.isLt
  have hjlt := j.isLt
  have hadd : (s.rIdx + 1).toNat = (s.rIdx.toNat + 1) % 16384 := rfl
  have hne' : j.toNat ≠ (s.rIdx + 1).toNat := fun h => hne (BitVec.eq_of_toNat_eq h)
  rw [hadd] at hne'
  by_cases hl : s.rIdx = 16383
  · have h16 : s.rIdx.toNat = 16383 := congrArg BitVec.toNat hl
    omega
  · have h16 : s.rIdx.toNat ≠ 16383 := fun h => hl (BitVec.eq_of_toNat_eq h)
    rw [Initialised, hst, hidx, atLast, decide_eq_false hl, hadd] at hj
    have := hj rfl
    omega

theorem ControlInv.step_valid (h : s.ControlInv) : ∀ j, (s.step i).Initialised j →
    (s.step i).validRam j = false → (s.step i).dirtyRam j = false := by
  intro j hj hv
  have hold (hs : s.rState ≠ .initialise) (h1 : (s.ctl i).tWrValid = false)
      (h2 : (s.ctl i).tWrDirty = false) : (s.step i).dirtyRam j = false := by
    rw [step_validRam, h1, if_neg (by simp)] at hv
    rw [step_dirtyRam, h2, if_neg (by simp)]
    exact h.valid j (initialised_of_ne hs) hv
  rw [step_validRam] at hv
  rw [step_dirtyRam]
  cases s.move i with
  | walk hs hc =>
      have hst : (s.step i).rState = _ := congrArg L2Ctl.nState hc
      have hidx : (s.step i).rIdx = _ := congrArg L2Ctl.tIdx hc
      by_cases hne : j = s.rIdx + 1
      · simp [hc, hne, dfltCtl]
      · have hinit := initialised_walk hst hidx hj hne
        simp only [hc, hne, and_false, if_false] at hv ⊢
        exact h.valid j hinit hv
  | hitStore hs hh ho hc =>
      by_cases hne : j = s.rIdx
      · have hvalid : s.validRam s.rIdx = true := by
          rw [← (h.reads hs).2]
          by_contra hw
          rw [wHit, if_neg hw] at hh
          cases hh
        simp [hc, hne, dfltCtl, hvalid] at hv
      · simp [hc, hne, dfltCtl] at hv ⊢
        exact h.valid j (initialised_of_ne (by simp [hs])) hv
  | loaded hs hm hc =>
      by_cases hne : j = s.rIdx
      · simp [hc, hne, dfltCtl] at hv
      · simp [hc, hne, dfltCtl] at hv ⊢
        exact h.valid j (initialised_of_ne (by simp [hs])) hv
  | drop hs hc =>
      by_cases hne : j = s.rIdx
      · simp [hc, hne, dfltCtl]
      · simp [hc, hne, dfltCtl] at hv ⊢
        exact h.valid j (initialised_of_ne (by simp [hs])) hv
  | wait hw hm hc =>
      rw [← step_dirtyRam]
      refine hold ?_ (by simp [hc, dfltCtl]) (by simp [hc, dfltCtl])
      rcases hw with hs | hs | hs <;> simp [hs]
  | _ =>
      rw [← step_dirtyRam]
      exact hold (by simp [*]) (by simp [*, dfltCtl, nextSet]) (by simp [*, dfltCtl, nextSet])

theorem ControlInv.step_op (h : s.ControlInv) : (s.step i).serving = true →
    (s.step i).rOpcode = .sw → (s.step i).rLastGnt = true := by
  intro hsv ho
  have hstate : (s.step i).rState = (s.ctl i).nState := rfl
  have hop : (s.step i).rOpcode = (s.ctl i).nOpcode := rfl
  have hgnt : (s.step i).rLastGnt = (s.ctl i).nLastGnt := rfl
  rw [serving, hstate] at hsv
  rw [hop] at ho
  rw [hgnt]
  cases s.move i with
  | wait hw hm hc =>
      simp only [hc, dfltCtl] at hsv ho ⊢
      exact h.op hsv ho
  | hitOther hs hh hl hc =>
      simp only [hc, dfltCtl] at ho
      exact absurd ho hl.2
  | walk hs hc | triageClean hs hd hc | flushed hs hm hc =>
      cases hl : s.atLast <;> simp [hc, nextSet, dfltCtl, hs, hl] at hsv
  | rest hs hf hd hi hc => simp [hc, dfltCtl, hs] at hsv
  | missDirty hs _ _ hc | missClean hs _ _ hc | wroteBack hs _ hc | turn hs hc | loaded hs _ hc
  | settle hs hc =>
      simp only [hc, dfltCtl] at ho ⊢
      exact h.op (by rw [serving, hs]) ho
  | _ => simp_all

theorem ControlInv.step_reads : (s.step i).rState = .checkValidAndTag →
    (s.step i).wDirty = (s.step i).dirtyRam (s.step i).rIdx ∧
      (s.step i).wValid = (s.step i).validRam (s.step i).rIdx := by
  intro hst
  have hnew (h1 : (s.ctl i).tWrValid = false) (h2 : (s.ctl i).tWrDirty = false) :
      (s.step i).wDirty = (s.step i).dirtyRam (s.step i).rIdx ∧
        (s.step i).wValid = (s.step i).validRam (s.step i).rIdx := by
    rw [step_validRam, step_dirtyRam, h1, h2, if_neg (by simp), if_neg (by simp)]
    exact ⟨rfl, rfl⟩
  have hstate : (s.step i).rState = (s.ctl i).nState := rfl
  rw [hstate] at hst
  cases s.move i with
  | walk hs hc =>
      rw [hc] at hst
      cases hl : s.atLast <;> simp [hl] at hst
  | drop hs hc | loaded hs hm hc | hitStore hs hh ho hc =>
      rw [hc] at hst
      cases hst
  | _ => exact hnew (by simp [*, dfltCtl, nextSet]) (by simp [*, dfltCtl, nextSet])

theorem ControlInv.step_turn : (s.step i).rState = .storeTurnaround →
    (s.step i).rMemOpcode = .lw := by
  intro hst
  have hstate : (s.step i).rState = (s.ctl i).nState := rfl
  have hop : (s.step i).rMemOpcode = (s.ctl i).nMemOpcode := rfl
  rw [hstate] at hst
  rw [hop]
  cases s.move i with
  | wroteBack hs hm hc => rw [hc]
  | wait hw hm hc =>
      rw [hc] at hst
      change s.rState = .storeTurnaround at hst
      rcases hw with hs | hs | hs <;> rw [hs] at hst <;> cases hst
  | walk hs hc | triageClean hs hd hc | flushed hs hm hc =>
      cases hl : s.atLast <;> simp [hc, nextSet, hl] at hst
  | rest hs _ _ _ hc | hitOther hs _ _ hc => simp [hc, dfltCtl, hs] at hst
  | _ => simp_all

theorem ControlInv.step_memReq (h : s.ControlInv) : (s.step i).rMemReq = true →
    ((s.step i).rMemOpcode = .sw ∧
      ((s.step i).rState = .dirtyStore ∨ (s.step i).rState = .flushStore)) ∨
    ((s.step i).rMemOpcode = .lw ∧ (s.step i).rState = .cleanReload) := by
  intro hr
  have hstate : (s.step i).rState = (s.ctl i).nState := rfl
  have hop : (s.step i).rMemOpcode = (s.ctl i).nMemOpcode := rfl
  have hreq : (s.step i).rMemReq = (s.ctl i).nMemReq := rfl
  rw [hreq] at hr
  rw [hop, hstate]
  -- a request that stays on the port stays in its state
  have hkeep (h1 : (s.ctl i).nMemReq = s.rMemReq) (hs : s.rState ≠ .dirtyStore)
      (hs' : s.rState ≠ .flushStore) (hs'' : s.rState ≠ .cleanReload) : False := by
    rw [h1] at hr
    rcases h.memReq hr with ⟨-, h2 | h2⟩ | ⟨-, h2⟩
    · exact hs h2
    · exact hs' h2
    · exact hs'' h2
  cases s.move i with
  | missDirty hs hh hd hc => simp [hc]
  | missClean hs hh hd hc => simp [hc]
  | triageDirty hs hd hc => simp [hc]
  | turn hs hc => simp [hc, dfltCtl, h.turn hs]
  | wait hw hm hc =>
      rw [hc] at hr ⊢
      exact h.memReq hr
  | wroteBack hs hm hc | loaded hs hm hc | flushed hs hm hc => simp [hc, nextSet] at hr
  | _ => exact (hkeep (by simp [*, dfltCtl, nextSet]) (by simp [*]) (by simp [*]) (by simp [*])).elim

theorem ControlInv.step (h : s.ControlInv) : (s.step i).ControlInv :=
  ⟨h.step_op, ControlInv.step_reads, h.step_valid, ControlInv.step_turn, h.step_memReq⟩

/-! ### The record -/

theorem watchStores_since (t : Stored) (s : L2) (i : L2In) (j : L2Idx) :
    (watchStores t s i).since j =
      if (s.fills i || decide (s.rState = .flushWait)) = true ∧ j = s.rIdx then false
      else if s.storeHits = true ∧ j = s.rIdx then true else t.since j := by
  rw [← writeIf_apply s.storeHits, ← writeIf_apply]
  rfl

theorem watchStores_sinceFill (t : Stored) (s : L2) (i : L2In) (j : L2Idx) :
    (watchStores t s i).sinceFill j =
      if s.fills i = true ∧ j = s.rIdx then false
      else if s.storeHits = true ∧ j = s.rIdx then true else t.sinceFill j := by
  rw [← writeIf_apply s.storeHits, ← writeIf_apply]
  rfl

/-- Only a fill or a flush takes a set out of the record. -/
theorem since_next {j : L2Idx} (hf : s.fills i = false) (hs : s.rState ≠ .flushWait)
    (h : t.since j = true) : (watchStores t s i).since j = true := by
  rw [watchStores_since, hf, decide_eq_false hs, if_neg (by simp), h]
  split_ifs <;> rfl

theorem sinceFill_next {j : L2Idx} (hf : s.fills i = false) (h : t.sinceFill j = true) :
    (watchStores t s i).sinceFill j = true := by
  rw [watchStores_sinceFill, hf, if_neg (by simp), h]
  split_ifs <;> rfl

theorem fills_eq_false (hs : s.rState ≠ .cleanReload) : s.fills i = false := by
  rw [fills, decide_eq_false hs, Bool.false_and]

theorem DirtyInv.step_mono (h : s.DirtyInv t) (j : L2Idx) :
    (watchStores t s i).since j = true → (watchStores t s i).sinceFill j = true := by
  rw [watchStores_since, watchStores_sinceFill]
  cases hf : s.fills i
  · intro hj
    by_cases hh : s.storeHits = true ∧ j = s.rIdx
    · simp [hh]
    · rw [if_neg hh] at hj ⊢
      split_ifs at hj with h1
      · rw [if_neg (by simp)]
        exact h.mono j hj
  · simp only [Bool.true_or, true_and]
    intro hj
    by_cases hne : j = s.rIdx
    · rw [if_pos hne] at hj
      cases hj
    · rw [if_neg hne, if_neg (fun hh => hne hh.2)] at hj ⊢
      exact h.mono j hj

/-- **A cycle keeps the dirty bits exact**, unless it ends a reload in a dirty set. -/
theorem DirtyInv.step_dirty (h : s.DirtyInv t) (hc : s.ControlInv) (hd : s.dirtyReload i = false) :
    ∀ j, (s.step i).Initialised j → (s.step i).dirtyRam j = true →
      (watchStores t s i).since j = true := by
  intro j hj hdirty
  have hold (hs : s.rState ≠ .initialise) (hs' : s.rState ≠ .flushWait)
      (hs'' : s.fills i = false) (h2 : (s.ctl i).tWrDirty = false) :
      (watchStores t s i).since j = true := by
    rw [step_dirtyRam, h2, if_neg (by simp)] at hdirty
    exact since_next hs'' hs' (h.dirty j (initialised_of_ne hs) hdirty)
  cases s.move i with
  | walk hs hm =>
      have hst : (s.step i).rState = _ := congrArg L2Ctl.nState hm
      have hidx : (s.step i).rIdx = _ := congrArg L2Ctl.tIdx hm
      by_cases hne : j = s.rIdx + 1
      · simp [step_dirtyRam, hm, hne, dfltCtl] at hdirty
      · have hinit := initialised_walk hst hidx hj hne
        simp only [step_dirtyRam, hm, hne, and_false, if_false] at hdirty
        exact since_next (fills_eq_false (by simp [hs])) (by simp [hs]) (h.dirty j hinit hdirty)
  | hitStore hs hh ho hm =>
      have hfill : s.fills i = false := fills_eq_false (by simp [hs])
      by_cases hne : j = s.rIdx
      · have hhit : s.storeHits = true := by
          simp [storeHits, hs, hh, ho, hc.op (by rw [serving, hs]) ho]
        rw [watchStores_since, hfill, hhit]
        simp [hs, hne]
      · simp [step_dirtyRam, hm, hne, dfltCtl] at hdirty
        exact since_next hfill (by simp [hs]) (h.dirty j (initialised_of_ne (by simp [hs])) hdirty)
  | loaded hs hr hm =>
      have hfill : s.fills i = true := by simp [fills, hs, hr]
      have hold' : s.dirtyRam j = true := by
        simp only [step_dirtyRam, hm, dfltCtl] at hdirty
        simpa using hdirty
      by_cases hne : j = s.rIdx
      · rw [dirtyReload, hfill, ← hne, hold'] at hd
        cases hd
      · rw [watchStores_since, if_neg (fun h => hne h.2), if_neg (fun h => hne h.2)]
        exact h.dirty j (initialised_of_ne (by simp [hs])) hold'
  | drop hs hm =>
      by_cases hne : j = s.rIdx
      · simp [step_dirtyRam, hm, hne, dfltCtl] at hdirty
      · simp [step_dirtyRam, hm, hne, dfltCtl] at hdirty
        rw [watchStores_since, if_neg (fun h => hne h.2), if_neg (fun h => hne h.2)]
        exact h.dirty j (initialised_of_ne (by simp [hs])) hdirty
  | wait hw hr hm =>
      have hfill : s.fills i = false := by rw [fills, hr, Bool.and_false]
      refine hold ?_ ?_ hfill (by simp [hm, dfltCtl])
      · rcases hw with hs | hs | hs <;> simp [hs]
      · rcases hw with hs | hs | hs <;> simp [hs]
  | _ =>
      exact hold (by simp [*]) (by simp [*]) (fills_eq_false (by simp [*]))
        (by simp [*, dfltCtl, nextSet])

theorem DirtyInv.step_triage (h : s.DirtyInv t) : (s.step i).rState = .flushTriage →
    (s.step i).wDirty = true → (watchStores t s i).sinceFill (s.step i).rIdx = true := by
  intro hst hw
  have hstate : (s.step i).rState = (s.ctl i).nState := rfl
  have hidx : (s.step i).rIdx = (s.ctl i).tIdx := rfl
  have hdirty : (s.step i).wDirty = s.dirtyRam (s.ctl i).tIdx := rfl
  rw [hstate] at hst
  rw [hdirty] at hw
  rw [hidx]
  cases s.move i with
  | drop hs hc =>
      rw [hc] at hw ⊢
      exact sinceFill_next (fills_eq_false (by simp [hs]))
        (h.mono _ (h.dirty _ (initialised_of_ne (by simp [hs])) hw))
  | wait hw' hm hc =>
      rw [hc] at hst
      change s.rState = .flushTriage at hst
      rcases hw' with hs | hs | hs <;> rw [hs] at hst <;> cases hst
  | walk hs hc | triageClean hs hd hc | flushed hs hm hc =>
      cases hl : s.atLast <;> simp [hc, nextSet, hl] at hst
  | rest hs _ _ _ hc | hitOther hs _ _ hc => simp [hc, dfltCtl, hs] at hst
  | _ => simp_all

theorem DirtyInv.step_store (h : s.DirtyInv t) (hc : s.ControlInv) :
    (s.step i).rState = .dirtyStore ∨ (s.step i).rState = .flushStore →
      (watchStores t s i).sinceFill (s.step i).rIdx = true := by
  intro hst
  have hstate : (s.step i).rState = (s.ctl i).nState := rfl
  have hidx : (s.step i).rIdx = (s.ctl i).tIdx := rfl
  rw [hstate] at hst
  rw [hidx]
  cases s.move i with
  | missDirty hs hh hd hm =>
      rw [hm]
      have hdirty : s.dirtyRam s.rIdx = true := (hc.reads hs).1 ▸ hd
      exact sinceFill_next (fills_eq_false (by simp [hs]))
        (h.mono _ (h.dirty _ (initialised_of_ne (by simp [hs])) hdirty))
  | triageDirty hs hd hm =>
      rw [hm]
      have hdirty : s.wDirty = true := by
        rw [wNeedWb] at hd
        split_ifs at hd
        exact hd
      exact sinceFill_next (fills_eq_false (by simp [hs])) (h.triage hs hdirty)
  | wait hw hr hm =>
      rw [hm] at hst ⊢
      exact sinceFill_next (by rw [fills, hr, Bool.and_false]) (h.store hst)
  | walk hs hm | triageClean hs hd hm | flushed hs hr hm =>
      cases hl : s.atLast <;> simp [hm, nextSet, hl] at hst
  | rest hs _ _ _ hm | hitOther hs _ _ hm => simp [hm, dfltCtl, hs] at hst
  | _ => simp_all

theorem DirtyInv.step (h : s.DirtyInv t) (hc : s.ControlInv) (hd : s.dirtyReload i = false) :
    (s.step i).DirtyInv (watchStores t s i) :=
  ⟨h.step_mono, h.step_dirty hc hd, h.step_triage, h.step_store hc⟩

/-! ### Runs -/

variable {x : L2 × Stored} {is : List L2In}

/-- No reload ends in a dirty set. -/
def CleanReloads (x : L2 × Stored) (i : L2In) : Prop := x.1.dirtyReload i = false

theorem inv_of_reach (h : storedL2.Reach CleanReloads x) : x.1.ControlInv ∧ x.1.DirtyInv x.2 := by
  refine h.invariant (P := fun x : L2 × Stored => x.1.ControlInv ∧ x.1.DirtyInv x.2) ?_ ?_
  · rintro ⟨s, t⟩ ⟨⟨p, hp⟩, ht⟩
    obtain rfl : s = L2.init p := hp
    obtain rfl : t = ⟨fun _ => false, fun _ => false⟩ := ht
    refine ⟨.init p, fun _ h => h, ?_, ?_, ?_⟩
    · intro j hj
      obtain ⟨h0, hle⟩ := hj rfl
      exact absurd (lt_of_lt_of_le h0 hle) (lt_irrefl 0)
    · intro h
      cases h
    · rintro (h | h) <;> cases h
  · rintro x i ⟨hc, hd⟩ he
    exact ⟨hc.step, hd.step hc he⟩

theorem DirtyExact.of_inv (h : x.1.ControlInv ∧ x.1.DirtyInv x.2) : DirtyExact x.1 x.2 where
  dirty := h.2.dirty
  valid := h.1.valid
  write := fun hr ho => by
    rcases h.1.memReq hr with ⟨-, hs⟩ | ⟨hl, -⟩
    · exact h.2.store hs
    · rw [ho] at hl
      cases hl

/-- A reload in a dirty set leaves a dirty line that no store has hit. -/
theorem not_exact_of_dirtyReload (i : L2In) (h : x.1.dirtyReload i = true) :
    ¬DirtyExact (storedL2.step x i).1 (storedL2.step x i).2 := by
  intro hex
  rw [dirtyReload, Bool.and_eq_true] at h
  obtain ⟨hf, hd⟩ := h
  have hf' := hf
  rw [fills, Bool.and_eq_true, decide_eq_true_eq] at hf'
  have hwr : (x.1.ctl i).tWrDirty = false ∧ (x.1.ctl i).nState = .waitCleanReload := by
    cases x.1.move i with
    | loaded hs hm hc => simp [hc, dfltCtl]
    | wait hw hm hc =>
        rw [hf'.2] at hm
        cases hm
    | _ => simp_all
  have hst : (x.1.step i).rState = .waitCleanReload := hwr.2
  have hdirty : (x.1.step i).dirtyRam x.1.rIdx = true := by
    rw [step_dirtyRam, hwr.1, if_neg (by simp), hd]
  have hsince : (watchStores x.2 x.1 i).since x.1.rIdx = false := by
    rw [watchStores_since, if_pos ⟨by rw [hf, Bool.true_or], rfl⟩]
  have hrec := hex.dirty x.1.rIdx (initialised_of_ne (s := x.1.step i) (by rw [hst]; decide)) hdirty
  rw [show (storedL2.step x i).2 = watchStores x.2 x.1 i from rfl, hsince] at hrec
  cases hrec

/-- **The dirty bits are exact in every state of a run exactly when no reload of the run ends in a
dirty set.** -/
theorem dirty_exact_iff (hx : storedL2.reset x) :
    (∀ js, js <+: is → DirtyExact (storedL2.run x js).1 (storedL2.run x js).2) ↔
      storedL2.Allowed CleanReloads x is := by
  constructor
  · intro h
    clear hx
    induction is generalizing x with
    | nil => exact trivial
    | cons i is ih =>
        refine ⟨?_, ih fun js hjs => h (i :: js) (List.cons_prefix_cons.mpr ⟨rfl, hjs⟩)⟩
        by_contra hd
        exact not_exact_of_dirtyReload i (Bool.not_eq_false _ |>.mp hd)
          (h [i] (List.cons_prefix_cons.mpr ⟨rfl, List.nil_prefix⟩))
  · rintro h js ⟨ks, rfl⟩
    exact .of_inv (inv_of_reach ((Machine.Reach.reset hx).run (Machine.Allowed.left h)))

/-! ### An eviction -/

/-- Nothing on the ports. -/
def idleIn : L2In where
  l1dReq := false
  l1iReq := false
  l1dAddr := 0
  l1iAddr := 0
  l1dOpcode := .lw
  l1MemReqStoreData := 0
  l1iFlushReq := false
  l1dFlushReq := false
  l1iFlushComplete := false
  l1dFlushComplete := false
  memRspValid := false
  memRspLoadData := 0

/-- INITIALIZE before set `a + 1`. -/
def walking (a : L2Idx) : L2 := { L2.init .zero with rIdx := a }

/-- The first state in IDLE. -/
def ready : L2 := { L2.init .zero with rState := .idle, rFlushComplete := true }

theorem bank_zero (b : Bank) : Block.bank 0 b = 0 := by simp [Block.bank]

theorem step_walk {a : L2Idx} {c : L2Ctl} (hc : (walking a).ctl idleIn = c)
    (he : c = { (walking a).dfltCtl idleIn with
      tWrValid := true, tWrDirty := true, tWrTag := true, tWrD := fun _ => true
      tIdx := a + 1, nState := c.nState, nFlushComplete := c.nFlushComplete }) :
    (walking a).step idleIn =
      { walking (a + 1) with rState := c.nState, rFlushComplete := c.nFlushComplete } := by
  have hdata : (fun b => writeIf true (a + 1) (Block.bank 0 b) fun _ => (0 : Line)) =
      fun _ _ => 0 := by
    funext b
    rw [bank_zero]
    exact writeIf_const _ _ _
  have htag : writeIf true (a + 1) (0 : L2Tag) (fun _ => 0) = fun _ => 0 := writeIf_const _ _ _
  have hbit : writeIf true (a + 1) false (fun _ => false) = fun _ => false := writeIf_const _ _ _
  simp only [step, hc]
  rw [he]
  show L2.mk _ _ _ _ _ _ _ _ _ _ _ _ _ _ _ _ _ _ _ _ _ _ _ _ _ _ _ _
    (fun b => writeIf true (a + 1) (Block.bank 0 b) fun _ => (0 : Line))
    (writeIf true (a + 1) (0 : L2Tag) fun _ => 0) (writeIf true (a + 1) false fun _ => false)
    (writeIf true (a + 1) false fun _ => false) = _
  rw [hdata, htag, hbit]
  rfl

theorem walking_ctl (a : L2Idx) : (walking a).ctl idleIn = (walking a).initialiseCtl idleIn := rfl

theorem step_walking {a : L2Idx} (h : a ≠ 16383) : (walking a).step idleIn = walking (a + 1) := by
  rw [step_walk (walking_ctl a)]
  all_goals
    rw [initialiseCtl, if_neg (show ¬(walking a).rIdx = 16383 from h)]
    rfl

theorem step_walking_last : (walking 16383).step idleIn = ready := by
  rw [step_walk (walking_ctl 16383)]
  all_goals rfl

/-- No store has hit. -/
def noStores : Stored := ⟨fun _ => false, fun _ => false⟩

theorem run_walking {k : ℕ} (hk : k ≤ 16383) :
    storedL2.run (walking 0, noStores) (List.replicate k idleIn) =
      (walking (BitVec.ofNat 14 k), noStores) := by
  induction k with
  | zero => rfl
  | succ k ih =>
      have hne : BitVec.ofNat 14 k ≠ 16383 := fun h => by
        have h' : k % 16384 = 16383 := congrArg BitVec.toNat h
        omega
      rw [List.replicate_succ', Machine.run_append, ih (by omega)]
      show ((walking (BitVec.ofNat 14 k)).step idleIn, noStores) = _
      rw [step_walking hne, BitVec.ofNat_add k 1]
      rfl

/-- The inputs of start-up. -/
def startUp : List L2In := List.replicate 16383 idleIn ++ [idleIn]

theorem run_startUp : storedL2.run (walking 0, noStores) startUp = (ready, noStores) := by
  rw [startUp, Machine.run_append, run_walking (le_refl 16383)]
  show ((walking 16383).step idleIn, noStores) = _
  rw [step_walking_last]

/-- The data side asks for set 0, with tag `t`. -/
def asks (op : MemOp) (t : L2Tag) : L2In :=
  { idleIn with l1dReq := true, l1dAddr := blockAddr t 0, l1dOpcode := op }

/-- Main memory answers. -/
def answers : L2In := { idleIn with memRspValid := true }

/-- A store with tag 0 misses and is done. -/
def storeRun : List L2In := [asks .sw 0, idleIn, answers, idleIn, idleIn, idleIn]

/-- Then a load with tag 1 evicts its line and is reloaded. -/
def evictRun : List L2In := [asks .lw 1, idleIn, answers, idleIn, answers]

theorem allowed_walking {k : ℕ} (hk : k ≤ 16383) :
    storedL2.Allowed CleanReloads (walking 0, noStores) (List.replicate k idleIn) := by
  induction k with
  | zero => exact trivial
  | succ k ih =>
      rw [List.replicate_succ']
      refine (ih (by omega)).append ?_
      rw [run_walking (by omega)]
      exact ⟨rfl, trivial⟩

theorem allowed_startUp : storedL2.Allowed CleanReloads (walking 0, noStores) startUp := by
  refine (allowed_walking (le_refl 16383)).append ?_
  rw [run_walking (le_refl 16383)]
  exact ⟨rfl, trivial⟩

/-- A store that misses keeps the dirty bits exact. -/
theorem dirty_exact_store : DirtyExact (storedL2.run (walking 0, noStores) (startUp ++ storeRun)).1
    (storedL2.run (walking 0, noStores) (startUp ++ storeRun)).2 := by
  refine (dirty_exact_iff ⟨⟨.zero, rfl⟩, rfl⟩).mpr (allowed_startUp.append ?_) _ List.prefix_rfl
  rw [run_startUp]
  exact ⟨rfl, rfl, rfl, rfl, rfl, rfl, trivial⟩

/-- A load that evicts the line of a store leaves its own line dirty. -/
theorem eviction_leaves_dirty : ¬∀ x, storedL2.reset x → ∀ is,
    DirtyExact (storedL2.run x is).1 (storedL2.run x is).2 := by
  intro h
  have hex := h (walking 0, noStores) ⟨⟨.zero, rfl⟩, rfl⟩ (startUp ++ (storeRun ++ evictRun))
  rw [Machine.run_append, run_startUp] at hex
  have hst : (storedL2.run (ready, noStores) (storeRun ++ evictRun)).1.rState = .waitCleanReload := by
    decide +kernel
  have hdirty : (storedL2.run (ready, noStores) (storeRun ++ evictRun)).1.dirtyRam 0 = true := by
    decide +kernel
  have hsince : (storedL2.run (ready, noStores) (storeRun ++ evictRun)).2.since 0 = false := by
    decide +kernel
  have hrec := hex.dirty 0 (initialised_of_ne (by rw [hst]; decide)) hdirty
  rw [hsince] at hrec
  cases hrec

end L2
end Rv32Core
